import Temnion.Library.Lines
import Temnion.Mcp.Server
import Temnion.Query.Sql
import Temnion.Query.Walk
import Temnion.Storage.Atomic

/-
This file models the tools that query the open store and trace the causes of an event.
-/

namespace Temnion.Mcp

open Format Query Storage

/-- A number from zero on is cut to an integer, and no other number is unsigned. -/
class JsonNumber.Unsigned [JsonNumber] where
  asU64 : JsonNumber.Carrier → Option UInt64

@[reducible] def JsonNumber.Unsigned.integers : @JsonNumber.Unsigned JsonNumber.integers :=
  @JsonNumber.Unsigned.mk JsonNumber.integers fun number : Int =>
    if 0 ≤ number then some (UInt64.ofNat (min number.toNat (2 ^ 64 - 1))) else none

section Types

variable [Binary64]

inductive ToolError where
  | missingArgument (name : Text)
  | noDatabase
  | parse (error : ParseError)
  | sql (error : SqlError)
  | query (error : QueryError)

/-- The line of a row behind its index. -/
def rowLine (row : QueryRow) (index : Nat) : Text :=
  '[' :: Text.decimal index ++ "] entity=".toList ++ Text.decimal row.entity.shard.toNat ++
    ':' :: Text.decimal row.entity.slot.toNat ++ ':' :: Text.decimal row.entity.generation.toNat ++
    " valid=".toList ++ Text.decimal row.validTime.clock.toNat ++ ':' :: Text.decimal row.validTime.ticks.toNat ++
    " seq=".toList ++ Text.decimal row.sequence.toNat

def resultLine (result : QueryResult) : Text :=
  "Query returned ".toList ++ Text.decimal result.rows.length ++ " rows (scanned: ".toList ++
    Text.decimal result.eventsScanned ++ ", truncated: ".toList ++
    (if result.truncated then "true".toList else "false".toList) ++ "):".toList

def report (result : QueryResult) : Text :=
  List.intercalate ['\n'] (resultLine result :: result.rows.mapIdx fun index row => rowLine row index)

def queryBudget (maxRows : Nat) : QueryBudget := ⟨some maxRows, some 50000, some (32 * 1024 * 1024)⟩

end Types

section Tools

variable [JsonNumber] [JsonNumber.Unsigned] [Binary64] [Unicode]

def JsonValue.asU64 : JsonValue → Option UInt64
  | .number value => JsonNumber.Unsigned.asU64 value
  | _ => none

def required {A : Type} (name : Text) (value : Option A) : Except ToolError A :=
  match value with
  | some value => .ok value
  | none => .error (.missingArgument name)

/-- The front of the text names its language. -/
def parseQuery (text : Text) : Except ToolError LogicalPlan :=
  let trimmed := Text.trim text
  if Text.startsWith trimmed "tn:".toList || Text.startsWith trimmed "#".toList || Text.startsWith trimmed "$".toList then
    (parseCompactTem text).mapError .parse
  else if Text.startsWith (trimmed.map Char.toLower) "select".toList then (parseSql text).mapError .sql
  else (parseTemql text).mapError .parse

/-- The query as the compact language spells it, of the first source in its first epoch. -/
def traceText (sequence maxDepth : UInt64) : Text :=
  "tn:$1:1:".toList ++ Text.decimal sequence.toNat ++ "<-".toList ++ Text.decimal maxDepth.toNat

variable [Crc32fast]

/-- Every plan goes to the executor of storage scans. -/
def executeQuery (store : Option Store) (disk : Disk) (args : JsonValue) : Except ToolError Text := do
  let text ← required "query".toList ((args.get "query".toList).bind JsonValue.asStr)
  let maxRows := ((args.get "max_rows".toList).bind JsonValue.asU64).getD 100
  match store with
  | none => .error .noDatabase
  | some store => do
      let logical ← parseQuery text
      let result ← (executeStorageScan store disk (planQuery logical) (queryBudget maxRows.toNat)).mapError .query
      return report result

def executeCausalTrace (store : Option Store) (disk : Disk) (args : JsonValue) : Except ToolError Text := do
  let sequence ← required "sequence".toList ((args.get "sequence".toList).bind JsonValue.asU64)
  let maxDepth := ((args.get "max_depth".toList).bind JsonValue.asU64).getD 16
  executeQuery store disk (.object [("query".toList, .string (traceText sequence maxDepth))])

end Tools

section Digits

variable {number : Nat}

theorem decimal_ends (number : Nat) : ∃ front last, Text.decimal number = front ++ [last] ∧ last.isDigit = true := by
  rcases List.eq_nil_or_concat' (Text.decimal number) with empty | ⟨front, last, same⟩
  · exact absurd empty Text.decimal_ne_nil
  · refine ⟨front, last, same, @Text.isDigit_of_mem_decimal number last ?_⟩
    rw [same]
    exact List.mem_append_right _ List.mem_cons_self

/-- A text that starts with a visible character and ends with a number is not trimmed. -/
theorem trim_decimal {first : Char} {middle : Text} (visible : Text.isWhitespace first = false) :
    Text.trim (first :: (middle ++ Text.decimal number)) = first :: (middle ++ Text.decimal number) := by
  obtain ⟨front, last, same, digit⟩ := decimal_ends number
  refine @trim_eq_self _ first last (first :: middle ++ front) (middle ++ Text.decimal number) rfl ?_ visible
    (digit_visible (.inr digit))
  rw [same, List.append_assoc, List.cons_append]

theorem trim_decimal_self (number : Nat) : Text.trim (Text.decimal number) = Text.decimal number := by
  obtain ⟨front, last, same, digit⟩ := decimal_ends number
  cases spelled : Text.decimal number with
  | nil => exact absurd spelled Text.decimal_ne_nil
  | cons first rest =>
      have digit' : first.isDigit = true := @Text.isDigit_of_mem_decimal number first (spelled ▸ List.mem_cons_self)
      exact trim_eq_self rfl (spelled ▸ same) (digit_visible (.inr digit')) (digit_visible (.inr digit))

end Digits

section TraceText

variable [Binary64] (sequence maxDepth : UInt64)

theorem readNumber_decimal (number : UInt64) (place : NumberPlace) :
    readNumber (2 ^ 64) place (Text.decimal number.toNat) = .ok number.toNat := by
  rw [readNumber, Text.parseUnsigned_decimal number.toNat_lt]
  rfl

/-- The event of this sequence, of the first source in its first epoch. -/
def sequenceText : Text := '1' :: ':' :: '1' :: ':' :: Text.decimal sequence.toNat

omit [Binary64] in
theorem splitAll_sequenceText :
    Text.splitAll ":".toList (sequenceText sequence) = [['1'], ['1'], Text.decimal sequence.toNat] := by
  have first : Text.splitOnce ":".toList (sequenceText sequence) =
      some (['1'], '1' :: ':' :: Text.decimal sequence.toNat) := @Text.splitOnce_append ':' ['1'] _ (by decide)
  have second : Text.splitOnce ":".toList ('1' :: ':' :: Text.decimal sequence.toNat) =
      some (['1'], Text.decimal sequence.toNat) := @Text.splitOnce_append ':' ['1'] _ (by decide)
  have third : Text.splitOnce ":".toList (Text.decimal sequence.toNat) = none :=
    Text.splitOnce_eq_none (Text.not_mem_decimal (by decide))
  have count : (sequenceText sequence).length = (Text.decimal sequence.toNat).length + 1 + 1 + 1 + 1 := rfl
  rw [Text.splitAll, count, Text.splitAtMost, first]
  dsimp only
  rw [Text.splitAtMost, second]
  dsimp only
  rw [Text.splitAtMost, third]

theorem parseEventId_sequenceText : parseEventId (sequenceText sequence) = .ok ⟨1, 1, sequence⟩ := by
  have whole : Text.trim ((Text.stripPrefix (sequenceText sequence) "$".toList).getD (sequenceText sequence)) =
      sequenceText sequence := @trim_decimal sequence.toNat '1' [':', '1', ':'] (by decide)
  have one : readNumber (2 ^ 32) .source ['1'] = .ok 1 := rfl
  have one' : readNumber (2 ^ 64) .epoch ['1'] = .ok 1 := rfl
  unfold parseEventId
  rw [whole, splitAll_sequenceText]
  dsimp only
  rw [one, one', readNumber_decimal]
  exact congrArg Except.ok (congrArg (EventId.mk 1 1) UInt64.ofNat_toNat)

variable [Unicode]

/-- A text that names an event and a depth around the arrow is a trace of its causes. -/
theorem parseCompactTem_causes {origin depth : Text} (absent : '<' ∉ origin)
    (whole : Text.trim ("tn:$".toList ++ (origin ++ "<-".toList ++ depth)) = "tn:$".toList ++ (origin ++ "<-".toList ++ depth))
    (whole' : Text.trim ('$' :: (origin ++ "<-".toList ++ depth)) = '$' :: (origin ++ "<-".toList ++ depth)) :
    parseCompactTem ("tn:$".toList ++ (origin ++ "<-".toList ++ depth)) = compactTrace .causes (origin, depth) := by
  have front : Text.stripPrefix ("tn:$".toList ++ (origin ++ "<-".toList ++ depth)) "tn:".toList =
      some ('$' :: (origin ++ "<-".toList ++ depth)) := rfl
  have front' : Text.stripPrefix ('$' :: (origin ++ "<-".toList ++ depth)) "$".toList =
      some (origin ++ "<-".toList ++ depth) := rfl
  have cut : Text.splitOnce "<-".toList (origin ++ "<-".toList ++ depth) = some (origin, depth) := by
    rw [List.append_assoc]
    exact @Text.splitOnce_at '<' origin ['-'] depth absent
  unfold parseCompactTem
  simp only [whole, front, Option.getD_some, whole', front', cut]
  rw [if_neg (List.cons_ne_nil _ _)]

omit [Binary64] [Unicode] in
theorem traceText_eq : traceText sequence maxDepth =
    "tn:$".toList ++ (sequenceText sequence ++ "<-".toList ++ Text.decimal maxDepth.toNat) := by
  have same : ∀ first second : Text, "tn:$1:1:".toList ++ first ++ "<-".toList ++ second =
      "tn:$".toList ++ ('1' :: ':' :: '1' :: ':' :: first ++ "<-".toList ++ second) := by simp
  exact same _ _

omit [Binary64] [Unicode] in
theorem trim_traceText : Text.trim (traceText sequence maxDepth) = traceText sequence maxDepth := by
  rw [traceText_eq]
  exact @trim_decimal maxDepth.toNat 't' ("n:$".toList ++ (sequenceText sequence ++ "<-".toList)) (by decide)

theorem parseCompactTem_traceText : parseCompactTem (traceText sequence maxDepth) =
    .ok (.causalTrace ⟨⟨1, 1, sequence⟩, .causes, some maxDepth.toNat, none⟩) := by
  have absent : '<' ∉ sequenceText sequence := by simp [sequenceText, Text.not_mem_decimal]
  have origin : Text.trim (sequenceText sequence) = sequenceText sequence :=
    @trim_decimal sequence.toNat '1' [':', '1', ':'] (by decide)
  have whole := trim_traceText sequence maxDepth
  have whole' := @trim_decimal maxDepth.toNat '$' (sequenceText sequence ++ "<-".toList) (by decide)
  rw [traceText_eq] at whole
  rw [traceText_eq, parseCompactTem_causes absent whole whole', compactTrace, origin, trim_decimal_self,
    parseEventId_sequenceText, readNumber_decimal]
  rfl

theorem parseQuery_traceText : parseQuery (traceText sequence maxDepth) =
    .ok (.causalTrace ⟨⟨1, 1, sequence⟩, .causes, some maxDepth.toNat, none⟩) := by
  have front : Text.startsWith (traceText sequence maxDepth) "tn:".toList = true := rfl
  unfold parseQuery
  simp only [trim_traceText, front, Bool.true_or, if_pos, parseCompactTem_traceText]
  rfl

/-- The plan of the text is a walk, which the executor of walks answers with the first events of the trace. -/
theorem executeCausalWalk_traceText (graph : Causal.CausalGraph) (budget : QueryBudget) : ∃ plan trace,
    parseQuery (traceText sequence maxDepth) = .ok plan ∧
      graph.traceCauses ⟨1, 1, sequence⟩ maxDepth.toNat = some trace ∧
      executeCausalWalk graph (planQuery plan) budget =
        some (.ok (trace.events.take (min usizeMax (budget.maxRows.getD usizeMax)))) := by
  obtain ⟨trace, ended, walked⟩ := executeCausalWalk_causes graph ⟨1, 1, sequence⟩ maxDepth.toNat none budget
  exact ⟨_, trace, parseQuery_traceText sequence maxDepth, ended, walked⟩

end TraceText

section Answer

variable [JsonNumber] [JsonNumber.Unsigned] [Binary64] [Unicode] [Crc32fast]

/-- The text is a report whose rows are the events of the trace. -/
def AnswersTrace (outcome : Except ToolError Text) (graph : Causal.CausalGraph) (root : EventId) (maxDepth : Nat) : Prop :=
  ∃ result trace, outcome = .ok (report result) ∧ graph.traceCauses root maxDepth = some trace ∧
    ∀ sequence, sequence ∈ result.rows.map QueryRow.sequence ↔ sequence ∈ trace.events.map EventId.sequence

/-- The executor of storage scans refuses the plan of the text. -/
theorem executeCausalTrace_eq (store : Store) (disk : Disk) (args : JsonValue) :
    executeCausalTrace (some store) disk args =
      .error (if ((args.get "sequence".toList).bind JsonValue.asU64).isSome then .query .unsupported
        else .missingArgument "sequence".toList) := by
  unfold executeCausalTrace
  cases named : (args.get "sequence".toList).bind JsonValue.asU64 with
  | none => rfl
  | some sequence =>
      simp only [required, Except.ok_bind, Option.isSome_some, if_pos]
      generalize ((args.get "max_depth".toList).bind JsonValue.asU64).getD 16 = maxDepth
      have text : ((JsonValue.object [("query".toList, .string (traceText sequence maxDepth))]).get "query".toList).bind
          JsonValue.asStr = some (traceText sequence maxDepth) := rfl
      unfold executeQuery
      simp only [text, required, Except.ok_bind, parseQuery_traceText]
      rfl

/-- The tool refuses every event, although the executor of walks would answer. -/
theorem executeCausalTrace_never_answers (store : Store) (disk : Disk) (args : JsonValue) (events : List StoredEvent)
    (root : EventId) (maxDepth : Nat) :
    executeCausalTrace (some store) disk args =
        .error (if ((args.get "sequence".toList).bind JsonValue.asU64).isSome then .query .unsupported
          else .missingArgument "sequence".toList) ∧
      ¬ AnswersTrace (executeCausalTrace (some store) disk args) (.ofEvents events) root maxDepth := by
  refine ⟨executeCausalTrace_eq store disk args, ?_⟩
  rintro ⟨result, trace, answered, -⟩
  rw [executeCausalTrace_eq] at answered
  contradiction

end Answer

/-- The causes of the first event of the first source are refused. -/
theorem first_event_refused :
    letI := Crc32fast.ieee
    letI := JsonNumber.integers
    letI := JsonNumber.Unsigned.integers
    letI := Binary64.exact
    letI := Unicode.ascii
    let args : JsonValue := .object [("sequence".toList, .number (JsonNumber.ofInt 0))]
    ∃ world record, Reached (fun _ _ => True) world ∧ record.id = ⟨1, 1, 0⟩ ∧
      world.store.get world.disk record.id = .ok record ∧
      executeCausalTrace (some world.store) world.disk args = .error (.query .unsupported) ∧
      ¬ AnswersTrace (executeCausalTrace (some world.store) world.disk args) (.ofEvents [record]) record.id 16 := by
  let := JsonNumber.integers
  let := JsonNumber.Unsigned.integers
  let := Binary64.exact
  let := Unicode.ascii
  generalize Crc32fast.ieee = inst
  dsimp only
  let start : World := ⟨⟨encodeWalHeader ⟨sampleDatabase, 1, 1⟩, [], none, []⟩,
    startStore ⟨sampleDatabase, 1, 1⟩ Limits.default 0, [], none⟩
  have created : create sampleDatabase 1 1 Limits.default = .ok (start.disk, start.store) :=
    create_ok.mpr ⟨rfl, rfl, rfl⟩
  have aligned : start.disk.wal.length = start.store.endOffset := encodeWalHeader_length _
  have next : NextBatch start.store [bareInput 1 5] [recordOf start.store.header 0 (bareInput 1 5)] :=
    NextBatch.bare rfl (fun _ absent => nomatch absent) (show 0 + 1 < 2 ^ 64 by decide)
      (show walHeaderLen + 92 < 2 ^ 64 by decide)
  have done := append_eq_ok.mpr ⟨_, ⟨rfl, next, aligned, fun _ _ => rfl⟩, rfl, rfl⟩
  have reached : Reached (fun _ _ => True) start := .created created
  have appended : Reached (fun _ _ => True) (Store.append [bareInput 1 5] start).2 := reached.appended trivial
  rw [done] at appended
  have refused : ∀ store disk, executeCausalTrace (some store) disk
      (.object [("sequence".toList, .number (JsonNumber.ofInt 0))]) = .error (.query .unsupported) := by
    intro store disk
    rw [executeCausalTrace_eq]
    rfl
  refine ⟨_, recordOf start.store.header 0 (bareInput 1 5), appended, rfl,
    next.get reached.behind rfl aligned List.mem_cons_self, refused _ _, ?_⟩
  rintro ⟨result, trace, answered, -⟩
  rw [refused] at answered
  cases answered

end Temnion.Mcp
