import Temnion.Library.Fallible
import Temnion.Library.Lines

/-
This file writes the configuration of the daemon as lines of text, reads it back and says which values survive.
-/

namespace Temnion.Daemon

/-- The path of the data directory is a text. -/
structure DaemonConfig where
  databaseName : Text
  adminUser : Text
  authToken : Option Text
  dataDir : Text
  serverId : Text
  tnpBind : Text
  flightBind : Text
  mcpEnabled : Bool
  maintenanceIntervalSecs : UInt64
  sourceId : UInt32
  sourceEpoch : UInt64
  deriving DecidableEq

/-- Input and output are left out. -/
inductive ConfigError where
  | parse (message : Text)
  deriving DecidableEq

def parseBool (value : Text) : Option Bool :=
  if value = "true".toList then some true
  else if value = "false".toList then some false
  else none

def boolText (value : Bool) : Text := if value then "true".toList else "false".toList

/-- What stands between the quotes. Any number of quotes is removed. -/
def unquote (value : Text) : Text := (value.trimMatches '"').trimMatches '\''

namespace DaemonConfig

def default : DaemonConfig where
  databaseName := "temnion_default".toList
  adminUser := "temnion_admin".toList
  authToken := none
  dataDir := "./data/temnion_db".toList
  serverId := "temniond-primary".toList
  tnpBind := "127.0.0.1:9180".toList
  flightBind := "127.0.0.1:9181".toList
  mcpEnabled := true
  maintenanceIntervalSecs := 60
  sourceId := 1
  sourceEpoch := 1

/-- The message about a value that is not of its kind. -/
def invalid (lineNum : Nat) (kind key value : Text) : ConfigError :=
  .parse ("line ".toList ++ Text.decimal lineNum ++ ": invalid ".toList ++ kind ++ " for ".toList ++ key ++
    ": '".toList ++ value ++ "'".toList)

def parseInteger (bound lineNum : Nat) (key value : Text) : Except ConfigError Nat :=
  (Text.parseUnsigned bound value).mapError fun _ => invalid lineNum "integer".toList key value

/-- An unknown key is ignored. -/
def assign (config : DaemonConfig) (lineNum : Nat) (key value : Text) : Except ConfigError DaemonConfig :=
  if key = "database_name".toList then .ok { config with databaseName := value }
  else if key = "admin_user".toList then .ok { config with adminUser := value }
  else if key = "auth_token".toList then
    .ok { config with authToken := if value = [] then none else some value }
  else if key = "data_dir".toList then .ok { config with dataDir := value }
  else if key = "server_id".toList then .ok { config with serverId := value }
  else if key = "tnp_bind".toList then .ok { config with tnpBind := value }
  else if key = "flight_bind".toList then .ok { config with flightBind := value }
  else if key = "mcp_enabled".toList then
    match parseBool value with
    | some enabled => .ok { config with mcpEnabled := enabled }
    | none => .error (invalid lineNum "boolean".toList key value)
  else if key = "maintenance_interval_secs".toList then do
    let secs ← parseInteger (2 ^ 64) lineNum key value
    return { config with maintenanceIntervalSecs := UInt64.ofNat secs }
  else if key = "source_id".toList then do
    let id ← parseInteger (2 ^ 32) lineNum key value
    return { config with sourceId := UInt32.ofNat id }
  else if key = "source_epoch".toList then do
    let epoch ← parseInteger (2 ^ 64) lineNum key value
    return { config with sourceEpoch := UInt64.ofNat epoch }
  else .ok config

def parseLine (config : DaemonConfig) (lineNum : Nat) (line : Text) : Except ConfigError DaemonConfig :=
  let trimmed := line.trim
  if trimmed = [] ∨ trimmed.startsWith ['#'] ∨ trimmed.startsWith ['['] then .ok config
  else
    match Text.splitOnce ['='] trimmed with
    | some (key, value) => config.assign lineNum key.trim (unquote value.trim)
    | none => .error (.parse ("line ".toList ++ Text.decimal lineNum ++
        ": invalid syntax, expected key = value: '".toList ++ trimmed ++ "'".toList))

def parseLines : Nat → DaemonConfig → List Text → Except ConfigError DaemonConfig
  | _, config, [] => .ok config
  | lineNum, config, line :: rest => do
      let config ← config.parseLine lineNum line
      parseLines (lineNum + 1) config rest

def parseToml (content : Text) : Except ConfigError DaemonConfig := parseLines 1 default content.lines

def quotedLine (key value : Text) : Text := key ++ " = \"".toList ++ value ++ "\"".toList

def plainLine (key value : Text) : Text := key ++ " = ".toList ++ value

def tomlLines (config : DaemonConfig) : List Text := [
  "# Temnion Standalone Daemon Configuration (temnion.toml)".toList,
  [],
  "[database]".toList,
  quotedLine "database_name".toList config.databaseName,
  quotedLine "admin_user".toList config.adminUser,
  quotedLine "auth_token".toList (config.authToken.getD []),
  [],
  "[storage]".toList,
  quotedLine "data_dir".toList config.dataDir,
  plainLine "source_id".toList (Text.decimal config.sourceId.toNat),
  plainLine "source_epoch".toList (Text.decimal config.sourceEpoch.toNat),
  [],
  "[network]".toList,
  quotedLine "server_id".toList config.serverId,
  quotedLine "tnp_bind".toList config.tnpBind,
  quotedLine "flight_bind".toList config.flightBind,
  plainLine "mcp_enabled".toList (boolText config.mcpEnabled),
  [],
  "[maintenance]".toList,
  plainLine "maintenance_interval_secs".toList (Text.decimal config.maintenanceIntervalSecs.toNat)]

/-- Values are written between quotes as they are. -/
def toTomlString (config : DaemonConfig) : Text := config.tomlLines.flatMap (· ++ ['\n'])

section Lines

variable {config config' : DaemonConfig} {lineNum : Nat} {key value line : Text} {rest : List Text}

/-- The letters of the keys. -/
def isKeyChar (character : Char) : Bool := character.isLower || character == '_'

theorem isKeyChar_plain {character : Char} (letter : isKeyChar character = true) :
    Text.isWhitespace character = false ∧ character ≠ '=' ∧ character ≠ '#' ∧ character ≠ '[' ∧ character ≠ '\n' := by
  have code : 95 ≤ character.toNat ∧ character.toNat ≤ 122 := by
    unfold isKeyChar at letter
    rcases Bool.or_eq_true _ _ ▸ letter with lower | line
    · simp only [Char.isLower, Bool.and_eq_true, decide_eq_true_eq, ge_iff_le, UInt32.le_iff_toNat_le] at lower
      have same : character.toNat = character.val.toNat := rfl
      simp at lower
      omega
    · rw [beq_iff_eq.mp line]
      decide
  have other : ∀ wanted : Char, ¬(95 ≤ wanted.toNat ∧ wanted.toNat ≤ 122) → character ≠ wanted := by
    rintro wanted outside rfl
    exact outside code
  refine ⟨?_, other _ (by decide), other _ (by decide), other _ (by decide), other _ (by decide)⟩
  simp only [Text.isWhitespace, Bool.or_eq_false_iff, decide_eq_false_iff_not, beq_eq_false_iff_ne]
  omega

/-- Lines without an assignment are skipped. -/
theorem parseLines_skip (skipped : line.trim = [] ∨ line.trim.startsWith ['#'] ∨ line.trim.startsWith ['[']) :
    parseLines lineNum config (line :: rest) = parseLines (lineNum + 1) config rest := by
  have same : config.parseLine lineNum line = .ok config := if_pos skipped
  rw [parseLines, same, Except.ok_bind]

/-- A line assigns the value without its quotes to the key. -/
theorem parseLine_assignment (letters : key.all isKeyChar = true) (named : key ≠ []) (some' : value ≠ [])
    (starts : ∀ character ∈ value.head?, Text.isWhitespace character = false)
    (ends : ∀ character ∈ value.getLast?, Text.isWhitespace character = false) :
    config.parseLine lineNum (plainLine key value) = config.assign lineNum key (unquote value) := by
  obtain ⟨first, others, rfl⟩ := List.exists_cons_of_ne_nil named
  have plain := fun character member => isKeyChar_plain (List.all_eq_true.mp letters character member)
  have head := plain first List.mem_cons_self
  have blank : ∀ character ∈ [' '], Text.isWhitespace character = true := by
    intro character member
    rw [List.mem_singleton.mp member]
    rfl
  have none' : ∀ character ∈ ([] : Text), Text.isWhitespace character = true :=
    fun _ member => absurd member List.not_mem_nil
  have spelled : plainLine (first :: others) value = (first :: others) ++ [' '] ++ '=' :: ([' '] ++ value) := by
    rw [plainLine, List.append_assoc, List.append_assoc]
    rfl
  have last : (plainLine (first :: others) value).getLast? = value.getLast? := by
    rw [plainLine, List.getLast?_append]
    cases ending : value.getLast? with
    | none => exact absurd (List.getLast?_eq_none_iff.mp ending) some'
    | some character => rfl
  have trimmed : (plainLine (first :: others) value).trim = plainLine (first :: others) value := by
    have surrounded := @Text.trim_surrounded (plainLine (first :: others) value) [] [] none' none'
      (List.cons_ne_nil _ _) (fun character found => Option.some.inj found ▸ head.1) (by rw [last]; exact ends)
    rwa [List.nil_append, List.append_nil] at surrounded
  have keyTrimmed : Text.trim ((first :: others) ++ [' ']) = first :: others := by
    refine @Text.trim_surrounded (first :: others) [] [' '] none' blank (List.cons_ne_nil _ _)
      (fun character found => Option.some.inj found ▸ head.1) fun character found => ?_
    exact (plain character (List.mem_of_getLast? found)).1
  have valueTrimmed : Text.trim ([' '] ++ value) = value := by
    have surrounded := @Text.trim_surrounded value [' '] [] blank none' some' starts ends
    rwa [List.append_nil] at surrounded
  have absent : '=' ∉ (first :: others) ++ [' '] := by
    intro member
    rcases List.mem_append.mp member with inside | behind
    · exact (plain '=' inside).2.1 rfl
    · exact absurd (List.mem_singleton.mp behind) (by decide)
  unfold parseLine
  dsimp only
  rw [trimmed, if_neg]
  · rw [spelled, Text.splitOnce_append absent]
    dsimp only
    rw [keyTrimmed, valueTrimmed]
  · have opens : plainLine (first :: others) value = first :: (others ++ " = ".toList ++ value) := rfl
    rw [opens, Text.startsWith_singleton, Text.startsWith_singleton]
    rintro (empty | comment | table)
    · exact absurd empty (List.cons_ne_nil _ _)
    · exact head.2.2.1 (beq_iff_eq.mp comment).symm
    · exact head.2.2.2.1 (beq_iff_eq.mp table).symm

/-- A quoted line assigns what is left of the value when quotes are removed at its ends. -/
theorem parseLines_quoted (letters : key.all isKeyChar = true) (named : key ≠ [])
    (assigned : config.assign lineNum key (unquote value) = .ok config') :
    parseLines lineNum config (quotedLine key value :: rest) = parseLines (lineNum + 1) config' rest := by
  have spelled : quotedLine key value = plainLine key ('"' :: (value ++ ['"'])) := by
    rw [quotedLine, plainLine, List.append_assoc, List.append_assoc, List.append_assoc]
    rfl
  have last : ('"' :: (value ++ ['"'])).getLast? = some '"' := by
    rw [← List.cons_append, List.getLast?_concat]
  have inner : unquote ('"' :: (value ++ ['"'])) = unquote value := by
    rw [unquote, Text.trimMatches_surrounded, unquote]
  have line : config.parseLine lineNum (quotedLine key value) = .ok config' := by
    rw [spelled, parseLine_assignment letters named (List.cons_ne_nil _ _), inner, assigned]
    · exact fun character found => Option.some.inj found ▸ rfl
    · rw [last]
      exact fun character found => Option.some.inj found ▸ rfl
  rw [parseLines, line, Except.ok_bind]

/-- A word has neither white space nor quotes at its ends. -/
def IsWord (value : Text) : Prop := value ≠ [] ∧ value.all Char.isAlphanum = true

theorem IsWord.decimal (number : Nat) : IsWord (Text.decimal number) := by
  refine ⟨Text.decimal_ne_nil, List.all_eq_true.mpr fun character member => ?_⟩
  rw [Char.isAlphanum, Text.isDigit_of_mem_decimal member, Bool.or_true]

theorem IsWord.boolText (value : Bool) : IsWord (boolText value) := by
  cases value <;> exact ⟨by decide, by decide⟩

theorem isAlphanum_plain {character : Char} (alphanumeric : character.isAlphanum = true) :
    Text.isWhitespace character = false ∧ character ≠ '"' ∧ character ≠ '\'' ∧ character ≠ '\n' ∧ character ≠ '\r' := by
  have code : 48 ≤ character.toNat ∧ character.toNat ≤ 122 := by
    simp only [Char.isAlphanum, Char.isAlpha, Char.isUpper, Char.isLower, Char.isDigit, Bool.or_eq_true,
      Bool.and_eq_true, decide_eq_true_eq, ge_iff_le, UInt32.le_iff_toNat_le] at alphanumeric
    have same : character.toNat = character.val.toNat := rfl
    simp at alphanumeric
    omega
  have other : ∀ wanted : Char, ¬(48 ≤ wanted.toNat ∧ wanted.toNat ≤ 122) → character ≠ wanted := by
    rintro wanted outside rfl
    exact outside code
  refine ⟨?_, other _ (by decide), other _ (by decide), other _ (by decide), other _ (by decide)⟩
  simp only [Text.isWhitespace, Bool.or_eq_false_iff, decide_eq_false_iff_not, beq_eq_false_iff_ne]
  omega

theorem IsWord.unquote (word : IsWord value) : unquote value = value := by
  have plain := fun character member => isAlphanum_plain (List.all_eq_true.mp word.2 character member)
  have outer : value.trimMatches '"' = value := Text.trimMatches_eq_self.mpr
    ⟨fun starts => (plain _ (List.mem_of_head? starts)).2.1 rfl,
      fun ends => (plain _ (List.mem_of_getLast? ends)).2.1 rfl⟩
  rw [Daemon.unquote, outer]
  exact Text.trimMatches_eq_self.mpr ⟨fun starts => (plain _ (List.mem_of_head? starts)).2.2.1 rfl,
    fun ends => (plain _ (List.mem_of_getLast? ends)).2.2.1 rfl⟩

theorem parseLines_word (letters : key.all isKeyChar = true) (named : key ≠ []) (word : IsWord value)
    (assigned : config.assign lineNum key value = .ok config') :
    parseLines lineNum config (plainLine key value :: rest) = parseLines (lineNum + 1) config' rest := by
  have plain := fun character member => isAlphanum_plain (List.all_eq_true.mp word.2 character member)
  have line : config.parseLine lineNum (plainLine key value) = .ok config' := by
    rw [parseLine_assignment letters named word.1, word.unquote, assigned]
    · exact fun character found => (plain character (List.mem_of_head? found)).1
    · exact fun character found => (plain character (List.mem_of_getLast? found)).1
  rw [parseLines, line, Except.ok_bind]

theorem parseInteger_decimal {bound number : Nat} (below : number < bound) :
    parseInteger bound lineNum key (Text.decimal number) = .ok number := by
  rw [parseInteger, Text.parseUnsigned_decimal below]
  rfl

end Lines

/-- The fields of free text. -/
def texts (config : DaemonConfig) : List Text := [config.databaseName, config.adminUser, config.authToken.getD [],
  config.dataDir, config.serverId, config.tnpBind, config.flightBind]

/-- The configuration with quotes removed at the ends of its texts. -/
def settled (config : DaemonConfig) : DaemonConfig where
  databaseName := unquote config.databaseName
  adminUser := unquote config.adminUser
  authToken := if unquote (config.authToken.getD []) = [] then none else some (unquote (config.authToken.getD []))
  dataDir := unquote config.dataDir
  serverId := unquote config.serverId
  tnpBind := unquote config.tnpBind
  flightBind := unquote config.flightBind
  mcpEnabled := config.mcpEnabled
  maintenanceIntervalSecs := config.maintenanceIntervalSecs
  sourceId := config.sourceId
  sourceEpoch := config.sourceEpoch

section RoundTrip

variable {config config' : DaemonConfig} {lineNum : Nat} {key value line : Text}

theorem assign_sourceId (target : UInt32) :
    config.assign lineNum "source_id".toList (Text.decimal target.toNat) = .ok { config with sourceId := target } := by
  change (parseInteger (2 ^ 32) lineNum "source_id".toList (Text.decimal target.toNat) >>= fun id =>
    .ok { config with sourceId := UInt32.ofNat id }) = _
  rw [parseInteger_decimal target.toNat_lt, Except.ok_bind, UInt32.ofNat_toNat]

theorem assign_sourceEpoch (target : UInt64) :
    config.assign lineNum "source_epoch".toList (Text.decimal target.toNat) =
      .ok { config with sourceEpoch := target } := by
  change (parseInteger (2 ^ 64) lineNum "source_epoch".toList (Text.decimal target.toNat) >>= fun epoch =>
    .ok { config with sourceEpoch := UInt64.ofNat epoch }) = _
  rw [parseInteger_decimal target.toNat_lt, Except.ok_bind, UInt64.ofNat_toNat]

theorem assign_maintenanceIntervalSecs (target : UInt64) :
    config.assign lineNum "maintenance_interval_secs".toList (Text.decimal target.toNat) =
      .ok { config with maintenanceIntervalSecs := target } := by
  change (parseInteger (2 ^ 64) lineNum "maintenance_interval_secs".toList (Text.decimal target.toNat) >>= fun secs =>
    .ok { config with maintenanceIntervalSecs := UInt64.ofNat secs }) = _
  rw [parseInteger_decimal target.toNat_lt, Except.ok_bind, UInt64.ofNat_toNat]

theorem assign_mcpEnabled (target : Bool) :
    config.assign lineNum "mcp_enabled".toList (boolText target) = .ok { config with mcpEnabled := target } := by
  cases target <;> rfl

/-- The written lines are read one by one. -/
theorem parseLines_tomlLines (config : DaemonConfig) : parseLines 1 default config.tomlLines = .ok config.settled := by
  unfold tomlLines
  refine (parseLines_skip (by decide)).trans ?_
  refine (parseLines_skip (by decide)).trans ?_
  refine (parseLines_skip (by decide)).trans ?_
  refine (parseLines_quoted (by decide) (by decide) (by rfl)).trans ?_
  refine (parseLines_quoted (by decide) (by decide) (by rfl)).trans ?_
  refine (parseLines_quoted (by decide) (by decide) (by rfl)).trans ?_
  refine (parseLines_skip (by decide)).trans ?_
  refine (parseLines_skip (by decide)).trans ?_
  refine (parseLines_quoted (by decide) (by decide) (by rfl)).trans ?_
  refine (parseLines_word (by decide) (by decide) (IsWord.decimal _) (assign_sourceId _)).trans ?_
  refine (parseLines_word (by decide) (by decide) (IsWord.decimal _) (assign_sourceEpoch _)).trans ?_
  refine (parseLines_skip (by decide)).trans ?_
  refine (parseLines_skip (by decide)).trans ?_
  refine (parseLines_quoted (by decide) (by decide) (by rfl)).trans ?_
  refine (parseLines_quoted (by decide) (by decide) (by rfl)).trans ?_
  refine (parseLines_quoted (by decide) (by decide) (by rfl)).trans ?_
  refine (parseLines_word (by decide) (by decide) (IsWord.boolText _) (assign_mcpEnabled _)).trans ?_
  refine (parseLines_skip (by decide)).trans ?_
  refine (parseLines_skip (by decide)).trans ?_
  refine (parseLines_word (by decide) (by decide) (IsWord.decimal _) (assign_maintenanceIntervalSecs _)).trans ?_
  rfl

theorem key_unbroken (letters : key.all isKeyChar = true) : key.Unbroken := fun character member =>
  beq_eq_false_iff_ne.mpr (isKeyChar_plain (List.all_eq_true.mp letters character member)).2.2.2.2

theorem quotedLine_unbroken (letters : key.all isKeyChar = true) (unbroken : value.Unbroken) :
    (quotedLine key value).Unbroken ∧ (quotedLine key value).getLast? ≠ some '\r' := by
  constructor
  · refine List.forall_mem_append.mpr ⟨List.forall_mem_append.mpr ⟨List.forall_mem_append.mpr ?_, unbroken⟩, ?_⟩
    · exact ⟨key_unbroken letters, Text.unbroken_of_all (by decide)⟩
    · exact Text.unbroken_of_all (by decide)
  · rw [quotedLine, show "\"".toList = ['"'] from rfl, List.getLast?_concat]
    decide

theorem plainLine_unbroken (letters : key.all isKeyChar = true) (word : IsWord value) :
    (plainLine key value).Unbroken ∧ (plainLine key value).getLast? ≠ some '\r' := by
  have alphanumeric := fun character member => isAlphanum_plain (List.all_eq_true.mp word.2 character member)
  constructor
  · refine List.forall_mem_append.mpr ⟨List.forall_mem_append.mpr ?_, fun character member => ?_⟩
    · exact ⟨key_unbroken letters, Text.unbroken_of_all (by decide)⟩
    · exact beq_eq_false_iff_ne.mpr (alphanumeric character member).2.2.2.1
  · rw [plainLine, List.getLast?_append]
    cases ending : value.getLast? with
    | none => exact absurd (List.getLast?_eq_none_iff.mp ending) word.1
    | some character =>
        intro same
        exact (alphanumeric character (List.mem_of_getLast? ending)).2.2.2.2 (Option.some.inj same)

/-- Without line breaks in its texts a configuration is read back with quotes removed. -/
theorem parseToml_unbroken (unbroken : ∀ text ∈ config.texts, text.Unbroken) :
    parseToml config.toTomlString = .ok config.settled := by
  have plain : ∀ text : Text, text.all (!Text.isBreak ·) = true → text.getLast? ≠ some '\r' →
      text.Unbroken ∧ text.getLast? ≠ some '\r' := fun _ whole ends => ⟨Text.unbroken_of_all whole, ends⟩
  simp only [texts, List.forall_mem_cons] at unbroken
  obtain ⟨databaseName, adminUser, authToken, dataDir, serverId, tnpBind, flightBind, -⟩ := unbroken
  rw [parseToml, toTomlString, Text.lines_flatMap, parseLines_tomlLines]
  unfold tomlLines
  simp only [List.forall_mem_cons]
  exact ⟨plain _ (by decide) (by decide), plain _ (by decide) (by decide), plain _ (by decide) (by decide),
    quotedLine_unbroken (by decide) databaseName, quotedLine_unbroken (by decide) adminUser,
    quotedLine_unbroken (by decide) authToken, plain _ (by decide) (by decide), plain _ (by decide) (by decide),
    quotedLine_unbroken (by decide) dataDir, plainLine_unbroken (by decide) (IsWord.decimal _),
    plainLine_unbroken (by decide) (IsWord.decimal _), plain _ (by decide) (by decide),
    plain _ (by decide) (by decide), quotedLine_unbroken (by decide) serverId,
    quotedLine_unbroken (by decide) tnpBind, quotedLine_unbroken (by decide) flightBind,
    plainLine_unbroken (by decide) (IsWord.boolText _), plain _ (by decide) (by decide),
    plain _ (by decide) (by decide), plainLine_unbroken (by decide) (IsWord.decimal _),
    fun _ member => absurd member List.not_mem_nil⟩

/-- An assignment writes its value into one of the texts or leaves them all. -/
theorem assign_keeps (unbroken : ∀ text ∈ config.texts, text.Unbroken) (whole : value.Unbroken)
    (assigned : config.assign lineNum key value = .ok config') : ∀ text ∈ config'.texts, text.Unbroken := by
  have stored : ∀ changed : DaemonConfig, (∀ text ∈ changed.texts, text = value ∨ text ∈ config.texts) →
      (Except.ok changed : Except ConfigError DaemonConfig) = .ok config' → ∀ text ∈ config'.texts, text.Unbroken := by
    intro changed origin same text member
    rw [← Except.ok.inj same] at member
    rcases origin text member with rfl | before
    · exact whole
    · exact unbroken text before
  have kept : ∀ changed : DaemonConfig, changed.texts = config.texts →
      (Except.ok changed : Except ConfigError DaemonConfig) = .ok config' → ∀ text ∈ config'.texts, text.Unbroken :=
    fun changed same => stored changed fun text member => Or.inr (same ▸ member)
  have token : (if value = [] then none else some value).getD [] = value := by
    split
    · next empty => rw [empty]; rfl
    · rfl
  have either : ∀ {condition : Prop} [Decidable condition] {first second : Except ConfigError DaemonConfig},
      (first = .ok config' → ∀ text ∈ config'.texts, text.Unbroken) →
        (second = .ok config' → ∀ text ∈ config'.texts, text.Unbroken) →
          (if condition then first else second) = .ok config' → ∀ text ∈ config'.texts, text.Unbroken := by
    intro condition _ first second left right chosen
    split at chosen
    · exact left chosen
    · exact right chosen
  revert assigned
  unfold assign
  refine either (stored _ (by simp [texts])) (either (stored _ (by simp [texts])) (either
    (stored _ (by simp [texts, token])) (either (stored _ (by simp [texts])) (either (stored _ (by simp [texts]))
      (either (stored _ (by simp [texts])) (either (stored _ (by simp [texts])) (either ?_ (either ?_ (either ?_
        (either ?_ (kept _ rfl)))))))))))
  · intro assigned
    split at assigned
    · refine stored _ ?_ assigned
      exact fun text member => Or.inr member
    · contradiction
  · intro assigned
    obtain ⟨secs, -, assigned⟩ := Except.bind_eq_ok.mp assigned
    refine stored _ ?_ assigned
    exact fun text member => Or.inr member
  · intro assigned
    obtain ⟨id, -, assigned⟩ := Except.bind_eq_ok.mp assigned
    refine stored _ ?_ assigned
    exact fun text member => Or.inr member
  · intro assigned
    obtain ⟨epoch, -, assigned⟩ := Except.bind_eq_ok.mp assigned
    refine stored _ ?_ assigned
    exact fun text member => Or.inr member

theorem unquote_sublist (value : Text) : (unquote value).Sublist value :=
  (Text.trimMatches_sublist _ _).trans (Text.trimMatches_sublist _ _)

theorem parseLine_keeps (unbroken : ∀ text ∈ config.texts, text.Unbroken) (whole : line.Unbroken)
    (parsed : config.parseLine lineNum line = .ok config') : ∀ text ∈ config'.texts, text.Unbroken := by
  unfold parseLine at parsed
  dsimp only at parsed
  split at parsed
  · rwa [← Except.ok.inj parsed]
  · split at parsed
    · next key value cut =>
        have part := (unquote_sublist value.trim).trans ((Text.trim_sublist value).trans
          ((Text.splitOnce_sublist cut).trans (Text.trim_sublist line)))
        exact assign_keeps unbroken (whole.sublist part) parsed
    · contradiction

theorem parseLines_keeps {lines : List Text} (unbroken : ∀ text ∈ config.texts, text.Unbroken)
    (whole : ∀ line ∈ lines, line.Unbroken) (parsed : parseLines lineNum config lines = .ok config') :
    ∀ text ∈ config'.texts, text.Unbroken := by
  induction lines generalizing lineNum config with
  | nil => rwa [← Except.ok.inj parsed]
  | cons line lines hypothesis =>
      obtain ⟨first, others⟩ := List.forall_mem_cons.mp whole
      rw [parseLines, Except.bind_eq_ok] at parsed
      obtain ⟨middle, head, tail⟩ := parsed
      exact hypothesis (parseLine_keeps unbroken first head) others tail

/-- No text that was read has a line break. -/
theorem parseToml_keeps {content : Text} (parsed : parseToml content = .ok config) :
    ∀ text ∈ config.texts, text.Unbroken := by
  refine parseLines_keeps ?_ (fun line member => Text.unbroken_of_mem_lines member) parsed
  simp only [texts, List.forall_mem_cons]
  exact ⟨Text.unbroken_of_all (by decide), Text.unbroken_of_all (by decide), Text.unbroken_of_all (by decide),
    Text.unbroken_of_all (by decide), Text.unbroken_of_all (by decide), Text.unbroken_of_all (by decide),
    Text.unbroken_of_all (by decide), fun _ member => absurd member List.not_mem_nil⟩

/-- No quote stands at an end of the text. -/
def Unquoted (text : Text) : Prop :=
  ∀ quote ∈ ['"', '\''], text.head? ≠ some quote ∧ text.getLast? ≠ some quote

theorem unquote_eq_self : unquote value = value ↔ Unquoted value := by
  have both : Unquoted value ↔ (value.head? ≠ some '"' ∧ value.getLast? ≠ some '"') ∧
      value.head? ≠ some '\'' ∧ value.getLast? ≠ some '\'' := by
    simp only [Unquoted, List.forall_mem_cons, List.not_mem_nil, false_implies, implies_true, and_true]
  rw [both, ← Text.trimMatches_eq_self, ← Text.trimMatches_eq_self]
  constructor
  · intro same
    have shorter := (Text.trimMatches_sublist '\'' (value.trimMatches '"')).length_le
    change (unquote value).length ≤ _ at shorter
    rw [same] at shorter
    have outer := (Text.trimMatches_sublist '"' value).eq_of_length_le shorter
    rw [unquote, outer] at same
    exact ⟨outer, same⟩
  · rintro ⟨outer, inner⟩
    rw [unquote, outer, inner]

/-- Every text is written as it is read. -/
def Survives (config : DaemonConfig) : Prop := ∀ text ∈ config.texts, text.Unbroken ∧ Unquoted text

/-- Nothing but quotes at the ends of texts is lost. -/
theorem settled_eq_self (present : config.authToken ≠ some []) :
    config.settled = config ↔ ∀ text ∈ config.texts, Unquoted text := by
  have token : (if unquote (config.authToken.getD []) = [] then none
      else some (unquote (config.authToken.getD []))) = config.authToken ↔
        unquote (config.authToken.getD []) = config.authToken.getD [] := by
    cases given : config.authToken with
    | none => exact iff_of_true rfl rfl
    | some secret =>
        have some' : secret ≠ [] := fun empty => present (empty ▸ given)
        rw [Option.getD_some]
        constructor
        · intro same
          split at same
          · exact absurd same (Option.some_ne_none secret).symm
          · exact Option.some.inj same
        · intro same
          rw [same, if_neg some']
  have fields : config.settled = config ↔ unquote config.databaseName = config.databaseName ∧
      unquote config.adminUser = config.adminUser ∧
        unquote (config.authToken.getD []) = config.authToken.getD [] ∧ unquote config.dataDir = config.dataDir ∧
          unquote config.serverId = config.serverId ∧ unquote config.tnpBind = config.tnpBind ∧
            unquote config.flightBind = config.flightBind := by
    rw [← token]
    cases config
    simp only [settled, DaemonConfig.mk.injEq, and_true]
  rw [fields]
  simp only [texts, List.forall_mem_cons, unquote_eq_self, List.not_mem_nil, false_implies, implies_true, and_true]

/-- A configuration comes back exactly when no text has a line break or a quote at an end. -/
theorem parseToml_toTomlString_iff (present : config.authToken ≠ some []) :
    parseToml config.toTomlString = .ok config ↔ config.Survives := by
  constructor
  · intro parsed
    have unbroken := parseToml_keeps parsed
    rw [parseToml_unbroken unbroken] at parsed
    have unquoted := (settled_eq_self present).mp (Except.ok.inj parsed)
    exact fun text member => ⟨unbroken text member, unquoted text member⟩
  · intro survives
    rw [parseToml_unbroken fun text member => (survives text member).1]
    exact congrArg _ ((settled_eq_self present).mpr fun text member => (survives text member).2)

end RoundTrip

/-- The server identifier ends its line and writes one more for the token. -/
def smuggling : DaemonConfig :=
  { default with authToken := some "secret".toList, serverId := "s\"\nauth_token = \"".toList }

/-- The token is lost by the value of another field. -/
theorem serverId_clears_authToken : ¬∀ config : DaemonConfig, config.authToken ≠ some [] →
    parseToml config.toTomlString = .ok config := by
  intro survives
  have changed : parseToml smuggling.toTomlString = .ok { smuggling with authToken := none, serverId := ['s'] } := by
    decide +kernel
  have same := survives smuggling (by decide)
  rw [changed] at same
  exact absurd (congrArg authToken (Except.ok.inj same)) (by decide)

theorem parseToml_toTomlString_iff_sample :
    parseToml default.toTomlString = .ok default ↔ default.Survives :=
  parseToml_toTomlString_iff (by decide)

end DaemonConfig

end Temnion.Daemon
