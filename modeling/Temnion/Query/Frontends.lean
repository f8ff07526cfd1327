import Temnion.Query.Boundary
import Temnion.Query.Plan

/-
This file reads queries in the languages TemQL and compact Tem.
-/

namespace Temnion.Query

variable [Binary64]

section Parts

def readNumber (bound : Nat) (place : NumberPlace) (text : Text) : Except ParseError Nat :=
  (Text.parseUnsigned bound text).mapError (.invalidNumber place)

def readTick (place : NumberPlace) (text : Text) : Except ParseError Timestamp := do
  let ticks ← readNumber (2 ^ 64) place text
  return ⟨1, UInt64.ofNat ticks⟩

/-- A single number is the slot of the first generation in the first shard. -/
def parseEntityId (text : Text) : Except ParseError EntityId :=
  match Text.splitAll ":".toList (Text.trim ((Text.stripPrefix text "#".toList).getD text)) with
  | [shard, slot, generation] => do
      let shard ← readNumber (2 ^ 32) .shard shard
      let slot ← readNumber (2 ^ 32) .slot slot
      let generation ← readNumber (2 ^ 32) .generation generation
      return ⟨UInt32.ofNat shard, UInt32.ofNat slot, UInt32.ofNat generation⟩
  | [slot] => do
      let slot ← readNumber (2 ^ 32) .slot slot
      return ⟨0, UInt32.ofNat slot, 1⟩
  | _ => .error (.entityFormat text)

def parseEventId (text : Text) : Except ParseError EventId :=
  match Text.splitAll ":".toList (Text.trim ((Text.stripPrefix text "$".toList).getD text)) with
  | [source, epoch, sequence] => do
      let source ← readNumber (2 ^ 32) .source source
      let epoch ← readNumber (2 ^ 64) .epoch epoch
      let sequence ← readNumber (2 ^ 64) .sequence sequence
      return ⟨UInt32.ofNat source, UInt64.ofNat epoch, UInt64.ofNat sequence⟩
  | _ => .error (.eventFormat text)

def parseRange (text : Text) : Except ParseError TimestampRange :=
  match Text.splitAll "..".toList text with
  | [start, stop] => do
      let start ← readTick .rangeStart (Text.trim start)
      let stop ← readTick .rangeEnd (Text.trim stop)
      return ⟨start, stop⟩
  | _ => .error (.rangeSyntax text)

/-- The names between commas, when there are any. -/
def listedFields (text : Text) : Option (List Text) :=
  let fields := ((Text.splitAll ",".toList text).map Text.trim).filter (· ≠ [])
  if fields = [] then none else some fields

/-- A scan of everything. -/
def Scan.unrestricted : Scan := ⟨none, none, none, none, none, none, none⟩

end Parts

section Temql

/-- The options of a causal query come in pairs of a word and a number. -/
def causalOptions : List Text → Option Nat → Option Nat → Except ParseError (Option Nat × Option Nat)
  | [], maxDepth, limit => .ok (maxDepth, limit)
  | [word], _, _ => .error (.causalToken word)
  | word :: value :: rest, maxDepth, limit =>
      if word = "DEPTH".toList then do
        let depth ← readNumber (2 ^ 64) .depth value
        causalOptions rest (some depth) limit
      else if word = "LIMIT".toList then do
        let limit ← readNumber (2 ^ 64) .limit value
        causalOptions rest maxDepth (some limit)
      else .error (.causalToken word)

def parseTemqlCausal (input : Text) : Except ParseError LogicalPlan :=
  match Text.splitWhitespace input with
  | event :: id :: trace :: direction :: rest =>
      if event ≠ "EVENT".toList ∨ trace ≠ "TRACE".toList then .error (.causalSyntax input)
      else do
        let origin ← parseEventId id
        let direction ←
          if direction = "CAUSES".toList then pure CausalDirection.causes
          else if direction = "EFFECTS".toList then pure CausalDirection.effects
          else .error (.causalDirection direction)
        let (maxDepth, limit) ← causalOptions rest none none
        return .causalTrace ⟨origin, direction, maxDepth, limit⟩
  | _ => .error (.causalSyntax input)

variable [Unicode]

/-- A later clause of the same kind replaces an earlier one. -/
def readClause (scan : Scan) (line : Text) : Except ParseError Scan :=
  if Text.startsWith line "FROM".toList then .ok scan
  else if let some rest := Text.stripPrefix line "ENTITY ".toList then do
    let entity ← parseEntityId (Text.trim rest)
    return { scan with entity := some entity }
  else if let some rest := Text.stripPrefix line "TIME valid ".toList then do
    let range ← parseRange (Text.trim rest)
    return { scan with validRange := some range }
  else if let some rest := Text.stripPrefix line "KNOWN_AS_OF ".toList then do
    let cutoff ← readTick .knownAsOf (Text.trim rest)
    return { scan with knownAsOf := some cutoff }
  else if let some rest := Text.stripPrefix line "WHERE ".toList then do
    let filter ← parseExpr (Text.trim rest)
    return { scan with filter := some filter }
  else if let some rest := Text.stripPrefix line "SELECT ".toList then
    .ok { scan with projection := (listedFields rest).or scan.projection }
  else if let some rest := Text.stripPrefix line "LIMIT ".toList then do
    let limit ← readNumber (2 ^ 64) .limit (Text.trim rest)
    return { scan with limit := some limit }
  else .error (.unrecognizedClause line)

def temqlLines (text : Text) : List Text := ((Text.splitAll "\n".toList text).map Text.trim).filter (· ≠ [])

def parseTemql (input : Text) : Except ParseError LogicalPlan :=
  let trimmed := Text.trim input
  if trimmed = [] then .error .emptyInput
  else if Text.startsWith trimmed "EVENT".toList then parseTemqlCausal trimmed
  else do
    let scan ← (temqlLines trimmed).foldlM readClause Scan.unrestricted
    return .scan scan

end Temql

section Compact

def compactTrace (direction : CausalDirection) (parts : Text × Text) : Except ParseError LogicalPlan := do
  let origin ← parseEventId (Text.trim parts.1)
  let depth ← readNumber (2 ^ 64) .compactDepth (Text.trim parts.2)
  return .causalTrace ⟨origin, direction, some depth, none⟩

/-- The part before the first of the marks, and the rest from it on. -/
def beforeMark (marks text : Text) : Text × Text :=
  (text.takeWhile (fun character => !marks.contains character), text.dropWhile fun character => !marks.contains character)

def compactEntity (scan : Scan) (text : Text) : Except ParseError (Scan × Text) :=
  match Text.stripPrefix text "#".toList with
  | none => .ok (scan, text)
  | some rest => do
      let (part, after) := beforeMark "@?>!".toList rest
      let entity ← parseEntityId part
      return ({ scan with entity := some entity }, after)

def compactRange (scan : Scan) (text : Text) : Except ParseError (Scan × Text) :=
  match Text.stripPrefix text "@v".toList with
  | none => .ok (scan, text)
  | some rest => do
      let (part, after) := beforeMark "@?>!".toList rest
      let range ← parseRange part
      return ({ scan with validRange := some range }, after)

def compactKnown (scan : Scan) (text : Text) : Except ParseError (Scan × Text) :=
  match Text.stripPrefix text "@k".toList with
  | none => .ok (scan, text)
  | some rest => do
      let (part, after) := beforeMark "?>!".toList rest
      let cutoff ← readTick .compactKnownTime part
      return ({ scan with knownAsOf := some cutoff }, after)

/-- The limit stands behind the first exclamation mark. -/
def compactLimit (scan : Scan) (text : Text) : Except ParseError (Scan × Text) :=
  match Text.splitOnce "!".toList text with
  | none => .ok (scan, text)
  | some (front, number) => do
      let limit ← readNumber (2 ^ 64) .compactLimit (Text.trim number)
      return ({ scan with limit := some limit }, front)

variable [Unicode]

/-- The parts around the last `>` that a letter or an underscore follows. -/
def splitProjection : Text → Option (Text × Text)
  | [] => none
  | character :: rest =>
      match splitProjection rest with
      | some (front, fields) => some (character :: front, fields)
      | none => if character = '>' ∧ rest.head?.any isWordStart then some ([], rest) else none

def compactFilter (scan : Scan) (text : Text) : Except ParseError Scan :=
  match splitProjection text with
  | some (front, fields) => do
      let filter ← parseExpr front
      return { scan with filter := some filter, projection := listedFields fields }
  | none => do
      let filter ← parseExpr text
      return { scan with filter := some filter }

/-- What no mark introduces is ignored. -/
def compactTail (scan : Scan) (text : Text) : Except ParseError Scan :=
  if let some rest := Text.stripPrefix text "?".toList then do
    let (scan, rest) ← compactLimit scan rest
    compactFilter scan rest
  else if let some rest := Text.stripPrefix text ">".toList then do
    let (scan, rest) ← compactLimit scan rest
    return { scan with projection := listedFields rest }
  else if let some rest := Text.stripPrefix text "!".toList then do
    let limit ← readNumber (2 ^ 64) .compactLimit (Text.trim rest)
    return { scan with limit := some limit }
  else .ok scan

def compactScan (text : Text) : Except ParseError LogicalPlan := do
  let (scan, text) ← compactEntity Scan.unrestricted text
  let (scan, text) ← compactRange scan text
  let (scan, text) ← compactKnown scan text
  let scan ← compactTail scan text
  return .scan scan

def parseCompactTem (input : Text) : Except ParseError LogicalPlan :=
  let raw := Text.trim input
  let text := Text.trim ((Text.stripPrefix raw "tn:".toList).getD raw)
  if text = [] then .error .emptyCompact
  else
    match Text.stripPrefix text "$".toList with
    | none => compactScan text
    | some rest =>
        if let some parts := Text.splitOnce "<-".toList rest then compactTrace .causes parts
        else if let some parts := Text.splitOnce "->".toList rest then compactTrace .effects parts
        else compactScan text

end Compact

end Temnion.Query
