import Temnion.Query.Frontends

/-
This file reads queries in SQL.
-/

namespace Temnion.Query

variable [Binary64]

/-- A query is refused, or the program stops at an index that is no boundary of the text. -/
inductive SqlError where
  | refused (error : ParseError)
  | panicked

def refuse {A : Type} (outcome : Except ParseError A) : Except SqlError A := outcome.mapError .refused

def orPanic {A : Type} (value : Option A) : Except SqlError A :=
  match value with
  | some value => .ok value
  | none => .error .panicked

section Slices

def sliceTo (stop : Nat) (text : Text) : Except SqlError Text := orPanic ((Text.splitAtByte stop text).map Prod.fst)

def sliceFrom (start : Nat) (text : Text) : Except SqlError Text := orPanic ((Text.splitAtByte start text).map Prod.snd)

def slice (start stop : Nat) (text : Text) : Except SqlError Text := do
  let front ← sliceTo stop text
  sliceFrom start front

end Slices

section Clauses

/-- The offset of a keyword between blanks or behind a line break. -/
def findKeyword (lower word : Text) : Option Nat :=
  (Text.find lower (' ' :: word ++ [' '])).or (Text.find lower ('\n' :: word ++ [' ']))

structure SqlClauses where
  table : Text
  whereClause : Option Text
  limitClause : Option Text

/-- The offsets are found in the lowercase text and cut the text itself. -/
def sqlClauses (text : Text) (wherePos limitPos : Option Nat) : Except SqlError SqlClauses :=
  match wherePos, limitPos with
  | some place, some limit =>
      if place < limit then do
        let table ← sliceTo place text
        let condition ← slice (place + 7) limit text
        let number ← sliceFrom (limit + 7) text
        return ⟨Text.trim table, some (Text.trim condition), some (Text.trim number)⟩
      else .error (.refused .sqlOrder)
  | some place, none => do
      let table ← sliceTo place text
      let condition ← sliceFrom (place + 7) text
      return ⟨Text.trim table, some (Text.trim condition), none⟩
  | none, some limit => do
      let table ← sliceTo limit text
      let number ← sliceFrom (limit + 7) text
      return ⟨Text.trim table, none, some (Text.trim number)⟩
  | none, none => .ok ⟨Text.trim text, none, none⟩

end Clauses

section Predicates

def isAndWord (text : Text) : Bool := (text.take 4).map Char.toLower == "and ".toList

/-- The pieces between the words `AND` outside of quotes. The arguments are the characters of the current word that
are left, the character before, whether a quote is open, and the piece up to here. -/
def splitAndFrom : Nat → Option Char → Bool → Text → Text → List Text
  | _, _, _, current, [] => if Text.trim current = [] then [] else [Text.trim current]
  | skipped + 1, _, quoted, current, character :: rest => splitAndFrom skipped (some character) quoted current rest
  | 0, previous, quoted, current, character :: rest =>
      if character = '\'' ∨ character = '"' then
        splitAndFrom 0 (some character) (!quoted) (current ++ [character]) rest
      else if quoted = false ∧ isAndWord (character :: rest) ∧ previous.all Text.isWhitespace then
        Text.trim current :: splitAndFrom 3 (some character) quoted [] rest
      else splitAndFrom 0 (some character) quoted (current ++ [character]) rest

def splitSqlAnd (text : Text) : List Text := splitAndFrom 0 none false [] text

/-- What has been read of the predicates. -/
structure SqlPredicates where
  entity : Option EntityId
  validStart : Option Nat
  validEnd : Option Nat
  knownAsOf : Option Timestamp
  filterExprs : List Expr

/-- The predicate begins with the field and the operator, with or without a blank between them. -/
def compares (lower field operator : Text) : Bool :=
  Text.startsWith lower (field ++ ' ' :: operator) || Text.startsWith lower (field ++ operator)

def operandOf (operator predicate : Text) : Except SqlError Text := do
  let parts ← orPanic (Text.splitOnce operator predicate)
  return Text.trim parts.2

def tickOf (operator : Text) (place : NumberPlace) (predicate : Text) : Except SqlError Nat := do
  let operand ← operandOf operator predicate
  refuse (readNumber (2 ^ 64) place operand)

variable [Unicode]

/-- Both strict and weak bounds set the same field. -/
def readPredicate (read : SqlPredicates) (piece : Text) : Except SqlError SqlPredicates :=
  let predicate := Text.trim piece
  let lower := Unicode.toLowercase predicate
  if compares lower "entity".toList "=".toList then do
    let operand ← operandOf "=".toList predicate
    let entity ← refuse (parseEntityId (Text.trimMatches '"' (Text.trimMatches '\'' operand)))
    return { read with entity := some entity }
  else if compares lower "valid_time".toList ">=".toList then do
    let tick ← tickOf ">=".toList .validTimeStart predicate
    return { read with validStart := some tick }
  else if compares lower "valid_time".toList ">".toList then do
    let tick ← tickOf ">".toList .validTimeStart predicate
    return { read with validStart := some tick }
  else if compares lower "valid_time".toList "<=".toList then do
    let tick ← tickOf "<=".toList .validTimeEnd predicate
    return { read with validEnd := some tick }
  else if compares lower "valid_time".toList "<".toList then do
    let tick ← tickOf "<".toList .validTimeEnd predicate
    return { read with validEnd := some tick }
  else if compares lower "known_as_of".toList "=".toList then do
    let tick ← tickOf "=".toList .knownAsOf predicate
    return { read with knownAsOf := some ⟨1, UInt64.ofNat tick⟩ }
  else if compares lower "known_time".toList "<=".toList then do
    let tick ← tickOf "<=".toList .knownTimeCutoff predicate
    return { read with knownAsOf := some ⟨1, UInt64.ofNat tick⟩ }
  else do
    let expr ← refuse (parseExpr predicate)
    return { read with filterExprs := read.filterExprs ++ [expr] }

/-- A range needs both of its ends. -/
def SqlPredicates.validRange (read : SqlPredicates) : Option TimestampRange :=
  match read.validStart, read.validEnd with
  | some start, some stop => some ⟨⟨1, UInt64.ofNat start⟩, ⟨1, UInt64.ofNat stop⟩⟩
  | _, _ => none

def conjoin (exprs : List Expr) : Option Expr :=
  exprs.foldl (fun filter expr =>
    match filter with
    | none => some expr
    | some existing => some (.binary .and existing expr)) none

def parseSql (input : Text) : Except SqlError LogicalPlan := do
  let raw := Text.trim input
  if raw = [] then throw (.refused .emptySql)
  let lower := Unicode.toLowercase raw
  if Text.startsWith lower "select".toList = false then throw (.refused .sqlSelect)
  match findKeyword lower "from".toList with
  | none => throw (.refused .sqlFrom)
  | some fromIdx =>
      let selected ← slice 6 fromIdx raw
      let selectPart := Text.trim selected
      let behind ← sliceFrom (fromIdx + 6) raw
      let afterFrom := Text.trim behind
      let lowerAfter := Unicode.toLowercase afterFrom
      let clauses ← sqlClauses afterFrom (findKeyword lowerAfter "where".toList) (findKeyword lowerAfter "limit".toList)
      let projection := if selectPart = "*".toList then none else listedFields selectPart
      let start : SqlPredicates := ⟨(parseEntityId clauses.table).toOption, none, none, none, []⟩
      let read ← (clauses.whereClause.elim [] splitSqlAnd).foldlM readPredicate start
      let limit ← match clauses.limitClause with
        | none => pure none
        | some number => do
            let limit ← refuse (readNumber (2 ^ 64) .sqlLimit (Text.trim number))
            pure (some limit)
      return .scan {
        entity := read.entity
        schema := none
        validRange := read.validRange
        knownAsOf := read.knownAsOf
        filter := conjoin read.filterExprs
        projection
        limit }

end Predicates

end Temnion.Query
