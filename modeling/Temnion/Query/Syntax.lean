import Temnion.Query.Expression

/-
This file reads scalar expressions: the tokens of a text and the recursive descent over them.
-/

namespace Temnion.Query

variable [Binary64]

inductive ExprToken where
  | ident (name : Text)
  | int (value : Int64)
  | float (value : Binary64.Carrier)
  | stringLit (value : Text)
  | bool (value : Bool)
  | op (op : BinaryOp)
  | not
  | lparen
  | rparen
  deriving DecidableEq

/-- The numbers that a query may contain. -/
inductive NumberPlace where
  | shard
  | slot
  | generation
  | source
  | epoch
  | sequence
  | rangeStart
  | rangeEnd
  | knownAsOf
  | limit
  | depth
  | compactDepth
  | compactKnownTime
  | compactLimit
  | validTimeStart
  | validTimeEnd
  | knownTimeCutoff
  | sqlLimit
  deriving DecidableEq, Repr

/-- Every reason for which a query text is refused. -/
inductive ParseError where
  | emptyExpression
  | trailingToken (position : Nat) (token : ExprToken)
  | unterminatedString
  | invalidFloat
  | invalidInteger (error : Text.NumberError)
  | unexpectedCharacter (character : Char)
  | endOfExpression
  | missingParenthesis
  | unexpectedToken (token : ExprToken)
  | emptyInput
  | emptyCompact
  | emptySql
  | invalidNumber (place : NumberPlace) (error : Text.NumberError)
  | entityFormat (text : Text)
  | eventFormat (text : Text)
  | rangeSyntax (text : Text)
  | unrecognizedClause (line : Text)
  | causalSyntax (text : Text)
  | causalDirection (word : Text)
  | causalToken (word : Text)
  | sqlSelect
  | sqlFrom
  | sqlOrder
  deriving DecidableEq

section Tokens

variable [Unicode]

/-- The digits from here on, with at most one dot among them. -/
def takeNumber : Bool → Text → Text × Bool
  | hasDot, [] => ([], hasDot)
  | hasDot, character :: rest =>
      if character.isDigit then
        let number := takeNumber hasDot rest
        (character :: number.1, number.2)
      else if character = '.' ∧ hasDot = false then
        let number := takeNumber true rest
        (character :: number.1, number.2)
      else ([], hasDot)

def numberToken (digits : Text) (hasDot : Bool) : Except ParseError ExprToken :=
  if hasDot then
    match Binary64.parse digits with
    | some value => .ok (.float value)
    | none => .error .invalidFloat
  else
    match Text.parseUnsigned (2 ^ 63) digits with
    | .ok value => .ok (.int (Int64.ofNat value))
    | .error error => .error (.invalidInteger error)

def isWordStart (character : Char) : Bool := Unicode.isAlphabetic character || character == '_'

def isWordChar (character : Char) : Bool :=
  Unicode.isAlphanumeric character || character == '_' || character == '.'

/-- The keywords are recognized in any case. -/
def wordToken (word : Text) : ExprToken :=
  let lower := Unicode.toLowercase word
  if lower = "true".toList then .bool true
  else if lower = "false".toList then .bool false
  else if lower = "not".toList then .not
  else if lower = "and".toList then .op .and
  else if lower = "or".toList then .op .or
  else .ident word

/-- The token that starts with a character, and how many of the characters behind it belong to it. White space gives
no token. -/
def nextToken (character : Char) (rest : Text) : Except ParseError (Option ExprToken × Nat) :=
  if Text.isWhitespace character then .ok (none, 0)
  else if character = '(' then .ok (some .lparen, 0)
  else if character = ')' then .ok (some .rparen, 0)
  else if character = '!' then
    if rest.head? = some '=' then .ok (some (.op .notEq), 1) else .ok (some .not, 0)
  else if character = '=' then
    if rest.head? = some '=' then .ok (some (.op .eq), 1) else .ok (some (.op .eq), 0)
  else if character = '<' then
    if rest.head? = some '=' then .ok (some (.op .lte), 1)
    else if rest.head? = some '>' then .ok (some (.op .notEq), 1)
    else .ok (some (.op .lt), 0)
  else if character = '>' then
    if rest.head? = some '=' then .ok (some (.op .gte), 1) else .ok (some (.op .gt), 0)
  else if character = '&' ∧ rest.head? = some '&' then .ok (some (.op .and), 1)
  else if character = '|' ∧ rest.head? = some '|' then .ok (some (.op .or), 1)
  else if character = '\'' ∨ character = '"' then
    let inside := rest.takeWhile (· ≠ character)
    if inside.length < rest.length then .ok (some (.stringLit inside), inside.length + 1)
    else .error .unterminatedString
  else if character.isDigit then
    let number := takeNumber false rest
    match numberToken (character :: number.1) number.2 with
    | .ok token => .ok (some token, number.1.length)
    | .error error => .error error
  else if isWordStart character then
    let word := rest.takeWhile isWordChar
    .ok (some (wordToken (character :: word)), word.length)
  else .error (.unexpectedCharacter character)

/-- The tokens of a text whose first characters belong to the token before. -/
def tokensFrom : Nat → Text → Except ParseError (List ExprToken)
  | _, [] => .ok []
  | skipped + 1, _ :: rest => tokensFrom skipped rest
  | 0, character :: rest => do
      let (token, consumed) ← nextToken character rest
      let tokens ← tokensFrom consumed rest
      return token.toList ++ tokens

def tokenizeExpr (input : Text) : Except ParseError (List ExprToken) := tokensFrom 0 input

end Tokens

/-- Reads an expression from the front of the tokens and returns the tokens behind it. -/
abbrev Parser := List ExprToken → Except ParseError (Expr × List ExprToken)

/-- The argument reads what stands between parentheses. -/
def parsePrimaryExpr (nested : Parser) : Parser
  | [] => .error .endOfExpression
  | .lparen :: rest => do
      let (expr, after) ← nested rest
      match after with
      | .rparen :: more => .ok (expr, more)
      | _ => .error .missingParenthesis
  | .bool value :: rest => .ok (.literal (.bool value), rest)
  | .int value :: rest => .ok (.literal (.int value), rest)
  | .float value :: rest => .ok (.literal (.float value), rest)
  | .stringLit value :: rest => .ok (.literal (.string value), rest)
  | .ident name :: rest => .ok (.field name, rest)
  | token :: _ => .error (.unexpectedToken token)

def parseUnaryExpr (nested : Parser) : Parser
  | .not :: rest => do
      let (inner, after) ← parseUnaryExpr nested rest
      return (.not inner, after)
  | tokens => parsePrimaryExpr nested tokens

def parseCmpExpr (nested : Parser) : Parser := fun tokens => do
  let (left, after) ← parseUnaryExpr nested tokens
  match after with
  | .op op :: rest =>
      if op ≠ .and ∧ op ≠ .or then
        let (right, last) ← parseUnaryExpr nested rest
        return (.binary op left right, last)
      else return (left, after)
  | _ => return (left, after)

/-- Goes on while the operator follows. Every round takes a token. -/
def chain (op : BinaryOp) (operand : Parser) : Nat → Expr → Parser
  | 0, left, tokens => .ok (left, tokens)
  | _ + 1, left, [] => .ok (left, [])
  | steps + 1, left, token :: rest =>
      if token = .op op then do
        let (right, after) ← operand rest
        chain op operand steps (.binary op left right) after
      else .ok (left, token :: rest)

def parseChain (op : BinaryOp) (operand : Parser) : Parser := fun tokens => do
  let (left, after) ← operand tokens
  chain op operand after.length left after

def parseAndExpr (nested : Parser) : Parser := parseChain .and (parseCmpExpr nested)

/-- The depth bounds the nesting of parentheses. Without any depth there are no tokens left to read. -/
def parseOrExpr : Nat → Parser
  | 0 => fun _ => .error .endOfExpression
  | depth + 1 => parseChain .or (parseAndExpr (parseOrExpr depth))

/-- Reads an expression that takes all the tokens. -/
def parseTokens (tokens : List ExprToken) : Except ParseError Expr := do
  if tokens = [] then throw .emptyExpression
  let (expr, after) ← parseOrExpr tokens.length tokens
  match after with
  | [] => return expr
  | token :: rest => throw (.trailingToken (tokens.length - (token :: rest).length) token)

def parseExpr [Unicode] (input : Text) : Except ParseError Expr := do
  let tokens ← tokenizeExpr input
  parseTokens tokens

end Temnion.Query
