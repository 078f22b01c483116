import DataBinding.Expr.Typing
import DataBinding.Grammar.Primary

/-!
# Expressions

Operators bind, from the loosest: `? :`, `??`, or, and, equality, comparison, addition, multiplication,
unary operators, accesses. `??` groups to the right, the binary operators to the left. Operators are
typed when both operands have been read. Every reader of nested expressions passes a token first, so the
number of tokens bounds the depth of nesting.
-/
namespace DataBinding.Grammar

def unary (s : Setting) (nested : Nested) : ParseM Expr := do
  let token ← current
  if token.isSymbol "!" || token.isKeyword "not" then
    advance
    let e ← nested.operand
    if e.type.is WellKnown.boolean then return .unary .not e
    else throw (token.fault (.operandRejected "!" e.type))
  else if token.isSymbol "-" then
    advance
    let operand ← current
    if operand.kind = .number then
      -- the sign belongs to the number
      literal (.constant (.number ("-" ++ operand.text)) (numberType operand.text))
    else
      let e ← nested.operand
      if e.type.isNumeric then return .unary .negate e
      else throw (token.fault (.operandRejected "-" e.type))
  else
    let e ← primary s nested
    accesses s nested (← remaining) e

/-- The binary operators from the loosest level to the tightest. -/
def levels : List (List BinaryOp) :=
  [[.or], [.and], [.eq, .ne], [.lt, .le, .gt, .ge], [.add, .sub], [.mul, .mod]]

def spells (token : Token) (op : BinaryOp) : Bool :=
  token.isSymbol op.symbol || op.keyword?.any token.isKeyword

def chain (s : Setting) (ops : List BinaryOp) (operand : ParseM Expr) : Nat → Expr → ParseM Expr
  | 0, left => return left
  | bound + 1, left => do
    let token ← current
    match ops.find? (spells token) with
    | none => return left
    | some op =>
      advance
      let right ← operand
      match op.resultType? s.registry left.type right.type with
      | some type => chain s ops operand bound (.binary op left right type)
      | none => throw (token.fault (.operandsRejected op.symbol left.type right.type))

def binary (s : Setting) (operand : ParseM Expr) : List (List BinaryOp) → ParseM Expr
  | [] => operand
  | ops :: tighter => do
    let left ← binary s operand tighter
    chain s ops (binary s operand tighter) (← remaining) left

def coalesced (s : Setting) (nested : Nested) : ParseM Expr := do
  let left ← binary s (unary s nested) levels
  let token ← current
  if token.isSymbol "??" then
    advance
    let right ← nested.coalesced
    match coalesceType? s.registry left.type right.type with
    | some type => return .coalesce left right type
    | none => throw (token.fault (.operandsRejected "??" left.type right.type))
  else return left

def expression (s : Setting) (nested : Nested) : ParseM Expr := do
  let test ← coalesced s nested
  let token ← current
  if token.isSymbol "?" then
    advance
    let ifTrue ← nested.expression
    expect ":" "in conditional expression"
    let ifFalse ← nested.expression
    if test.type.is WellKnown.boolean then
      match conditionalType? s.registry ifTrue.type ifFalse.type with
      | some type => return .conditional test ifTrue ifFalse type
      | none => throw (token.fault (.noCommonType ifTrue.type ifFalse.type))
    else throw (token.fault (.notBoolean test.type))
  else return test

/-- The readers of expressions that are nested at most so deep. -/
def nestedWithin (s : Setting) : Nat → Nested
  | 0 =>
    let refuse : ParseM Expr := do throw ((← current).fault .expectedExpression)
    ⟨refuse, refuse, refuse⟩
  | depth + 1 =>
    let inner := nestedWithin s depth
    ⟨expression s inner, coalesced s inner, unary s inner⟩

def parse (s : Setting) : ParseM Expr := do
  -- a nested expression begins behind a token
  (nestedWithin s ((← remaining) + 1)).expression

/-- Reads an expression at a cursor. The cursor moves also when there is a fault. -/
def parseAt (s : Setting) (cursor : Cursor) : Except Fault Expr × Cursor :=
  (parse s).run.run cursor

structure Parsed where
  expr : Expr
  namespaces : List MarkupNamespace
  /-- Byte offset of the first token behind the expression. -/
  stop : Nat

/-- Reads an expression from the front of a text, or from the whole of it. Faults count bytes. -/
def parseBytes (s : Setting) (text : List Char) (whole : Bool) : Except Fault Parsed := do
  let cursor ← Cursor.ofText text
  match parseAt s cursor with
  | (.error fault, _) => throw fault
  | (.ok expr, cursor) =>
    if whole && cursor.token.kind ≠ .eof then
      throw (cursor.token.fault (.unexpectedToken cursor.token.text))
    else return ⟨expr, cursor.used, cursor.token.start⟩

def parseText (s : Setting) (text : String) (whole : Bool) : Except Fault Parsed :=
  (parseBytes s text.toList whole).mapError (·.inCharacters text.toList)

end DataBinding.Grammar
