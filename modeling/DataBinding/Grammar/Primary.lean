import DataBinding.Grammar.Access
import DataBinding.Grammar.TypeName

/-!
# Literals, names and parentheses

A name means a keyword, a member or method of the root, a type, or a member of the expected enumeration,
in this order.
-/
namespace DataBinding.Grammar

/-- The type of a number, as its suffix or a decimal point tells. -/
def numberType (text : String) : TypeRef :=
  match text.toList.getLast? with
  | some 'f' | some 'F' => .named WellKnown.single
  | some 'd' | some 'D' => .named WellKnown.double
  | some 'm' | some 'M' => .named WellKnown.decimal
  | some 'l' | some 'L' => .named WellKnown.int64
  | _ => if text.toList.contains '.' then .named WellKnown.double else .named WellKnown.int32

def literal (e : Expr) : ParseM Expr := do
  advance
  return e

def rootAccess? (s : Setting) (nested : Nested) : ParseM (Option Expr) := do
  let start ← get
  let name := start.token
  advance
  let behind ← current
  if behind.isSymbol "(" then
    if (s.registry.methods s.root.type name.text).isEmpty then
      set start
      return none
    else some <$> callAccess s nested s.root name false
  else if behind.isSymbol ":" && s.namespaces.any (·.label == some name.text) then
    set start
    return none
  else
    match (s.registry.member? s.root.type name.text).filter fun m =>
      m.isStatic || !s.root.isTypeRef with
    | some m =>
      let target := if m.isStatic then .typeRef m.declaringType else s.root
      return some (.member target m none false)
    | none =>
      set start
      return none

/-- The member of the expected enumeration that a bare name means. -/
def enumMember? (s : Setting) (name : String) : Option Expr :=
  s.expected.bind fun expected =>
    if s.registry.isEnum expected then
      ((s.registry.member? expected name).filter (·.isStatic)).map fun m =>
        .member (.typeRef (expected.withNullable false)) m none false
    else none

def reference (s : Setting) (nested : Nested) : ParseM Expr := do
  let name ← current
  match ← rootAccess? s nested with
  | some e => return e
  | none =>
    match ← typeName? s with
    | some type => return .typeRef type
    | none =>
      match enumMember? s name.text with
      | some e => literal e
      | none => throw (name.fault (.noPropertyOrMethod s.root.type name.text))

def named (s : Setting) (nested : Nested) : ParseM Expr := do
  match (← current).text with
  | "null" => literal .null
  | "true" => literal (.constant (.bool true) .boolean)
  | "false" => literal (.constant (.bool false) .boolean)
  | "this" => literal s.root
  | "typeof" =>
    advance
    return .typeOf (← typeOperand s "typeof")
  | "default" =>
    advance
    return .defaultOf (← typeOperand s "default")
  | "new" =>
    advance
    let type ← typeName s
    expect "(" "after type in object creation"
    return .create type (← arguments nested ")")
  | _ => reference s nested

def parenthesized (s : Setting) (nested : Nested) : ParseM Expr := do
  match ← castType? s with
  | some type => return .cast (← nested.operand) type
  | none =>
    advance
    let e ← nested.expression
    expect ")" "to close parenthesized expression"
    return .paren e

def primary (s : Setting) (nested : Nested) : ParseM Expr := do
  let token ← current
  match token.kind with
  | .number => literal (.constant (.number token.text) (numberType token.text))
  | .string =>
    let value := String.ofList (StringLiteral.unescape token.text.toList)
    literal (.constant (.string value) .string)
  | .ident => named s nested
  | .symbol =>
    if token.text = "(" then parenthesized s nested else throw (token.fault .expectedExpression)
  | .eof => throw (token.fault .expectedExpression)

end DataBinding.Grammar
