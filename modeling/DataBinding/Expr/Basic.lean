import DataBinding.Metadata.TypeDef

/-!
# Typed expressions

An expression is a form, a type and the operands of the form from left to right. The form holds all that
is not an operand, so that walks over expressions need not tell the forms apart.
-/
namespace DataBinding

inductive Constant where
  | null
  | bool (value : Bool)
  /-- A number as it is written, with its suffix. -/
  | number (text : String)
  | string (value : String)
  deriving DecidableEq, Repr

inductive UnaryOp where
  | not
  | negate
  deriving DecidableEq, Repr

inductive BinaryOp where
  | add | sub | mul | mod
  | lt | le | gt | ge
  | eq | ne
  | and | or
  deriving DecidableEq, Repr

namespace BinaryOp

def symbol : BinaryOp → String
  | .add => "+"
  | .sub => "-"
  | .mul => "*"
  | .mod => "%"
  | .lt => "<"
  | .le => "<="
  | .gt => ">"
  | .ge => ">="
  | .eq => "=="
  | .ne => "!="
  | .and => "&&"
  | .or => "||"

def keyword? : BinaryOp → Option String
  | .lt => some "lt"
  | .le => some "le"
  | .gt => some "gt"
  | .ge => some "ge"
  | .eq => some "eq"
  | .ne => some "ne"
  | .and => some "and"
  | .or => some "or"
  | .add | .sub | .mul | .mod => none

def isShortCircuit : BinaryOp → Bool
  | .and | .or => true
  | _ => false

end BinaryOp

/-- Says of an access whether changes are to be observed, whatever the types say. -/
inductive Marker where
  | forced
  | suppressed
  deriving DecidableEq, Repr

/-- What an expression is, apart from its type and its operands. -/
inductive Form where
  | constant (value : Constant)
  | var (name : String)
  | typeRef
  /-- A property or field of the operand; a null-safe access passes null on. -/
  | member (member : Member) (marker : Option Marker) (nullSafe : Bool)
  /-- An element of the first operand, selected by the others. -/
  | element (indexer : Member) (marker : Option Marker)
  /-- A method called on the first operand with the others as arguments. -/
  | call (method : Member) (nullSafe : Bool)
  | cast
  | paren
  | unary (op : UnaryOp)
  | binary (op : BinaryOp)
  /-- Test, value if true, value if false. -/
  | conditional
  | coalesce
  | create
  | typeOf (operand : TypeRef)
  | interpolated (template : String)
  | default
  /-- The first operand or, when it fails, the second. -/
  | fallback (index : Nat)
  deriving Repr

structure Expr where
  form : Form
  type : TypeRef
  operands : List Expr
  deriving Repr

namespace Form

/-- How many of the operands, from the left, are always evaluated. -/
def eagerCount (form : Form) (operands : Nat) : Nat :=
  match form with
  | .binary op => if op.isShortCircuit then 1 else operands
  | .coalesce | .conditional => 1
  | .fallback _ => 0
  | _ => operands

end Form

namespace Expr

def constant (value : Constant) (type : TypeRef) : Expr := ⟨.constant value, type, []⟩

def null : Expr := constant .null .null

def var (name : String) (type : TypeRef) : Expr := ⟨.var name, type, []⟩

def typeRef (type : TypeRef) : Expr := ⟨.typeRef, type, []⟩

def accessType (m : Member) (nullSafe : Bool) : TypeRef :=
  if nullSafe then m.type.withNullable true else m.type

def member (target : Expr) (m : Member) (marker : Option Marker) (nullSafe : Bool) : Expr :=
  ⟨.member m marker nullSafe, accessType m nullSafe, [target]⟩

def element (target : Expr) (indexer : Member) (args : List Expr) (marker : Option Marker) : Expr :=
  ⟨.element indexer marker, indexer.type, target :: args⟩

def call (target : Expr) (method : Member) (args : List Expr) (nullSafe : Bool) : Expr :=
  ⟨.call method nullSafe, accessType method nullSafe, target :: args⟩

def cast (e : Expr) (type : TypeRef) : Expr := ⟨.cast, type, [e]⟩

def paren (e : Expr) : Expr := ⟨.paren, e.type, [e]⟩

def unary (op : UnaryOp) (e : Expr) : Expr := ⟨.unary op, e.type, [e]⟩

def binary (op : BinaryOp) (left right : Expr) (type : TypeRef) : Expr :=
  ⟨.binary op, type, [left, right]⟩

def conditional (test ifTrue ifFalse : Expr) (type : TypeRef) : Expr :=
  ⟨.conditional, type, [test, ifTrue, ifFalse]⟩

def coalesce (left right : Expr) (type : TypeRef) : Expr := ⟨.coalesce, type, [left, right]⟩

def create (type : TypeRef) (args : List Expr) : Expr := ⟨.create, type, args⟩

def typeOf (operand : TypeRef) : Expr := ⟨.typeOf operand, .named WellKnown.type, []⟩

def interpolated (template : String) (args : List Expr) : Expr :=
  ⟨.interpolated template, .string, args⟩

def defaultOf (type : TypeRef) : Expr := ⟨.default, type, []⟩

def fallback (e value : Expr) (index : Nat) : Expr := ⟨.fallback index, e.type, [e, value]⟩

def isTypeRef (e : Expr) : Bool :=
  match e.form with
  | .typeRef => true
  | _ => false

def isElementAccess (e : Expr) : Bool :=
  match e.form with
  | .element _ _ => true
  | _ => false

def isSettable (e : Expr) : Bool :=
  match e.form with
  | .member _ _ _ | .call _ _ | .element _ _ => true
  | _ => false

def access? (e : Expr) : Option (Expr × Member × Option Marker) :=
  match e.form, e.operands with
  | .member m marker _, owner :: _ => some (owner, m, marker)
  | .element m marker, owner :: _ => some (owner, m, marker)
  | _, _ => none

def eagerOperands (e : Expr) : List Expr :=
  e.operands.take (e.form.eagerCount e.operands.length)

def stripped : Expr → Expr
  | ⟨.paren, _, [e]⟩ => e.stripped
  | ⟨.cast, _, [e]⟩ => e.stripped
  | e => e

end Expr
end DataBinding
