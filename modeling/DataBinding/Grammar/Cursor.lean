import DataBinding.Distinct
import DataBinding.Expr.Basic
import DataBinding.Metadata.Registry
import DataBinding.Token.Lexer

/-!
# Reading tokens

A reader looks at one token at a time and records the namespaces through which it finds types. A fault
keeps the place that was reached, so that reading can go on behind it.
-/
namespace DataBinding.Grammar

structure Setting where
  registry : Registry
  /-- The expression on which bare names are looked up first. -/
  root : Expr
  /-- The type that the context wants; members of an enumeration need not name it. -/
  expected : Option TypeRef
  namespaces : List MarkupNamespace

/-- The root of expressions: a variable, or the type itself when only its static members count. -/
def rootExpr (type : TypeRef) (name : String) (isStatic : Bool) : Expr :=
  if isStatic then .typeRef type else .var name type

structure Cursor where
  token : Token
  rest : TokenStream
  used : List MarkupNamespace

namespace Cursor

def ofText (text : List Char) : Except Fault Cursor :=
  match (Lexer.tokens text).next with
  | (.ok token, rest) => .ok ⟨token, rest, []⟩
  | (.error fault, _) => .error fault

def remaining (c : Cursor) : Nat :=
  if c.token.kind = .eof then c.rest.size else c.rest.size + 1

end Cursor

abbrev ParseM := ExceptT Fault (StateM Cursor)

def current : ParseM Token := return (← get).token

def remaining : ParseM Nat := return (← get).remaining

def advance : ParseM Unit := do
  let c ← get
  match c.rest.next with
  | (.ok token, rest) => set { c with token, rest }
  | (.error fault, rest) => do
    set { c with rest }
    throw fault

def expect (text context : String) : ParseM Unit := do
  let token ← current
  if token.word = text then advance else throw (token.fault (.expected text context))

/-- Finds a type and records the namespace through which it was found. -/
def resolveType (s : Setting) (name : String) : ParseM (Option TypeRef) := do
  match s.registry.findType? s.namespaces name with
  | none => return none
  | some found =>
    modify fun c => { c with used := addAllDistinct c.used found.via.toList }
    return some found.type

end DataBinding.Grammar
