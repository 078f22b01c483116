import DataBinding.Distinct
import DataBinding.Expr.Tree
import DataBinding.Sorted

/-!
# Sharing of common subexpressions

A subexpression that is always evaluated in several places of a list of expressions is computed once, as
the value of a local variable that stands in these places. The most frequent one comes first; among the
equally frequent ones a part comes before what contains it, and then the lesser key. This goes on until
nothing occurs twice.
-/
namespace DataBinding

structure Local where
  name : String
  type : TypeRef
  value : Expr
  deriving Repr

def Local.reference (l : Local) : Expr := .var l.name l.type

def Expr.isTrivial (e : Expr) : Bool :=
  match e.form with
  | .constant _ | .var _ | .typeRef | .default | .typeOf _ | .paren => true
  | .member m _ _ => m.kind == .field || m.kind == .method
  | _ => false

/-- A list of expressions and the variables that they share, in order of declaration. -/
structure Sharing where
  locals : List Local
  exprs : List Expr
  deriving Repr

namespace Sharing

/-- All places of one key that are always evaluated. -/
structure Occurrences where
  key : String
  first : Expr
  count : Nat
  nullable : Bool
  deriving Repr

def occurrences (nodes : List Expr) : List Occurrences :=
  (groupsBy Prod.fst (nodes.map fun e => (e.key, e))).filterMap fun (key, group) =>
    group.head?.map fun (_, first) =>
      { key, first, count := group.length, nullable := group.any (·.2.type.nullable) }

def mostFrequent (os : List Occurrences) : List Occurrences :=
  let top := (os.map (·.count)).foldl max 1
  if top = 1 then [] else os.filter (·.count == top)

def isInnermost (os : List Occurrences) (o : Occurrences) : Bool :=
  os.all fun inner => inner.key == o.key || !o.first.containsKey inner.key

/-- What is to be shared next: of the most frequent, innermost ones the one with the least key. -/
def candidate? (nodes : List Expr) : Option Occurrences :=
  let tied := mostFrequent (occurrences nodes)
  (sortBy (fun a b => decide (a.key ≤ b.key)) (tied.filter (isInnermost tied))).head?

def nodes (s : Sharing) : List Expr :=
  ((s.exprs ++ s.locals.map (·.value)).flatMap Expr.eagerNodes).filter (!·.isTrivial)

/-- Declares a variable before the first one whose value refers to it. -/
def declare (new : Local) : List Local → List Local
  | [] => [new]
  | l :: ls => if l.value.containsKey new.reference.key then new :: l :: ls else l :: declare new ls

def hoist (s : Sharing) (o : Occurrences) : Sharing :=
  let new : Local := {
    name := "value" ++ toString (s.locals.length + 1), type := o.first.type.withNullable o.nullable,
    value := o.first }
  let replaced := Expr.replaceKey o.key new.reference
  { exprs := s.exprs.map replaced
    locals := declare new (s.locals.map fun l => { l with value := replaced l.value }) }

def hoistAll : Nat → Sharing → Sharing
  | 0, s => s
  | bound + 1, s =>
    match candidate? s.nodes with
    | none => s
    | some o => hoistAll bound (s.hoist o)

def ofExprs (exprs : List Expr) : Sharing :=
  let s : Sharing := ⟨[], exprs⟩
  -- every variable takes a node away from those that are worth one
  hoistAll s.nodes.length s

end Sharing
end DataBinding
