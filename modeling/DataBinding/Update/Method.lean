import DataBinding.Sharing
import DataBinding.Update.Selection

/-!
# Update methods

An update method declares local variables, assigns bindings, calls the methods of sources and properties
and subscribes to sources. All expressions of a method share the local variables.
-/
namespace DataBinding

structure Assignment where
  binding : Nat
  expr : Expr
  deriving Repr

/-- A source and how a method computes its owner. -/
structure SourceView where
  source : Nat
  expr : Expr
  deriving Repr

structure PropertyView where
  source : Nat
  property : Nat
  expr : Expr
  deriving Repr

structure UpdateMethod where
  /-- The variable for the value that the method receives. -/
  parameter : Option Expr
  locals : List Local
  assignments : List Assignment
  sourceCalls : List SourceView
  propertyCalls : List PropertyView
  subscriptions : List SourceView
  deriving Repr

namespace UpdateMethod

def parameterFor (replaced : Expr) : Expr := .var "value" replaced.type

/-- Puts the parameter in the place of the expression whose value the method receives. -/
def received (replaced : Option Expr) (e : Expr) : Expr :=
  match replaced with
  | some old => Expr.replace old (parameterFor old) e
  | none => e

def assigned (bs : List Binding) (s : Selection) : List (Nat × Expr) :=
  s.bindings.filterMap fun i => (bs[i]?.bind (·.value)).map fun e => (i, e)

def owners (s : Selection) : List Expr :=
  s.sources.map (·.owner) ++ s.properties.map (·.source.owner) ++ s.subscribed.map (·.owner)

def ofSelection (bs : List Binding) (replaced : Option Expr) (s : Selection) : UpdateMethod :=
  let assigned := assigned bs s
  let shared := Sharing.ofExprs ((assigned.map (·.2) ++ owners s).map (received replaced))
  let sourceExprs := shared.exprs.drop assigned.length
  let propertyExprs := sourceExprs.drop s.sources.length
  let subscribedExprs := propertyExprs.drop s.properties.length
  { parameter := replaced.map parameterFor
    locals := shared.locals
    assignments := (assigned.zip shared.exprs).map fun (a, e) => ⟨a.1, e⟩
    sourceCalls := (s.sources.zip sourceExprs).map fun (source, e) => ⟨source.index, e⟩
    propertyCalls := (s.properties.zip propertyExprs).map fun (p, e) =>
      ⟨p.source.index, p.position, e⟩
    subscriptions := (s.subscribed.zip subscribedExprs).map fun (source, e) => ⟨source.index, e⟩ }

/-- The method for a task, and the bindings that it assigns itself. -/
def ofRefresh (r : Registry) (bs : List Binding) (all : List Source) (f : Refresh) :
    UpdateMethod × List Nat :=
  let s := Selection.ofRefresh r all f
  (ofSelection bs f.replaced s, s.bindings)

end UpdateMethod
end DataBinding
