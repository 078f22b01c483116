import DataBinding.Binding.Basic
import DataBinding.Distinct
import DataBinding.Expr.Tree
import DataBinding.Observation.Notification
import DataBinding.Sorted

/-!
# Sources of change

The accesses in the values of observed bindings that may tell of changes are gathered by their owners
into sources, and within a source by what is accessed. Sources are numbered in the order of the keys of
their owners.
-/
namespace DataBinding

/-- An access in the value of an observed binding that may tell of changes. -/
structure Observation where
  binding : Nat
  access : Expr
  owner : Expr
  member : Member
  notification : Notification
  deriving Repr

/-- What is observed of an owner: a member by its name, or the elements together. -/
structure Slot where
  isIndexer : Bool
  name : String
  deriving DecidableEq, Repr

def Slot.names (s : Slot) : List String := if s.isIndexer then [s.name, "Item[]"] else [s.name]

def Observation.slot (o : Observation) : Slot :=
  if o.access.isElementAccess then ⟨true, "Item"⟩ else ⟨false, o.member.name⟩

structure ObservedProperty where
  slot : Slot
  member : Member
  access : Expr
  bindings : List Nat
  /-- Those of the bindings that a change assigns without the help of dependent sources. -/
  assigned : List Nat
  /-- The sources that a change replaces. -/
  dependents : List Nat := []
  deriving Repr

structure Source where
  index : Nat
  owner : Expr
  properties : List ObservedProperty
  /-- Has the owner to be asked at run time whether it tells of changes? -/
  isTentative : Bool
  deriving Repr

def Binding.isObserved (b : Binding) : Bool := b.site.event.isNone && b.mode.observesSource

namespace Observation

variable (r : Registry) (dependencyType : Option TypeRef)

def ofNode? (binding : Nat) (e : Expr) : Option Observation := do
  let (owner, member, _) ← e.access?
  let notification ← Notification.ofExpr? r dependencyType e
  if notification = .never then none else some ⟨binding, e, owner, member, notification⟩

def ofBinding (number : Nat) (b : Binding) : List Observation :=
  match b.value with
  | some e => if b.isObserved then e.nodes.filterMap (ofNode? r dependencyType number) else []
  | none => []

def all (bs : List Binding) : List Observation :=
  bs.zipIdx.flatMap fun (b, i) => ofBinding r dependencyType i b

end Observation

def ObservedProperty.ofGroup? (slot : Slot) (os : List Observation) : Option ObservedProperty :=
  os.head?.map fun first =>
    -- the first access stands for all that the property gathers
    let bindings := distinct (os.map (·.binding))
    { slot, member := first.member, access := first.access, bindings, assigned := bindings }

namespace Source

def ofGroup? (index : Nat) (os : List Observation) : Option Source :=
  os.head?.map fun first => {
    index
    owner := first.owner
    properties := (groupsBy (·.slot) os).filterMap fun (slot, group) =>
      ObservedProperty.ofGroup? slot group
    isTentative := os.any (·.notification == .possible) }

def groups (os : List Observation) : List (String × List (String × Observation)) :=
  sortBy (fun a b => decide (a.1 ≤ b.1)) (groupsBy Prod.fst (os.map fun o => (o.owner.key, o)))

def ofObservations (os : List Observation) : List Source :=
  (groups os).zipIdx.filterMap fun ((_, group), index) => ofGroup? index (group.map (·.2))

/-- The sources of the bindings, as long as nothing depends on them. -/
def ofBindings (r : Registry) (dependencyType : Option TypeRef) (bs : List Binding) : List Source :=
  ofObservations (Observation.all r dependencyType bs)

def bindings (s : Source) : List Nat := distinct (s.properties.flatMap (·.bindings))

end Source
end DataBinding
