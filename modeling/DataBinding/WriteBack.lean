import DataBinding.Binding.Basic
import DataBinding.Distinct

/-!
# Writing back

Bindings that write back are gathered into handlers. A handler belongs to an object and to the name of
an event, or of a dependency property where a binding gives no events.
-/
namespace DataBinding

inductive Trigger where
  | events (events : List Event)
  | property (member : Member)
  deriving Repr

structure WriteBack where
  index : Nat
  object : TargetObject
  bindings : List Nat
  trigger : Trigger
  deriving Repr

namespace WriteBack

structure Occasion (α : Type) where
  binding : Nat
  object : TargetObject
  trigger : α

def eventOccasions (bs : List Binding) : List (Occasion Event) :=
  bs.zipIdx.flatMap fun (b, i) =>
    if b.mode.writesBack then b.events.map fun e => ⟨i, b.site.object, e⟩ else []

/-- The dependency properties of bindings that write back without events. -/
def propertyOccasions (bs : List Binding) : List (Occasion Member) :=
  bs.zipIdx.filterMap fun (b, i) =>
    if b.mode.writesBack && b.events.isEmpty then
      b.dependencyProperty.map fun m => ⟨i, b.site.object, m⟩
    else none

/-- The occasions by the names of object and trigger. -/
def grouped {α : Type} (name : α → String) (os : List (Occasion α)) : List (List (Occasion α)) :=
  (groupsBy (fun o => (o.object.name, name o.trigger)) os).map (·.2)

def bindingsOf {α : Type} (os : List (Occasion α)) : List Nat := distinct (os.map (·.binding))

def forEvents (bs : List Binding) : List WriteBack :=
  (grouped (·.name) (eventOccasions bs)).filterMap fun os =>
    os.head?.map fun first =>
      ⟨0, first.object, bindingsOf os, .events (distinct (os.map (·.trigger)))⟩

def forProperties (bs : List Binding) : List WriteBack :=
  (grouped (·.name) (propertyOccasions bs)).filterMap fun os =>
    os.head?.map fun first => ⟨0, first.object, bindingsOf os, .property first.trigger⟩

/-- The handlers of a scope, numbered from zero; those for events come first. -/
def ofBindings (bs : List Binding) : List WriteBack :=
  (forEvents bs ++ forProperties bs).zipIdx.map fun (w, index) => { w with index }

end WriteBack
end DataBinding
