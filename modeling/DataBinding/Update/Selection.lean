import DataBinding.Greedy
import DataBinding.Observation.Dependents

/-!
# Selection of what a method calls

A method that refreshes bindings and subscribes to sources leaves as much as it can to the methods of
sources and properties. It takes the sources with the most bindings first, then the properties with the
most bindings; what remains it does itself.
-/
namespace DataBinding

structure Refresh where
  bindings : List Nat
  /-- The sources to subscribe to. -/
  available : List Source
  /-- The source whose properties the method refreshes, if it is the method of a source. -/
  own : Option Source := none
  /-- The expression whose value the method receives. -/
  replaced : Option Expr := none

structure PropertyRef where
  source : Source
  position : Nat
  property : ObservedProperty

def Source.propertyRefs (s : Source) : List PropertyRef :=
  s.properties.zipIdx.map fun (p, i) => ⟨s, i, p⟩

def Source.hasMethod (r : Registry) (s : Source) : Bool :=
  1 < s.properties.length && Notification.implementsInterface r s.owner.type

structure Selection where
  sources : List Source
  properties : List PropertyRef
  subscribed : List Source
  bindings : List Nat

namespace Selection

variable (r : Registry) (all : List Source)

def sourceCandidates (f : Refresh) : List Source :=
  sortBy (fun a b => decide (b.bindings.length ≤ a.bindings.length))
    (f.available.filter (·.hasMethod r))

/-- The method of a source does the work for all sources in its tree. -/
def chosenSources (f : Refresh) : List Source :=
  greedy (fun a b => (Source.tree all [a.index]).contains b.index) (sourceCandidates r f)

def remainingSources (f : Refresh) : List Source :=
  let chosen := chosenSources r all f
  f.available.filter fun s => !chosen.any fun a => (Source.tree all [a.index]).contains s.index

/-- Does `a` come before `b`, by the number of bindings and then of sources that depend on it? -/
def precedes (a b : PropertyRef) : Bool :=
  let size (p : PropertyRef) := (Source.tree all p.property.dependents).length
  let bindingsOfA := a.property.bindings.length
  let bindingsOfB := b.property.bindings.length
  bindingsOfB < bindingsOfA || bindingsOfA == bindingsOfB && size b ≤ size a

def propertyCandidates (f : Refresh) : List PropertyRef :=
  sortBy (precedes all) ((remainingSources r all f ++ f.own.toList).flatMap Source.propertyRefs)

/-- Properties with a common binding are not called together. -/
def chosenProperties (f : Refresh) : List PropertyRef :=
  greedy (fun a b => b.property.bindings.any fun i => a.property.bindings.contains i)
    (propertyCandidates r all f)

def ofRefresh (f : Refresh) : Selection :=
  let sources := chosenSources r all f
  let properties := chosenProperties r all f
  { sources, properties
    subscribed := (remainingSources r all f).filter fun s =>
      !properties.any fun p => (Source.tree all p.property.dependents).contains s.index
    bindings := without f.bindings
      (sources.flatMap (·.bindings) ++ properties.flatMap (·.property.bindings)) }

end Selection
end DataBinding
