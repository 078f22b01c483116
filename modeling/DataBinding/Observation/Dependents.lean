import DataBinding.Digraph
import DataBinding.Observation.Source

/-!
# Dependent sources

When a property changes, the sources whose owners are computed from it are replaced, and their bindings
are assigned along with them. Sources are linked in descending order of the keys of their owners. A
source that is reached through a dependent already is not attached again.
-/
namespace DataBinding.Source

def graph (sources : List Source) : Digraph Nat :=
  ⟨sources.map fun s => (s.index, s.properties.flatMap (·.dependents))⟩

/-- The sources that are replaced along with the given ones, these included. -/
def tree (sources : List Source) (roots : List Nat) : List Nat := (graph sources).preorder roots

def linkKey (s : Source) : String := s.owner.stripped.key

def linkOrder (sources : List Source) : List Nat :=
  (sortBy (fun a b => decide (b.2 ≤ a.2)) (sources.map fun s => (s.index, s.linkKey))).map (·.1)

/-- The other sources whose owners are computed from a property. -/
def nested (sources : List Source) (source : Nat) (p : ObservedProperty) : List Source :=
  sources.filter fun g => g.index != source && g.owner.stripped.containsKey p.access.key

/-- Makes a source a dependent of a property, whose changes then leave the bindings to it. -/
def attach (sources : List Source) (p : ObservedProperty) (g : Source) : ObservedProperty :=
  { p with
    dependents :=
      if (tree sources p.dependents).contains g.index then p.dependents
      else p.dependents ++ [g.index]
    assigned := without p.assigned g.bindings }

def linkNested (source property : Nat) (sources : List Source) (g : Source) : List Source :=
  sources.modify source fun s =>
    { s with properties := s.properties.modify property fun p => attach sources p g }

def linkProperty (source : Nat) (sources : List Source) (property : Nat) : List Source :=
  match sources[source]?.bind fun s => s.properties[property]? with
  | none => sources
  | some p => (nested sources source p).foldl (linkNested source property) sources

def linkSource (sources : List Source) (source : Nat) : List Source :=
  match sources[source]? with
  | none => sources
  | some s => (List.range s.properties.length).foldl (linkProperty source) sources

def link (sources : List Source) : List Source := (linkOrder sources).foldl linkSource sources

end DataBinding.Source
