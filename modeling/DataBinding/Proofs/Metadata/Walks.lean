import DataBinding.Proofs.Metadata.Lookup
import DataBinding.Proofs.Traversal
import Mathlib.Data.List.Chain

/-!
# Walks over the hierarchy

Over the hierarchy of types, circles included, the walks from a type end and find exactly the names that base types
and interfaces lead to. No type has two base types, so the walk over these goes straight on, from each type to its
base type.
-/
namespace DataBinding

namespace Digraph

variable {α : Type} [BEq α]

/-- No walk from the node goes on for ever, and the nodes are what has been visited when none waits any more. -/
structure Ends (g : Digraph α) (a : α) (found : List α) : Prop where
  acc : Acc (flip g.Step) ([a], [])
  run : Relation.ReflTransGen g.Step ([a], []) ([], found)

theorem ends_preorder [LawfulBEq α] (g : Digraph α) (a : α) : g.Ends a (g.preorder [a]) where
  acc := g.wellFounded_step.apply _
  run := g.run_preorder [a]

section Chains

variable (g : Digraph α)

/-- Where no node has two successors, a visit goes on along the edges. -/
theorem isChain_visit (hnext : ∀ a, (g.next a).length ≤ 1) (depth : Nat) {visited : List α} {a : α}
    (hvisited : visited.IsChain g.Edge) (hlast : ∀ x ∈ visited.getLast?, g.Edge x a) :
    (g.visit depth visited a).IsChain g.Edge := by
  have henter {v : List α} {b : α} (hv : v.IsChain g.Edge) (hb : ∀ x ∈ v.getLast?, g.Edge x b) :
      (v ++ [b]).IsChain g.Edge :=
    hv.append (List.isChain_singleton b) fun x hx y hy => by
      obtain rfl := Option.some.inj hy
      exact hb x hx
  induction depth generalizing visited a with
  | zero =>
    unfold visit
    split
    · exact hvisited
    · exact henter hvisited hlast
  | succ depth ih =>
    unfold visit
    split
    · exact hvisited
    · rcases Nat.le_one_iff_eq_zero_or_eq_one.mp (hnext a) with hnone | hone
      · rw [List.length_eq_zero_iff.mp hnone]
        exact henter hvisited hlast
      · obtain ⟨b, hone⟩ := List.length_eq_one_iff.mp hone
        rw [hone]
        refine ih (henter hvisited hlast) fun x hx => ?_
        obtain rfl : a = x := by simpa using hx
        simp [Edge, hone]

theorem isChain_preorder (hnext : ∀ a, (g.next a).length ≤ 1) (a : α) : (g.preorder [a]).IsChain g.Edge :=
  g.isChain_visit hnext _ .nil (by simp)

end Chains

end Digraph

theorem pairwise_lt_sortNames {names : List String} (h : names.Nodup) : (sortNames names).Pairwise (· < ·) := by
  have hnodup : (sortNames names).Nodup := (sortBy_perm _ names).nodup_iff.mpr h
  apply ((pairwise_sortNames names).and hnodup).imp
  rintro a b ⟨hle, hne⟩
  exact Std.lt_of_le_of_ne hle hne

namespace Registry

variable {r : Registry} {t : TypeRef} {name : String}

/-- The second name is that of the base type of the first one's type. -/
def DerivesFrom (r : Registry) (name base : String) : Prop :=
  ∃ d ∈ r.typeDef? name, ∃ b ∈ d.base, b.name = base

/-- The second name is that of the base type or of an interface of the first one's type. -/
def Inherits (r : Registry) (name super : String) : Prop :=
  ∃ d ∈ r.typeDef? name, ∃ s, (s ∈ d.base ∨ s ∈ d.interfaces) ∧ s.name = super

theorem edge_baseGraph_iff {base : String} : r.baseGraph.Edge name base ↔ r.DerivesFrom name base := by
  unfold Digraph.Edge Digraph.next baseGraph DerivesFrom
  rw [lookup_map_name, ← typeDef?]
  cases r.typeDef? name <;> simp

theorem edge_superGraph_iff {super : String} : r.superGraph.Edge name super ↔ r.Inherits name super := by
  unfold Digraph.Edge Digraph.next superGraph Inherits
  rw [lookup_map_name, ← typeDef?]
  cases r.typeDef? name <;> simp [or_and_right, exists_or]

theorem length_next_baseGraph_le (r : Registry) (name : String) : (r.baseGraph.next name).length ≤ 1 := by
  unfold Digraph.next baseGraph
  rw [lookup_map_name]
  cases r.types.find? (·.name == name) with
  | none => simp
  | some d => cases hbase : d.base <;> simp [hbase]

theorem nodup_withObject {names : List String} (h : names.Nodup) : (withObject names).Nodup := by
  unfold withObject
  split
  · exact h
  · rename_i hobject
    simpa using List.Nodup.concat (by simpa using hobject) h

theorem mem_supertypes_iff :
    name ∈ r.supertypes t ↔ Relation.ReflTransGen r.Inherits t.name name ∨ name = WellKnown.object := by
  have hedge : r.superGraph.Edge = r.Inherits := by
    funext a b
    exact propext edge_superGraph_iff
  rw [supertypes, sortNames, mem_sortBy, mem_withObject, Digraph.mem_preorder_iff, hedge]
  simp

/-- The names lead from the type along base types, up to where there is no description, no base type, or a base
type that is among the names already. -/
structure IsBaseWalk (r : Registry) (t : TypeRef) (walk : List String) : Prop where
  head : walk.head? = some t.name
  chain : walk.IsChain r.DerivesFrom
  nodup : walk.Nodup
  stop : ∀ last ∈ walk.getLast?, ∀ base, r.DerivesFrom last base → base ∈ walk

theorem isBaseWalk_preorder (r : Registry) (t : TypeRef) : r.IsBaseWalk t (r.baseGraph.preorder [t.name]) where
  head := by
    obtain ⟨names, hnames⟩ := r.baseGraph.exists_preorder_eq_cons t.name
    rw [hnames, List.head?_cons]
  chain := (r.baseGraph.isChain_preorder r.length_next_baseGraph_le t.name).imp fun _ _ => edge_baseGraph_iff.mp
  nodup := r.baseGraph.nodup_preorder [t.name]
  stop last hlast base hbase :=
    r.baseGraph.preorder_closed (List.mem_of_mem_getLast? hlast) (edge_baseGraph_iff.mpr hbase)

/-- The walks over the hierarchy end and find what they should. The supertypes, each once and in the order of the
names, are all that base types and interfaces lead to, with the type of all objects. The base types are those along
the only way that there is, with the type of all objects at the end if it is not on the way. -/
theorem hierarchy_walks (r : Registry) (t : TypeRef) :
    (∃ found, r.superGraph.Ends t.name found ∧ r.supertypes t = sortNames (withObject found)) ∧
      (r.supertypes t).Pairwise (· < ·) ∧
      (∀ name, name ∈ r.supertypes t ↔
        Relation.ReflTransGen r.Inherits t.name name ∨ name = WellKnown.object) ∧
      ∃ walk, r.baseGraph.Ends t.name walk ∧ r.IsBaseWalk t walk ∧
        r.baseChain t = (if WellKnown.object ∈ walk then walk else walk ++ [WellKnown.object]) ∧
        (r.baseChain t).Nodup ∧ WellKnown.object ∈ r.baseChain t := by
  have hwalk := r.isBaseWalk_preorder t
  refine ⟨⟨_, r.superGraph.ends_preorder t.name, rfl⟩, ?_, fun name => mem_supertypes_iff, _,
    r.baseGraph.ends_preorder t.name, hwalk, ?_, nodup_withObject hwalk.nodup, ?_⟩
  · exact pairwise_lt_sortNames (nodup_withObject (r.superGraph.nodup_preorder [t.name]))
  · simp [baseChain, withObject]
  · exact mem_withObject.mpr (Or.inr rfl)

-- Two types that derive from each other.
example :
    let r : Registry :=
      ⟨[{ name := "Hen", base := some (.named "Egg") }, { name := "Egg", base := some (.named "Hen") }]⟩
    r.baseChain (.named "Hen") = ["Hen", "Egg", WellKnown.object] ∧
      r.supertypes (.named "Hen") = ["Egg", "Hen", WellKnown.object] := by decide +kernel

end Registry

end DataBinding
