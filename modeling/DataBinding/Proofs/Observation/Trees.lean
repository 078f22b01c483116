import DataBinding.Proofs.Observation.Growth
import DataBinding.Proofs.Traversal

/-!
# Trees of sources

The sources that are replaced along with others are found by the traversal of the graph of dependents. More sources
to start from never lead to fewer, and what is found takes the dependents of its properties along, whether or not
sources depend on each other in circles.
-/
namespace DataBinding.Source

variable {sources : List Source}

theorem tree_mono {roots roots' : List Nat} (h : roots ⊆ roots') : tree sources roots ⊆ tree sources roots' := by
  intro d hd
  obtain ⟨r, hr, hpath⟩ := mem_tree_iff.mp hd
  exact mem_tree_iff.mpr ⟨r, h hr, hpath⟩

theorem dependents_subset_tree (h : Numbered sources) {roots : List Nat} {i : Nat} {s : Source}
    {p : ObservedProperty} (hi : i ∈ tree sources roots) (hs : sources[i]? = some s) (hp : p ∈ s.properties) :
    p.dependents ⊆ tree sources roots := by
  intro d hd
  obtain ⟨j, hj⟩ := List.mem_iff_getElem?.mp hp
  exact tree_closed h hi (property?_eq_some_iff.mpr ⟨s, hs, hj⟩) (mem_tree_of_mem hd)

/-- From any roots of any graph, the traversal ends and lists what can be reached in depth-first order, each node
once. So the trees of sources grow with the sources that they start from, and contain the dependents of their
sources. -/
theorem tree_explores :
    (∀ (α : Type) [BEq α] [LawfulBEq α] (g : Digraph α) (roots : List α),
      g.IsTraversal roots (g.preorder roots)) ∧
    ∀ sources : List Source, Numbered sources →
      (∀ roots, (graph sources).IsTraversal roots (tree sources roots)) ∧
      (∀ roots roots', roots ⊆ roots' → tree sources roots ⊆ tree sources roots') ∧
      ∀ roots, ∀ i ∈ tree sources roots, ∀ s, sources[i]? = some s → ∀ p ∈ s.properties,
        p.dependents ⊆ tree sources roots :=
  ⟨fun _ _ _ g roots => g.isTraversal_preorder roots, fun sources hsources =>
    ⟨fun roots => (graph sources).isTraversal_preorder roots, fun _ _ h => tree_mono h,
      fun _ _ hi _ hs _ hp => dependents_subset_tree hsources hi hs hp⟩⟩

def ofDependents (index : Nat) (dependents : List Nat) : Source where
  index
  owner := .var "x" .object
  isTentative := false
  properties := [{
    slot := ⟨false, "P"⟩
    member := { name := "P", kind := .property, declaringType := .object, type := .object }
    access := .var "x" .object
    bindings := []
    assigned := []
    dependents }]

/-- Three sources in a circle, of which the first also leads to the last. -/
def ring : List Source := [ofDependents 0 [2, 1], ofDependents 1 [2], ofDependents 2 [0]]

theorem ring_explored : Numbered ring ∧ tree ring [1] = [1, 2, 0] ∧
    (graph ring).IsTraversal [1] [1, 2, 0] ∧ [2, 1] ⊆ tree ring [1] ∧ tree ring [1] ⊆ tree ring [0, 1] := by
  have hring : Numbered ring := by
    intro i s hs
    rcases i with _ | _ | _ | i <;> simp [ring] at hs <;> rw [← hs] <;> rfl
  have htree : tree ring [1] = [1, 2, 0] := by decide
  obtain ⟨hexplores, hmono, hclosed⟩ := tree_explores.2 ring hring
  refine ⟨hring, htree, htree ▸ hexplores [1], ?_, hmono [1] [0, 1] (by simp)⟩
  exact hclosed [1] 0 (by simp [htree]) (ofDependents 0 [2, 1]) rfl _ (List.mem_singleton_self _)

end DataBinding.Source
