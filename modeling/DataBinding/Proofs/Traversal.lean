import DataBinding.Proofs.Reachability
import Mathlib.Data.List.Nodup

/-!
# Traversals of finite directed graphs

A walk over a graph keeps the nodes that wait to be visited and those that have been. It takes the first one that
waits, passes over it if it has been visited, and otherwise visits it and lets its successors wait in its place.
Such a walk always ends, since it can enter a node with successors only once. What it has visited in the end, and in
which order, is what the traversal by recursion visits, which goes through the successors of a node before it goes on
to the next one.
-/
namespace DataBinding.Digraph

variable {α : Type} [BEq α]

/-- One step of a walk, from the nodes that wait and those that have been visited. -/
inductive Step (g : Digraph α) : List α × List α → List α × List α → Prop where
  | pass {a : α} {waiting visited : List α} (h : a ∈ visited) : Step g (a :: waiting, visited) (waiting, visited)
  | enter {a : α} {waiting visited : List α} (h : a ∉ visited) :
    Step g (a :: waiting, visited) (g.next a ++ waiting, visited ++ [a])

/-- The traversal by recursion: from what has been visited, through the nodes one after the other, to what has been
visited then. A node comes before its successors, and a node that has been visited is passed over. -/
inductive Traverses (g : Digraph α) : List α → List α → List α → Prop where
  | done {visited : List α} : Traverses g visited [] visited
  | pass {a : α} {as visited found : List α} (h : a ∈ visited) (hrest : Traverses g visited as found) :
    Traverses g visited (a :: as) found
  | enter {a : α} {as visited inner found : List α} (h : a ∉ visited)
    (hinner : Traverses g (visited ++ [a]) (g.next a) inner) (hrest : Traverses g inner as found) :
    Traverses g visited (a :: as) found

/-- The nodes are what is found from the roots: by every walk, none of which goes on for ever, and by recursion. They
are the nodes that paths from the roots reach, each of them once. -/
structure IsTraversal (g : Digraph α) (roots found : List α) : Prop where
  acc : Acc (flip g.Step) (roots, [])
  walk : ∀ result, Relation.ReflTransGen g.Step (roots, []) ([], result) ↔ result = found
  recursive : ∀ result, g.Traverses [] roots result ↔ result = found
  nodup : found.Nodup
  reachable : ∀ x, x ∈ found ↔ ∃ r ∈ roots, Relation.ReflTransGen g.Edge r x

/-! ## Walks -/

theorem rightUnique_step (g : Digraph α) : Relator.RightUnique g.Step := by
  intro s t t' h h'
  cases h with
  | pass ha =>
    cases h' with
    | pass _ => rfl
    | enter ha' => exact absurd ha ha'
  | enter ha =>
    cases h' with
    | pass ha' => exact absurd ha' ha
    | enter _ => rfl

theorem run_unique {g : Digraph α} {s : List α × List α} {found found' : List α}
    (h : Relation.ReflTransGen g.Step s ([], found)) (h' : Relation.ReflTransGen g.Step s ([], found')) :
    found = found' := by
  have hend {f f' : List α} (hrun : Relation.ReflTransGen g.Step ([], f) ([], f')) : f = f' := by
    rcases Relation.ReflTransGen.cases_head hrun with heq | ⟨t, hstep, -⟩
    · exact (Prod.mk.inj heq).2
    · cases hstep
  rcases Relation.ReflTransGen.total_of_right_unique g.rightUnique_step h h' with hrun | hrun
  · exact hend hrun
  · exact (hend hrun).symm

/-- A walk does with the first nodes that wait what the recursion does, and the others wait as long. -/
theorem Traverses.run {g : Digraph α} {visited as found : List α} (h : g.Traverses visited as found)
    (waiting : List α) : Relation.ReflTransGen g.Step (as ++ waiting, visited) (waiting, found) := by
  induction h generalizing waiting with
  | done => exact .refl
  | pass ha _ ih => exact .head (.pass ha) (ih waiting)
  | @enter a as visited inner found ha _ _ ihinner ihrest =>
    exact .head (.enter ha) ((ihinner (as ++ waiting)).trans (ihrest waiting))

variable [LawfulBEq α] (g : Digraph α)

/-- A step enters a node with successors, or fewer nodes wait behind it. -/
theorem wellFounded_step : WellFounded (flip g.Step) := by
  have hlex : WellFounded (Prod.Lex (· < ·) (· < ·) : Nat × Nat → Nat × Nat → Prop) := WellFoundedRelation.wf
  refine Subrelation.wf ?_ (InvImage.wf (fun s => (g.unvisited s.2, s.1.length)) hlex)
  intro s' s hstep
  cases hstep with
  | pass _ => exact Prod.Lex.right _ (Nat.lt_succ_self _)
  | @enter a waiting visited ha =>
    by_cases hnext : g.next a = []
    · have hle : g.unvisited (visited ++ [a]) ≤ g.unvisited visited :=
        g.unvisited_anti (List.subset_append_left visited [a])
      simp only [InvImage, hnext, List.nil_append, List.length_cons]
      rcases Nat.lt_or_eq_of_le hle with hlt | heq
      · exact Prod.Lex.left _ _ hlt
      · rw [heq]
        exact Prod.Lex.right _ (Nat.lt_succ_self _)
    · exact Prod.Lex.left _ _ (g.unvisited_enter ha hnext)

/-! ## The traversal -/

theorem visit_of_mem (depth : Nat) {visited : List α} {a : α} (ha : a ∈ visited) : g.visit depth visited a = visited := by
  cases depth <;> simp [visit, ha]

/-- If a visit goes through the successors of a new node, then a fold of visits goes through the nodes. -/
theorem traverses_foldl {depth : Nat}
    (henter : ∀ {visited a}, g.unvisited visited ≤ depth → a ∉ visited →
      g.Traverses (visited ++ [a]) (g.next a) (g.visit depth visited a))
    {visited : List α} (hd : g.unvisited visited ≤ depth) (as : List α) :
    g.Traverses visited as (as.foldl (g.visit depth) visited) := by
  induction as generalizing visited with
  | nil => exact .done
  | cons a as ih =>
    rw [List.foldl_cons]
    by_cases ha : a ∈ visited
    · rw [g.visit_of_mem depth ha]
      exact .pass ha (ih hd)
    · have hle := g.unvisited_anti (g.subset_visit depth visited a)
      exact .enter ha (henter hd ha) (ih (Nat.le_trans hle hd))

/-- With the depth for all unvisited entries a visit goes through the successors of a new node. -/
theorem traverses_visit {depth : Nat} {visited : List α} {a : α} (hd : g.unvisited visited ≤ depth)
    (ha : a ∉ visited) : g.Traverses (visited ++ [a]) (g.next a) (g.visit depth visited a) := by
  induction depth generalizing visited a with
  | zero =>
    have hnext : g.next a = [] := by
      by_contra hnext
      have := g.unvisited_enter ha hnext
      omega
    have hvisit : g.visit 0 visited a = visited ++ [a] := by simp [visit, ha]
    rw [hnext, hvisit]
    exact .done
  | succ depth ih =>
    have hvisit : g.visit (depth + 1) visited a = (g.next a).foldl (g.visit depth) (visited ++ [a]) := by
      simp [visit, ha]
    rw [hvisit]
    by_cases hnext : g.next a = []
    · rw [hnext]
      exact .done
    · -- Entering the node used an entry up, so the depth is enough for its successors.
      have hlt := g.unvisited_enter ha hnext
      exact g.traverses_foldl ih (by omega) (g.next a)

theorem traverses_preorder (roots : List α) : g.Traverses [] roots (g.preorder roots) :=
  g.traverses_foldl g.traverses_visit (List.length_filter_le _ _) roots

omit [LawfulBEq α] in
theorem Traverses.nodup {g : Digraph α} {visited as found : List α} (h : g.Traverses visited as found)
    (hvisited : visited.Nodup) : found.Nodup := by
  induction h with
  | done => exact hvisited
  | pass _ _ ih => exact ih hvisited
  | enter ha _ _ ihinner ihrest => exact ihrest (ihinner (by simpa using hvisited.concat ha))

theorem nodup_preorder (roots : List α) : (g.preorder roots).Nodup := (g.traverses_preorder roots).nodup .nil

theorem run_preorder (roots : List α) : Relation.ReflTransGen g.Step (roots, []) ([], g.preorder roots) := by
  simpa using (g.traverses_preorder roots).run []

theorem isTraversal_preorder (roots : List α) : g.IsTraversal roots (g.preorder roots) where
  acc := g.wellFounded_step.apply _
  walk result := by
    constructor
    · intro h
      exact run_unique h (g.run_preorder roots)
    · rintro rfl
      exact g.run_preorder roots
  recursive result := by
    constructor
    · intro h
      exact run_unique (by simpa using h.run []) (g.run_preorder roots)
    · rintro rfl
      exact g.traverses_preorder roots
  nodup := g.nodup_preorder roots
  reachable _ := g.mem_preorder_iff

end DataBinding.Digraph
