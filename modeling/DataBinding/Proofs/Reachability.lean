import DataBinding.Digraph
import Mathlib.Data.List.Basic
import Mathlib.Logic.Relation

/-!
# Reachability in finite directed graphs

The depth-first traversal from a list of roots lists exactly the nodes that paths from the roots reach.
The bound on the depth never cuts a path short: every descent enters a node with successors that was not
visited before, and there are at most as many of these as the bound says.
-/
namespace DataBinding.Digraph

section Fold

variable {α β : Type} {f : List α → β → List α}

theorem subset_foldl (hf : ∀ v b, v ⊆ f v b) (bs : List β) (v : List α) : v ⊆ bs.foldl f v := by
  induction bs generalizing v with
  | nil => exact List.Subset.refl v
  | cons b bs ih => exact List.Subset.trans (hf v b) (ih (f v b))

/-- What a fold of extensions adds, one of the steps adds to a list that contains the initial one. -/
theorem mem_foldl_cases (hf : ∀ v b, v ⊆ f v b) {bs : List β} {v : List α} {x : α}
    (hx : x ∈ bs.foldl f v) (hv : x ∉ v) :
    ∃ b ∈ bs, ∃ w, v ⊆ w ∧ x ∉ w ∧ x ∈ f w b ∧ f w b ⊆ bs.foldl f v := by
  induction bs generalizing v with
  | nil => exact absurd hx hv
  | cons b bs ih =>
    by_cases hb : x ∈ f v b
    · exact ⟨b, List.mem_cons_self, v, List.Subset.refl v, hv, hb, subset_foldl hf bs (f v b)⟩
    · obtain ⟨c, hc, w, hw, hxw, hxc, hsub⟩ := ih hx hb
      exact ⟨c, List.mem_cons_of_mem b hc, w, List.Subset.trans (hf v b) hw, hxw, hxc, hsub⟩

end Fold

variable {α : Type} [BEq α] [LawfulBEq α]

def Edge (g : Digraph α) (a b : α) : Prop := b ∈ g.next a

def unvisited (g : Digraph α) (visited : List α) : Nat :=
  (g.edges.filter fun e => !visited.contains e.1).length

theorem unvisited_anti (g : Digraph α) {v w : List α} (h : v ⊆ w) :
    g.unvisited w ≤ g.unvisited v := by
  apply List.Sublist.length_le
  apply List.monotone_filter_right
  intro e he
  simp only [Bool.not_eq_true', List.contains_eq_mem, decide_eq_false_iff_not] at he ⊢
  exact fun hv => he (h hv)

theorem exists_entry_of_next (g : Digraph α) {a : α} (h : g.next a ≠ []) :
    ∃ e ∈ g.edges, e.1 = a := by
  cases hl : g.edges.lookup a with
  | none => simp [next, hl] at h
  | some successors =>
    obtain ⟨before, after, he, -⟩ := List.lookup_eq_some_iff.mp hl
    exact ⟨(a, successors), by rw [he]; simp, rfl⟩

/-- Entering a new node with successors leaves fewer unvisited entries. -/
theorem unvisited_enter (g : Digraph α) {visited : List α} {a : α} (ha : a ∉ visited)
    (h : g.next a ≠ []) : g.unvisited (visited ++ [a]) < g.unvisited visited := by
  obtain ⟨e, he, rfl⟩ := g.exists_entry_of_next h
  have hsub : (g.edges.filter fun x => !(visited ++ [e.1]).contains x.1) =
      (g.edges.filter fun x => !visited.contains x.1).filter fun x => !(x.1 == e.1) := by
    rw [List.filter_filter]
    apply List.filter_congr
    intro x _
    by_cases hx : x.1 = e.1 <;> simp [hx]
  have hmem : e ∈ g.edges.filter fun x => !visited.contains x.1 := by
    simpa using ⟨he, ha⟩
  unfold unvisited
  rw [hsub]
  exact List.length_filter_lt_length_iff_exists.mpr ⟨e, hmem, by simp⟩

omit [LawfulBEq α] in
theorem subset_visit (g : Digraph α) (depth : Nat) (visited : List α) (a : α) :
    visited ⊆ g.visit depth visited a := by
  induction depth generalizing visited a with
  | zero =>
    unfold visit
    split <;> simp
  | succ depth ih =>
    unfold visit
    split
    · exact List.Subset.refl visited
    · exact List.Subset.trans (List.subset_append_left visited [a]) (subset_foldl ih _ _)

theorem self_mem_visit (g : Digraph α) (depth : Nat) (visited : List α) (a : α) :
    a ∈ g.visit depth visited a := by
  cases depth with
  | zero =>
    unfold visit
    split
    · simpa using ‹visited.contains a = true›
    · simp
  | succ depth =>
    unfold visit
    split
    · simpa using ‹visited.contains a = true›
    · exact subset_foldl (g.subset_visit depth) _ _ (by simp)

theorem mem_foldl_visit (g : Digraph α) (depth : Nat) {as : List α} (visited : List α) {a : α}
    (ha : a ∈ as) : a ∈ as.foldl (g.visit depth) visited := by
  induction as generalizing visited with
  | nil => simp at ha
  | cons b bs ih =>
    rcases List.mem_cons.mp ha with rfl | hb
    · exact subset_foldl (g.subset_visit depth) bs _ (g.self_mem_visit depth visited a)
    · exact ih _ hb

omit [LawfulBEq α] in
theorem reachable_of_mem_visit (g : Digraph α) {depth : Nat} {visited : List α} {a x : α}
    (hx : x ∈ g.visit depth visited a) (hv : x ∉ visited) :
    Relation.ReflTransGen g.Edge a x := by
  induction depth generalizing visited a with
  | zero =>
    unfold visit at hx
    split at hx
    · exact absurd hx hv
    · have hxa : x = a := by simpa [hv] using hx
      exact hxa ▸ .refl
  | succ depth ih =>
    unfold visit at hx
    split at hx
    · exact absurd hx hv
    · by_cases hxa : x = a
      · exact hxa ▸ .refl
      · have hw : x ∉ visited ++ [a] := by simp [hv, hxa]
        obtain ⟨b, hb, w, -, hxw, hxb, -⟩ := mem_foldl_cases (g.subset_visit depth) hx hw
        exact .head hb (ih hxb hxw)

/-- A visit that has the depth for all unvisited entries also adds the successors of what it adds. -/
theorem visit_closed (g : Digraph α) {depth : Nat} {visited : List α} {a x y : α}
    (hd : g.unvisited visited ≤ depth) (hx : x ∈ g.visit depth visited a) (hv : x ∉ visited)
    (hy : y ∈ g.next x) : y ∈ g.visit depth visited a := by
  induction depth generalizing visited a with
  | zero =>
    unfold visit at hx
    split at hx
    · exact absurd hx hv
    · have hlt := g.unvisited_enter hv (List.ne_nil_of_mem hy)
      omega
  | succ depth ih =>
    unfold visit at hx ⊢
    split at hx
    · exact absurd hx hv
    · rename_i ha
      rw [if_neg ha]
      by_cases hxa : x = a
      · subst hxa
        exact g.mem_foldl_visit depth _ hy
      · have hw : x ∉ visited ++ [a] := by simp [hv, hxa]
        obtain ⟨b, hb, w, hsub, hxw, hxb, hfin⟩ := mem_foldl_cases (g.subset_visit depth) hx hw
        -- The descent to `b` shows that `a` has successors, so that entering it used one entry up.
        have ha' : a ∉ visited := by simpa using ha
        have hlt := g.unvisited_enter ha' (List.ne_nil_of_mem hb)
        have hle := g.unvisited_anti hsub
        exact hfin (ih (by omega) hxb hxw)

theorem preorder_closed (g : Digraph α) {roots : List α} {x y : α} (hx : x ∈ g.preorder roots)
    (hy : y ∈ g.next x) : y ∈ g.preorder roots := by
  obtain ⟨r, -, w, -, hxw, hxr, hfin⟩ :=
    mem_foldl_cases (g.subset_visit g.edges.length) hx List.not_mem_nil
  exact hfin (g.visit_closed (List.length_filter_le _ _) hxr hxw hy)

theorem mem_preorder_iff (g : Digraph α) {roots : List α} {x : α} :
    x ∈ g.preorder roots ↔ ∃ r ∈ roots, Relation.ReflTransGen g.Edge r x := by
  constructor
  · intro hx
    obtain ⟨r, hr, w, -, hxw, hxr, -⟩ :=
      mem_foldl_cases (g.subset_visit g.edges.length) hx List.not_mem_nil
    exact ⟨r, hr, g.reachable_of_mem_visit hxr hxw⟩
  · rintro ⟨r, hr, hpath⟩
    induction hpath with
    | refl => exact g.mem_foldl_visit _ [] hr
    | tail _ hedge ih => exact g.preorder_closed ih hedge

end DataBinding.Digraph
