import DataBinding.Distinct
import DataBinding.Greedy
import DataBinding.Sorted
import Mathlib.Data.List.Induction
import Mathlib.Data.List.Sort

/-!
# Members of sorted, grouped and selected lists

Sorting and dropping repetitions keep the members of a list, grouping distributes them, and greedy
selection takes some of them.
-/
namespace DataBinding

section Sorting

variable {α : Type} {le : α → α → Bool}

@[simp] theorem mem_insertBy {a x : α} {as : List α} : x ∈ insertBy le a as ↔ x = a ∨ x ∈ as := by
  induction as with
  | nil => simp [insertBy]
  | cons b bs ih =>
    unfold insertBy
    split
    · simp
    · simp only [List.mem_cons, ih]
      tauto

@[simp] theorem mem_sortBy {x : α} {as : List α} : x ∈ sortBy le as ↔ x ∈ as := by
  induction as with
  | nil => simp [sortBy]
  | cons a as ih => simpa [sortBy] using or_congr_right ih

theorem sortBy_eq_insertionSort (le : α → α → Bool) (as : List α) :
    sortBy le as = as.insertionSort fun a b => le a b = true := by
  have hinsert (a : α) (bs : List α) : insertBy le a bs = bs.orderedInsert (fun a b => le a b = true) a := by
    induction bs with
    | nil => rfl
    | cons b bs ih => simp [insertBy, ih]
  induction as with
  | nil => rfl
  | cons a as ih =>
    rw [List.insertionSort_cons, ← ih, ← hinsert]
    rfl

theorem sortBy_perm (le : α → α → Bool) (as : List α) : (sortBy le as).Perm as := by
  rw [sortBy_eq_insertionSort]
  exact List.perm_insertionSort _ as

theorem pairwise_sortBy (le : α → α → Bool) (htotal : ∀ a b, le a b = true ∨ le b a = true)
    (htrans : ∀ a b c, le a b = true → le b c = true → le a c = true) (as : List α) :
    (sortBy le as).Pairwise fun a b => le a b = true := by
  have : Std.Total fun a b => le a b = true := ⟨htotal⟩
  have : IsTrans α fun a b => le a b = true := ⟨htrans⟩
  rw [sortBy_eq_insertionSort]
  exact List.pairwise_insertionSort _ as

theorem pairwise_sortBy_key (key : α → String) (as : List α) :
    (sortBy (fun a b => decide (key a ≤ key b)) as).Pairwise fun a b => key a ≤ key b := by
  have hsorted := pairwise_sortBy (fun a b => decide (key a ≤ key b))
    (by simpa using fun a b => String.le_total (key a) (key b))
    (by simpa using fun _ _ _ => String.le_trans) as
  simpa using hsorted

end Sorting

section Distinct

variable {α β : Type} [BEq α] [LawfulBEq α]

@[simp] theorem mem_addDistinct {as : List α} {a x : α} :
    x ∈ addDistinct as a ↔ x ∈ as ∨ x = a := by
  unfold addDistinct
  split
  · rename_i h
    have ha : a ∈ as := by simpa using h
    constructor
    · exact Or.inl
    · rintro (hx | rfl)
      · exact hx
      · exact ha
  · simp

@[simp] theorem mem_addAllDistinct {as bs : List α} {x : α} :
    x ∈ addAllDistinct as bs ↔ x ∈ as ∨ x ∈ bs := by
  unfold addAllDistinct
  induction bs generalizing as with
  | nil => simp
  | cons b bs ih => simp [ih, or_assoc]

@[simp] theorem mem_distinct {as : List α} {x : α} : x ∈ distinct as ↔ x ∈ as := by
  simp [distinct]

theorem nodup_distinct (as : List α) : (distinct as).Nodup := by
  suffices h : ∀ front : List α, front.Nodup → (as.foldl addDistinct front).Nodup from h [] List.nodup_nil
  induction as with
  | nil => exact fun front hfront => hfront
  | cons a as ih =>
    intro front hfront
    apply ih
    unfold addDistinct
    split
    · exact hfront
    · rename_i hnew
      exact List.nodup_append.mpr ⟨hfront, by simp, by
        rintro x hx y hy rfl
        simp_all⟩

omit [LawfulBEq α] in
/-- What is left stands in the order of the list. -/
theorem distinct_sublist (as : List α) : (distinct as).Sublist as := by
  suffices h : ∀ front : List α, (as.foldl addDistinct front).Sublist (front ++ as) from h []
  induction as with
  | nil => simp
  | cons a as ih =>
    intro front
    apply (ih (addDistinct front a)).trans
    unfold addDistinct
    split
    · exact (List.sublist_cons_self a as).append_left front
    · simp

theorem pairwise_lt_distinct {as : List Nat} (h : as.Pairwise (· ≤ ·)) : (distinct as).Pairwise (· < ·) := by
  apply ((h.sublist (distinct_sublist as)).and (nodup_distinct as)).imp
  rintro a b ⟨hle, hne⟩
  exact Nat.lt_of_le_of_ne hle hne

@[simp] theorem mem_without {as removed : List α} {x : α} :
    x ∈ without as removed ↔ x ∈ as ∧ x ∉ removed := by
  simp [without]

/-- A group consists of all elements of its key, and there is at least one. -/
theorem mem_groupsBy {key : β → α} {bs : List β} {k : α} {group : List β} :
    (k, group) ∈ groupsBy key bs ↔ (∃ b ∈ bs, key b = k) ∧ group = bs.filter fun b => key b == k := by
  simp only [groupsBy, List.mem_map, mem_distinct, Prod.mk.injEq]
  constructor
  · rintro ⟨_, hb, rfl, rfl⟩
    exact ⟨hb, rfl⟩
  · rintro ⟨hb, rfl⟩
    exact ⟨k, hb, rfl, rfl⟩

omit [BEq α] [LawfulBEq α] in
/-- What a list gives element by element stands in the order of the positions. -/
theorem pairwise_flatMap_zipIdx {number : β → Nat} {f : α × Nat → List β}
    (hf : ∀ x, ∀ b ∈ f x, number b = x.2) (as : List α) :
    (as.zipIdx.flatMap f).Pairwise fun b b' => number b ≤ number b' := by
  have hnumbers : as.zipIdx.Pairwise fun x y => x.2 ≤ y.2 := by
    rw [← List.pairwise_map (f := Prod.snd) (R := (· ≤ ·)), List.zipIdx_map_snd]
    exact List.pairwise_le_range'
  apply List.pairwise_flatMap.mpr
  constructor
  · intro x _
    apply List.pairwise_of_forall_mem_list
    intro b hb b' hb'
    rw [hf x b hb, hf x b' hb']
  · apply hnumbers.imp
    intro x y hxy b hb b' hb'
    rw [hf x b hb, hf y b' hb']
    exact hxy

end Distinct

section Greedy

variable {α : Type} {rulesOut : α → α → Bool} {as : List α} {a x : α}

theorem greedy_append_singleton (rulesOut : α → α → Bool) (as : List α) (a : α) :
    greedy rulesOut (as ++ [a]) = takeUnlessRuledOut rulesOut (greedy rulesOut as) a := by
  simp [greedy, List.foldl_append]

/-- The last element is taken unless one of those taken rules it out. -/
theorem mem_greedy_append_singleton : x ∈ greedy rulesOut (as ++ [a]) ↔
    x ∈ greedy rulesOut as ∨ x = a ∧ ∀ y ∈ greedy rulesOut as, rulesOut y a = false := by
  rw [greedy_append_singleton, takeUnlessRuledOut]
  split
  · rename_i hruled
    obtain ⟨y, hy, hya⟩ := List.any_eq_true.mp hruled
    simp only [iff_self_or, and_imp]
    intro _ hfree
    simp [hfree y hy] at hya
  · rename_i hruled
    have hfree : ∀ y ∈ greedy rulesOut as, rulesOut y a = false := by simpa using hruled
    rw [List.mem_append, List.mem_singleton, and_iff_left hfree]

theorem greedy_sublist (rulesOut : α → α → Bool) (as : List α) : (greedy rulesOut as).Sublist as := by
  induction as using List.reverseRecOn with
  | nil => exact List.Sublist.refl []
  | append_singleton as a ih =>
    rw [greedy_append_singleton, takeUnlessRuledOut]
    split
    · exact ih.trans (List.sublist_append_left as [a])
    · exact ih.append_right [a]

theorem mem_of_mem_greedy (hx : x ∈ greedy rulesOut as) : x ∈ as := (greedy_sublist rulesOut as).subset hx

theorem pairwise_greedy (rulesOut : α → α → Bool) (as : List α) :
    (greedy rulesOut as).Pairwise fun a b => rulesOut a b = false := by
  induction as using List.reverseRecOn with
  | nil => exact List.Pairwise.nil
  | append_singleton as a ih =>
    rw [greedy_append_singleton, takeUnlessRuledOut]
    split
    · exact ih
    · rename_i hruled
      refine List.pairwise_append.mpr ⟨ih, List.pairwise_singleton _ a, fun b hb c hc => ?_⟩
      obtain rfl := List.mem_singleton.mp hc
      simp only [List.any_eq_true, not_exists, not_and, Bool.not_eq_true] at hruled
      exact hruled b hb

/-- What is not taken is ruled out by something that is. -/
theorem mem_greedy_or_ruledOut (rulesOut : α → α → Bool) (hx : x ∈ as) :
    x ∈ greedy rulesOut as ∨ ∃ y ∈ greedy rulesOut as, rulesOut y x = true := by
  induction as using List.reverseRecOn with
  | nil => cases hx
  | append_singleton as a ih =>
    simp only [mem_greedy_append_singleton]
    rcases List.mem_append.mp hx with hx | hx
    · rcases ih hx with htaken | ⟨y, hy, hyx⟩
      · exact Or.inl (Or.inl htaken)
      · exact Or.inr ⟨y, Or.inl hy, hyx⟩
    · obtain rfl := List.mem_singleton.mp hx
      by_cases hfree : ∀ y ∈ greedy rulesOut as, rulesOut y x = false
      · exact Or.inl (Or.inr ⟨rfl, hfree⟩)
      · push Not at hfree
        obtain ⟨y, hy, hyx⟩ := hfree
        exact Or.inr ⟨y, Or.inl hy, by simpa using hyx⟩

/-- Of ascending numbers those are taken that no lesser one rules out. -/
theorem mem_greedy_iff {rulesOut : Nat → Nat → Bool} {as : List Nat} {x : Nat}
    (htrans : ∀ a b c, rulesOut a b = true → rulesOut b c = true → rulesOut a c = true)
    (has : as.Pairwise (· < ·)) :
    x ∈ greedy rulesOut as ↔ x ∈ as ∧ ∀ y ∈ as, y < x → rulesOut y x = false := by
  induction as using List.reverseRecOn with
  | nil => simp [greedy]
  | append_singleton as a ih =>
    obtain ⟨hfront, -, hlast⟩ := List.pairwise_append.mp has
    have hlt : ∀ y ∈ as, y < a := fun y hy => hlast y hy a (List.mem_singleton_self a)
    -- What rules the last one out, taken or not, some taken one does.
    have hfree : (∀ y ∈ greedy rulesOut as, rulesOut y a = false) ↔ ∀ y ∈ as, rulesOut y a = false := by
      constructor
      · intro h y hy
        by_contra hya
        rcases mem_greedy_or_ruledOut rulesOut hy with htaken | ⟨z, hz, hzy⟩
        · exact hya (h y htaken)
        · exact Bool.false_ne_true ((h z hz).symm.trans (htrans z y a hzy (by simpa using hya)))
      · exact fun h y hy => h y (mem_of_mem_greedy hy)
    rw [mem_greedy_append_singleton, hfree, ih hfront]
    constructor
    · rintro (⟨hx, h⟩ | ⟨rfl, h⟩)
      · refine ⟨List.mem_append_left _ hx, fun y hy hyx => ?_⟩
        rcases List.mem_append.mp hy with hy | hy
        · exact h y hy hyx
        · have := hlt x hx
          simp only [List.mem_singleton] at hy
          omega
      · refine ⟨by simp, fun y hy hyx => ?_⟩
        rcases List.mem_append.mp hy with hy | hy
        · exact h y hy
        · simp only [List.mem_singleton] at hy
          omega
    · rintro ⟨hx, h⟩
      rcases List.mem_append.mp hx with hx | hx
      · exact Or.inl ⟨hx, fun y hy => h y (List.mem_append_left _ hy)⟩
      · obtain rfl := List.mem_singleton.mp hx
        exact Or.inr ⟨rfl, fun y hy => h y (List.mem_append_left _ hy) (hlt y hy)⟩

end Greedy

end DataBinding
