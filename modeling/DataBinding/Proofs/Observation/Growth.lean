import DataBinding.Observation.Dependents
import DataBinding.Proofs.Observation.Sources
import DataBinding.Proofs.Reachability
import Mathlib.Data.List.Forall2

/-!
# Growth of dependents

Linking changes a source only by giving its properties more dependents and fewer bindings to assign.
Whatever is said by numbers, owners, accesses and bindings, such as which sources are nested in a
property, stays as it is, and the trees of sources can only become larger.
-/
namespace DataBinding

section Pointwise

variable {α β : Type} {R : α → β → Prop} {as : List α} {bs : List β}

theorem forall₂_getElem? (h : List.Forall₂ R as bs) (i : Nat) : Option.Rel R as[i]? bs[i]? := by
  induction h generalizing i with
  | nil => exact .none
  | cons hr _ ih =>
    cases i with
    | zero => exact .some hr
    | succ i => exact ih i

theorem exists_of_rel_some {x : Option α} {b : β} (h : Option.Rel R x (some b)) : ∃ a, x = some a ∧ R a b := by
  cases h with
  | some hr => exact ⟨_, rfl, hr⟩

theorem exists_of_some_rel {a : α} {y : Option β} (h : Option.Rel R (some a) y) : ∃ b, y = some b ∧ R a b := by
  cases h with
  | some hr => exact ⟨_, rfl, hr⟩

theorem forall₂_getElem?_right (h : List.Forall₂ R as bs) {i : Nat} {b : β} (hb : bs[i]? = some b) :
    ∃ a, as[i]? = some a ∧ R a b :=
  exists_of_rel_some (hb ▸ forall₂_getElem? h i)

theorem forall₂_mem_right (h : List.Forall₂ R as bs) {b : β} (hb : b ∈ bs) : ∃ a ∈ as, R a b := by
  obtain ⟨i, hi⟩ := List.mem_iff_getElem?.mp hb
  obtain ⟨a, ha, hr⟩ := forall₂_getElem?_right h hi
  exact ⟨a, List.mem_of_getElem? ha, hr⟩

theorem forall₂_mem_left (h : List.Forall₂ R as bs) {a : α} (ha : a ∈ as) : ∃ b ∈ bs, R a b :=
  forall₂_mem_right (R := flip R) h.flip ha

theorem forall₂_modify {R : α → α → Prop} (hrefl : ∀ a, R a a) {f : α → α} (hf : ∀ a, R a (f a))
    (as : List α) (i : Nat) : List.Forall₂ R as (as.modify i f) := by
  induction as generalizing i with
  | nil => simp
  | cons a as ih =>
    cases i with
    | zero => exact .cons (hf a) (List.forall₂_same.mpr fun b _ => hrefl b)
    | succ i => exact .cons (hrefl a) (ih i)

theorem forall₂_trans {R : α → α → Prop} (htrans : ∀ a b c, R a b → R b c → R a c)
    {as bs cs : List α} (hab : List.Forall₂ R as bs) (hbc : List.Forall₂ R bs cs) :
    List.Forall₂ R as cs := by
  induction hab generalizing cs with
  | nil => exact hbc
  | cons h _ ih =>
    cases hbc with
    | cons h' hbc => exact .cons (htrans _ _ _ h h') (ih hbc)

theorem forall₂_map_eq {γ : Type} {f : α → γ} {g : β → γ} (hfg : ∀ a b, R a b → f a = g b)
    (h : List.Forall₂ R as bs) : as.map f = bs.map g := by
  induction h with
  | nil => rfl
  | cons hr _ ih => rw [List.map_cons, List.map_cons, hfg _ _ hr, ih]

end Pointwise

/-- A property that has got more dependents and leaves more bindings to them. -/
structure ObservedProperty.Grows (p q : ObservedProperty) : Prop where
  slot : q.slot = p.slot
  access : q.access = p.access
  bindings : q.bindings = p.bindings
  dependents : p.dependents ⊆ q.dependents
  assigned : q.assigned.Sublist p.assigned

theorem ObservedProperty.Grows.refl (p : ObservedProperty) : p.Grows p :=
  ⟨rfl, rfl, rfl, List.Subset.refl _, List.Sublist.refl _⟩

theorem ObservedProperty.Grows.trans {p q r : ObservedProperty} (hpq : p.Grows q)
    (hqr : q.Grows r) : p.Grows r where
  slot := hqr.slot.trans hpq.slot
  access := hqr.access.trans hpq.access
  bindings := hqr.bindings.trans hpq.bindings
  dependents := List.Subset.trans hpq.dependents hqr.dependents
  assigned := hqr.assigned.trans hpq.assigned

namespace Source

structure Grows (s t : Source) : Prop where
  index : t.index = s.index
  owner : t.owner = s.owner
  properties : List.Forall₂ ObservedProperty.Grows s.properties t.properties

theorem Grows.refl (s : Source) : s.Grows s :=
  ⟨rfl, rfl, List.forall₂_same.mpr fun p _ => .refl p⟩

theorem Grows.trans {s t u : Source} (hst : s.Grows t) (htu : t.Grows u) : s.Grows u where
  index := htu.index.trans hst.index
  owner := htu.owner.trans hst.owner
  properties := forall₂_trans (fun _ _ _ hpq hqr => hpq.trans hqr) hst.properties htu.properties

theorem Grows.linkKey {s t : Source} (h : s.Grows t) : t.linkKey = s.linkKey := by
  rw [Source.linkKey, Source.linkKey, h.owner]

theorem Grows.map_bindings {s t : Source} (h : s.Grows t) :
    t.properties.map (·.bindings) = s.properties.map (·.bindings) :=
  (forall₂_map_eq (fun _ _ hpq => hpq.bindings.symm) h.properties).symm

theorem Grows.bindings_eq {s t : Source} (h : s.Grows t) : t.bindings = s.bindings := by
  rw [bindings, bindings, List.flatMap_def, List.flatMap_def, h.map_bindings]

/-- All sources of a list have grown, and none has come or gone. -/
abbrev AllGrow (ss ts : List Source) : Prop := List.Forall₂ Grows ss ts

theorem AllGrow.refl (ss : List Source) : AllGrow ss ss := List.forall₂_same.mpr fun s _ => .refl s

theorem AllGrow.trans {ss ts us : List Source} (h : AllGrow ss ts) (h' : AllGrow ts us) :
    AllGrow ss us :=
  forall₂_trans (fun _ _ _ hst htu => hst.trans htu) h h'

theorem AllGrow.map_index {ss ts : List Source} (h : AllGrow ss ts) : ts.map (·.index) = ss.map (·.index) :=
  (forall₂_map_eq (fun _ _ hst => hst.index.symm) h).symm

def property? (sources : List Source) (i j : Nat) : Option ObservedProperty :=
  sources[i]?.bind fun s => s.properties[j]?

theorem property?_eq_some_iff {sources : List Source} {i j : Nat} {p : ObservedProperty} :
    property? sources i j = some p ↔ ∃ s, sources[i]? = some s ∧ s.properties[j]? = some p :=
  Option.bind_eq_some_iff

variable {ss ts : List Source}

theorem AllGrow.property? (h : AllGrow ss ts) (i j : Nat) :
    Option.Rel ObservedProperty.Grows (property? ss i j) (property? ts i j) := by
  unfold Source.property?
  have hrel := forall₂_getElem? h i
  revert hrel
  cases ss[i]? <;> cases ts[i]? <;> intro hrel
  · exact .none
  · cases hrel
  · cases hrel
  · exact forall₂_getElem? (Option.rel_some_some.mp hrel).properties j

theorem AllGrow.property?_right (h : AllGrow ss ts) {i j : Nat} {q : ObservedProperty}
    (hq : Source.property? ts i j = some q) : ∃ p, Source.property? ss i j = some p ∧ p.Grows q :=
  exists_of_rel_some (hq ▸ h.property? i j)

theorem AllGrow.property?_left (h : AllGrow ss ts) {i j : Nat} {p : ObservedProperty}
    (hp : Source.property? ss i j = some p) : ∃ q, Source.property? ts i j = some q ∧ p.Grows q :=
  exists_of_some_rel (hp ▸ h.property? i j)

theorem AllGrow.numbered (h : AllGrow ss ts) (hs : Numbered ss) : Numbered ts := by
  intro i t ht
  obtain ⟨s, hi, hst⟩ := forall₂_getElem?_right h ht
  exact hst.index.trans (hs i s hi)

/-- What is nested in a property does not depend on what has been attached. -/
theorem AllGrow.nested (h : AllGrow ss ts) (i : Nat) {p q : ObservedProperty} (hpq : p.Grows q) :
    AllGrow (nested ss i p) (nested ts i q) := by
  apply List.rel_filter _ h
  intro s t hst
  simp only [hst.index, hst.owner, hpq.access]

theorem edge_graph_iff (h : Numbered ss) {a b : Nat} :
    (graph ss).Edge a b ↔ ∃ j p, property? ss a j = some p ∧ b ∈ p.dependents := by
  unfold Digraph.Edge Digraph.next
  constructor
  · intro hb
    cases hl : (graph ss).edges.lookup a with
    | none => simp [hl] at hb
    | some successors =>
      rw [hl, Option.getD_some] at hb
      obtain ⟨before, after, he, -⟩ := List.lookup_eq_some_iff.mp hl
      have hmem : (a, successors) ∈ (graph ss).edges := by rw [he]; simp
      obtain ⟨s, hs, heq⟩ := List.mem_map.mp hmem
      obtain ⟨rfl, rfl⟩ := Prod.mk.inj heq
      obtain ⟨p, hp, hbp⟩ := List.mem_flatMap.mp hb
      obtain ⟨j, hj⟩ := List.mem_iff_getElem?.mp hp
      exact ⟨j, p, property?_eq_some_iff.mpr ⟨s, h.getElem?_index hs, hj⟩, hbp⟩
  · rintro ⟨j, p, hp, hb⟩
    obtain ⟨s, hs, hj⟩ := property?_eq_some_iff.mp hp
    cases hl : (graph ss).edges.lookup a with
    | none =>
      have hnone := List.lookup_eq_none_iff.mp hl (s.index, s.properties.flatMap (·.dependents))
        (List.mem_map.mpr ⟨s, List.mem_of_getElem? hs, rfl⟩)
      simp [h a s hs] at hnone
    | some successors =>
      rw [Option.getD_some]
      obtain ⟨before, after, he, -⟩ := List.lookup_eq_some_iff.mp hl
      have hmem : (a, successors) ∈ (graph ss).edges := by rw [he]; simp
      obtain ⟨t, ht, heq⟩ := List.mem_map.mp hmem
      obtain ⟨rfl, rfl⟩ := Prod.mk.inj heq
      have hts : t = s := Option.some.inj ((h.getElem?_index ht).symm.trans hs)
      subst hts
      exact List.mem_flatMap.mpr ⟨p, List.mem_of_getElem? hj, hb⟩

theorem mem_tree_iff {roots : List Nat} {d : Nat} :
    d ∈ tree ss roots ↔ ∃ r ∈ roots, Relation.ReflTransGen (graph ss).Edge r d :=
  (graph ss).mem_preorder_iff

theorem mem_tree_of_mem {roots : List Nat} {d : Nat} (h : d ∈ roots) : d ∈ tree ss roots :=
  mem_tree_iff.mpr ⟨d, h, .refl⟩

/-- A tree contains the dependents of its sources with their trees. -/
theorem tree_closed (h : Numbered ss) {roots : List Nat} {a j d : Nat} {p : ObservedProperty}
    (ha : a ∈ tree ss roots) (hp : property? ss a j = some p) (hd : d ∈ tree ss p.dependents) :
    d ∈ tree ss roots := by
  obtain ⟨r, hr, hra⟩ := mem_tree_iff.mp ha
  obtain ⟨b, hb, hbd⟩ := mem_tree_iff.mp hd
  have hab : (graph ss).Edge a b := (edge_graph_iff h).mpr ⟨j, p, hp, hb⟩
  exact mem_tree_iff.mpr ⟨r, hr, hra.trans (.head hab hbd)⟩

theorem AllGrow.tree_subset (h : AllGrow ss ts) (hs : Numbered ss) {roots roots' : List Nat}
    (hr : roots ⊆ roots') : tree ss roots ⊆ tree ts roots' := by
  have hedge : ∀ a b, (graph ss).Edge a b → (graph ts).Edge a b := by
    intro a b hab
    obtain ⟨j, p, hp, hb⟩ := (edge_graph_iff hs).mp hab
    obtain ⟨q, hq, hpq⟩ := h.property?_left hp
    exact (edge_graph_iff (h.numbered hs)).mpr ⟨j, q, hq, hpq.dependents hb⟩
  intro d hd
  obtain ⟨r, hmem, hpath⟩ := mem_tree_iff.mp hd
  exact mem_tree_iff.mpr ⟨r, hr hmem, Relation.ReflTransGen.mono hedge r d hpath⟩

end Source
end DataBinding
