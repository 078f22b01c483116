import DataBinding.Proofs.Observation.Growth

/-!
# Linked sources

After linking, the dependents of a property are among the sources nested in it, all of these are in the
tree of the dependents, and the property assigns exactly those of its bindings that none of them reads.
A nested source that is in the tree already need not be attached: trees only grow while linking goes on.
-/
namespace DataBinding

/-- If every step of a fold settles its element and keeps what is settled, the fold settles them all. -/
theorem foldl_settles {σ α : Type} {step : σ → α → σ} {Inv : σ → Prop} {Settled : σ → α → Prop}
    {as : List α}
    (h : ∀ s, Inv s → ∀ a ∈ as, Inv (step s a) ∧ Settled (step s a) a ∧
      ∀ b, Settled s b → Settled (step s a) b)
    {s : σ} (hs : Inv s) : Inv (as.foldl step s) ∧ (∀ a ∈ as, Settled (as.foldl step s) a) ∧
      ∀ b, Settled s b → Settled (as.foldl step s) b := by
  induction as generalizing s with
  | nil => exact ⟨hs, by simp, fun b hb => hb⟩
  | cons a as ih =>
    obtain ⟨hinv, hsettled, hkeep⟩ := h s hs a List.mem_cons_self
    obtain ⟨hfin, hall, hrest⟩ := ih (fun t ht b hb => h t ht b (List.mem_cons_of_mem a hb)) hinv
    refine ⟨hfin, ?_, fun b hb => hrest b (hkeep b hb)⟩
    intro b hb
    rcases List.mem_cons.mp hb with rfl | hb
    · exact hrest b hsettled
    · exact hall b hb

namespace Source

/-- What holds of sources at any time while they are linked. -/
structure PartlyLinked (sources : List Source) : Prop where
  numbered : Numbered sources
  /-- Only nested sources are attached. -/
  dependents : ∀ i j p, property? sources i j = some p → ∀ d ∈ p.dependents,
    ∃ g ∈ nested sources i p, g.index = d
  assigned : ∀ i j p, property? sources i j = some p → p.assigned ⊆ p.bindings
  /-- A binding that no nested source reads stays with the property. -/
  kept : ∀ i j p, property? sources i j = some p → ∀ b ∈ p.bindings,
    (∀ g ∈ nested sources i p, b ∉ g.bindings) → b ∈ p.assigned

/-- The property at a position has been linked to a nested source: a change reaches the source, and the
source's bindings are left to it. -/
def LinkedTo (i j : Nat) (sources : List Source) (g : Source) : Prop :=
  ∀ p, property? sources i j = some p →
    g.index ∈ tree sources p.dependents ∧ ∀ b ∈ p.assigned, b ∉ g.bindings

def LinkedAt (i : Nat) (sources : List Source) (j : Nat) : Prop :=
  ∀ p, property? sources i j = some p → ∀ g ∈ nested sources i p, LinkedTo i j sources g

variable {ss ts : List Source}

theorem LinkedTo.grow {i j : Nat} {g : Source} (h : AllGrow ss ts) (hs : Numbered ss)
    (hg : LinkedTo i j ss g) : LinkedTo i j ts g := by
  intro q hq
  obtain ⟨p, hp, hpq⟩ := h.property?_right hq
  obtain ⟨htree, hassigned⟩ := hg p hp
  exact ⟨h.tree_subset hs hpq.dependents htree, fun b hb => hassigned b (hpq.assigned.subset hb)⟩

theorem LinkedAt.grow {i j : Nat} (h : AllGrow ss ts) (hs : Numbered ss)
    (hl : LinkedAt i ss j) : LinkedAt i ts j := by
  intro q hq t ht
  obtain ⟨p, hp, hpq⟩ := h.property?_right hq
  obtain ⟨s, hmem, hst⟩ := forall₂_mem_right (h.nested i hpq) ht
  have hgrown := (hl p hp s hmem).grow h hs
  unfold LinkedTo at hgrown ⊢
  rw [hst.index, hst.bindings_eq]
  exact hgrown

/-! ## One attachment -/

theorem attach_grows (sources : List Source) (p : ObservedProperty) (g : Source) :
    p.Grows (attach sources p g) where
  slot := rfl
  access := rfl
  bindings := rfl
  dependents := by
    unfold attach
    split <;> simp
  assigned := List.filter_sublist

theorem linkNested_grows (i j : Nat) (sources : List Source) (g : Source) :
    AllGrow sources (linkNested i j sources g) := by
  apply forall₂_modify Grows.refl
  intro s
  exact ⟨rfl, rfl, forall₂_modify ObservedProperty.Grows.refl (attach_grows sources · g) _ j⟩

theorem property?_linkNested (i j : Nat) (sources : List Source) (g : Source) (i' j' : Nat) :
    property? (linkNested i j sources g) i' j' =
      if i = i' ∧ j = j' then (property? sources i' j').map (attach sources · g)
      else property? sources i' j' := by
  unfold property? linkNested
  rw [List.getElem?_modify]
  cases sources[i']? with
  | none => simp
  | some s =>
    by_cases hi : i = i'
    · by_cases hj : j = j'
      · simp [hi, hj]
      · simp [hi, hj]
    · simp [hi]

theorem linkNested_linkedTo {i j : Nat} (hs : Numbered ss) (g : Source) :
    LinkedTo i j (linkNested i j ss g) g := by
  have hgrow := linkNested_grows i j ss g
  intro q hq
  rw [property?_linkNested, if_pos ⟨rfl, rfl⟩] at hq
  obtain ⟨p, -, rfl⟩ := Option.map_eq_some_iff.mp hq
  constructor
  · by_cases hin : g.index ∈ tree ss p.dependents
    · exact hgrow.tree_subset hs (attach_grows ss p g).dependents hin
    · apply mem_tree_of_mem
      simp [attach, hin]
  · intro b hb
    exact (mem_without.mp hb).2

theorem linkNested_partlyLinked {i j : Nat} {g : Source} (h : PartlyLinked ss)
    (hg : ∀ p, property? ss i j = some p →
      ∃ s ∈ nested ss i p, s.index = g.index ∧ s.bindings = g.bindings) :
    PartlyLinked (linkNested i j ss g) := by
  have hgrow := linkNested_grows i j ss g
  -- A property elsewhere is as it was; the one at the position has been attached to.
  have hcases : ∀ i' j' q, property? (linkNested i j ss g) i' j' = some q →
      property? ss i' j' = some q ∨
        i = i' ∧ j = j' ∧ ∃ p, property? ss i' j' = some p ∧ q = attach ss p g := by
    intro i' j' q hq
    rw [property?_linkNested] at hq
    split at hq
    · rename_i hpos
      obtain ⟨p, hp, rfl⟩ := Option.map_eq_some_iff.mp hq
      exact Or.inr ⟨hpos.1, hpos.2, p, hp, rfl⟩
    · exact Or.inl hq
  refine ⟨hgrow.numbered h.numbered, ?_, ?_, ?_⟩
  · intro i' j' q hq d hd
    suffices hold : ∃ p, p.Grows q ∧ ∃ s ∈ nested ss i' p, s.index = d by
      obtain ⟨p, hpq, s, hs, rfl⟩ := hold
      obtain ⟨t, ht, hst⟩ := forall₂_mem_left (hgrow.nested i' hpq) hs
      exact ⟨t, ht, hst.index⟩
    rcases hcases i' j' q hq with hp | ⟨rfl, rfl, p, hp, rfl⟩
    · exact ⟨q, .refl q, h.dependents i' j' q hp d hd⟩
    · refine ⟨p, attach_grows ss p g, ?_⟩
      have hd' : d ∈ p.dependents ∨ d = g.index := by
        unfold attach at hd
        split at hd
        · exact Or.inl hd
        · simpa using hd
      rcases hd' with hd' | rfl
      · exact h.dependents i j p hp d hd'
      · obtain ⟨s, hs, hindex, -⟩ := hg p hp
        exact ⟨s, hs, hindex⟩
  · intro i' j' q hq b hb
    rcases hcases i' j' q hq with hp | ⟨rfl, rfl, p, hp, rfl⟩
    · exact h.assigned i' j' q hp hb
    · exact h.assigned i j p hp (mem_without.mp hb).1
  · intro i' j' q hq b hb hfree
    have hfree' : ∀ p, p.Grows q → ∀ s ∈ nested ss i' p, b ∉ s.bindings := by
      intro p hpq s hs
      obtain ⟨t, ht, hst⟩ := forall₂_mem_left (hgrow.nested i' hpq) hs
      rw [← hst.bindings_eq]
      exact hfree t ht
    rcases hcases i' j' q hq with hp | ⟨rfl, rfl, p, hp, rfl⟩
    · exact h.kept i' j' q hp b hb (hfree' q (.refl q))
    · have hpfree := hfree' p (attach_grows ss p g)
      obtain ⟨s, hs, -, hbindings⟩ := hg p hp
      apply mem_without.mpr
      exact ⟨h.kept i j p hp b hb hpfree, hbindings ▸ hpfree s hs⟩

/-! ## All attachments -/

def LinkedSource (sources : List Source) (i : Nat) : Prop := ∀ j, LinkedAt i sources j

theorem linkProperty_eq {i j : Nat} {p : ObservedProperty} (hp : property? ss i j = some p) :
    linkProperty i ss j = (nested ss i p).foldl (linkNested i j) ss := by
  unfold linkProperty
  rw [show (ss[i]?.bind fun s => s.properties[j]?) = some p from hp]

theorem linkProperty_spec (i j : Nat) (h : PartlyLinked ss) :
    PartlyLinked (linkProperty i ss j) ∧ AllGrow ss (linkProperty i ss j) ∧
      LinkedAt i (linkProperty i ss j) j := by
  cases hp : property? ss i j with
  | none =>
    have heq : linkProperty i ss j = ss := by
      unfold linkProperty
      rw [show (ss[i]?.bind fun s => s.properties[j]?) = none from hp]
    rw [heq]
    refine ⟨h, .refl ss, ?_⟩
    intro q hq
    rw [hp] at hq
    cases hq
  | some p =>
    -- The sources to attach are found before the first one is; they are nested ones all along.
    have hstep : ∀ ts, PartlyLinked ts ∧ AllGrow ss ts → ∀ g ∈ nested ss i p,
        (PartlyLinked (linkNested i j ts g) ∧ AllGrow ss (linkNested i j ts g)) ∧
          LinkedTo i j (linkNested i j ts g) g ∧
            ∀ g', LinkedTo i j ts g' → LinkedTo i j (linkNested i j ts g) g' := by
      rintro ts ⟨hts, hgrow⟩ g hg
      have hnext := linkNested_grows i j ts g
      refine ⟨⟨linkNested_partlyLinked hts ?_, hgrow.trans hnext⟩,
        linkNested_linkedTo hts.numbered g, fun g' hg' => hg'.grow hnext hts.numbered⟩
      intro q hq
      obtain ⟨p', hp', hpq⟩ := hgrow.property?_right hq
      obtain rfl : p' = p := Option.some.inj (hp'.symm.trans hp)
      obtain ⟨t, ht, hst⟩ := forall₂_mem_left (hgrow.nested i hpq) hg
      exact ⟨t, ht, hst.index, hst.bindings_eq⟩
    obtain ⟨⟨hlinked, hgrow⟩, hall, -⟩ := foldl_settles hstep ⟨h, .refl ss⟩
    rw [linkProperty_eq hp]
    refine ⟨hlinked, hgrow, ?_⟩
    intro q hq t ht
    obtain ⟨p', hp', hpq⟩ := hgrow.property?_right hq
    obtain rfl : p' = p := Option.some.inj (hp'.symm.trans hp)
    obtain ⟨g, hg, hst⟩ := forall₂_mem_right (hgrow.nested i hpq) ht
    have hto := hall g hg
    unfold LinkedTo at hto ⊢
    rw [hst.index, hst.bindings_eq]
    exact hto

theorem linkSource_spec (i : Nat) (h : PartlyLinked ss) :
    PartlyLinked (linkSource ss i) ∧ AllGrow ss (linkSource ss i) ∧
      LinkedSource (linkSource ss i) i := by
  unfold linkSource
  cases hi : ss[i]? with
  | none =>
    refine ⟨h, .refl ss, ?_⟩
    intro j p hp
    simp [property?, hi] at hp
  | some s =>
    have hstep : ∀ ts, PartlyLinked ts ∧ AllGrow ss ts → ∀ j ∈ List.range s.properties.length,
        (PartlyLinked (linkProperty i ts j) ∧ AllGrow ss (linkProperty i ts j)) ∧
          LinkedAt i (linkProperty i ts j) j ∧
            ∀ j', LinkedAt i ts j' → LinkedAt i (linkProperty i ts j) j' := by
      rintro ts ⟨hts, hgrow⟩ j -
      obtain ⟨hlinked, hnext, hat⟩ := linkProperty_spec i j hts
      exact ⟨⟨hlinked, hgrow.trans hnext⟩, hat, fun j' hj' => hj'.grow hnext hts.numbered⟩
    obtain ⟨⟨hlinked, hgrow⟩, hall, -⟩ := foldl_settles hstep ⟨h, .refl ss⟩
    refine ⟨hlinked, hgrow, ?_⟩
    intro j q hq
    obtain ⟨p, hp, -⟩ := hgrow.property?_right hq
    have hj : j < s.properties.length := by
      rw [property?, hi] at hp
      exact (List.getElem?_eq_some_iff.mp hp).1
    exact hall j (List.mem_range.mpr hj) q hq

theorem mem_linkOrder {i : Nat} {s : Source} (hs : Numbered ss) (hi : ss[i]? = some s) :
    i ∈ linkOrder ss := by
  unfold linkOrder
  refine List.mem_map.mpr ⟨(s.index, s.linkKey), ?_, hs i s hi⟩
  exact mem_sortBy.mpr (List.mem_map.mpr ⟨s, List.mem_of_getElem? hi, rfl⟩)

/-- Sources that nothing has been attached to. -/
structure Unlinked (sources : List Source) : Prop where
  numbered : Numbered sources
  dependents : ∀ i j p, property? sources i j = some p → p.dependents = []
  assigned : ∀ i j p, property? sources i j = some p → p.assigned = p.bindings

theorem Unlinked.partlyLinked (h : Unlinked ss) : PartlyLinked ss where
  numbered := h.numbered
  dependents := by
    intro i j p hp d hd
    rw [h.dependents i j p hp] at hd
    cases hd
  assigned := by
    intro i j p hp
    rw [h.assigned i j p hp]
    exact List.Subset.refl _
  kept := by
    intro i j p hp b hb _
    rw [h.assigned i j p hp]
    exact hb

/-- Sources whose properties all have been linked to the sources that are nested in them. -/
structure Linked (sources : List Source) : Prop extends PartlyLinked sources where
  linkedAt : ∀ i j, LinkedAt i sources j

/-- Once some sources have had their turn, all that is said of linked sources holds of them. -/
theorem foldl_linkSource_spec (h : PartlyLinked ss) (is : List Nat) :
    PartlyLinked (is.foldl linkSource ss) ∧ AllGrow ss (is.foldl linkSource ss) ∧
      ∀ i ∈ is, LinkedSource (is.foldl linkSource ss) i := by
  have hstep : ∀ ts, PartlyLinked ts ∧ AllGrow ss ts → ∀ i ∈ is,
      (PartlyLinked (linkSource ts i) ∧ AllGrow ss (linkSource ts i)) ∧
        LinkedSource (linkSource ts i) i ∧
          ∀ i', LinkedSource ts i' → LinkedSource (linkSource ts i) i' := by
    rintro ts ⟨hts, hgrow⟩ i -
    obtain ⟨hlinked, hnext, hat⟩ := linkSource_spec i hts
    exact ⟨⟨hlinked, hgrow.trans hnext⟩, hat, fun i' hi' j => (hi' j).grow hnext hts.numbered⟩
  obtain ⟨⟨hlinked, hgrow⟩, hall, -⟩ := foldl_settles hstep ⟨h, .refl ss⟩
  exact ⟨hlinked, hgrow, hall⟩

theorem link_grows_linked (h : Unlinked ss) : AllGrow ss (link ss) ∧ Linked (link ss) := by
  obtain ⟨hlinked, hgrow, hall⟩ := foldl_linkSource_spec h.partlyLinked (linkOrder ss)
  refine ⟨hgrow, hlinked, ?_⟩
  intro i j q hq
  obtain ⟨p, hp, -⟩ := hgrow.property?_right hq
  obtain ⟨s, hs, -⟩ := property?_eq_some_iff.mp hp
  exact hall i (mem_linkOrder h.numbered hs) j q hq

section Linked

variable (h : Linked ss) {i j : Nat} {p : ObservedProperty}
include h

theorem Linked.mem_tree (hp : property? ss i j = some p) {g : Source} (hg : g ∈ nested ss i p) :
    g.index ∈ tree ss p.dependents :=
  (h.linkedAt i j p hp g hg p hp).1

/-- A property assigns the bindings that no nested source reads. -/
theorem Linked.mem_assigned_iff (hp : property? ss i j = some p) {b : Nat} :
    b ∈ p.assigned ↔ b ∈ p.bindings ∧ ∀ g ∈ nested ss i p, b ∉ g.bindings := by
  constructor
  · intro hb
    exact ⟨h.assigned i j p hp hb, fun g hg => (h.linkedAt i j p hp g hg p hp).2 b hb⟩
  · rintro ⟨hb, hfree⟩
    exact h.kept i j p hp b hb hfree

end Linked

variable {r : Registry} {dependencyType : Option TypeRef} {bs : List Binding}

theorem ofBindings_unlinked : Unlinked (ofBindings r dependencyType bs) where
  numbered := ofBindings_numbered
  dependents := by
    intro i j p hp
    obtain ⟨s, hs, hj⟩ := property?_eq_some_iff.mp hp
    exact (ofBindings_property (List.mem_of_getElem? hs) (List.mem_of_getElem? hj)).2.1
  assigned := by
    intro i j p hp
    obtain ⟨s, hs, hj⟩ := property?_eq_some_iff.mp hp
    exact (ofBindings_property (List.mem_of_getElem? hs) (List.mem_of_getElem? hj)).1

end Source
end DataBinding
