import DataBinding.Proofs.Observation.Partition
import DataBinding.Proofs.Observation.Turns

/-!
# Dependents of properties

Linking loses no binding: a property assigns a binding itself, or a source that its changes renew reads it.
No source is a dependent of a property twice. But one dependent may be reached from another one. A nested
source is attached when none of those attached before it reaches it so far, and it may be reached only later:
through a source whose turn comes later, since its key is lesser, or through one with a greater number.
-/
namespace DataBinding.Source

variable {ss : List Source} {s g : Source} {p : ObservedProperty} {i j a b : Nat}

/-! ## What is attached -/

theorem pairwise_nested (h : Numbered ss) (i : Nat) (p : ObservedProperty) :
    ((nested ss i p).map (·.index)).Pairwise (· < ·) := by
  have hall : (ss.map (·.index)).Pairwise (· < ·) := by
    rw [h.map_index]
    exact List.pairwise_lt_range
  exact hall.sublist (List.filter_sublist.map _)

/-- No source in the list is reached from another one. -/
def Independent (sources : List Source) (ds : List Nat) : Prop :=
  ∀ a ∈ ds, ∀ b ∈ ds, a ≠ b → b ∉ tree sources [a]

theorem tree_trans {c : Nat} (hab : b ∈ tree ss [a]) (hbc : c ∈ tree ss [b]) : c ∈ tree ss [a] :=
  mem_tree_singleton.mpr ((mem_tree_singleton.mp hab).trans (mem_tree_singleton.mp hbc))

theorem mem_linkOrder_of_link (h : Unlinked ss) (hs : (link ss)[i]? = some s) : i ∈ linkOrder ss := by
  obtain ⟨s₀, hs₀, -⟩ := forall₂_getElem?_right (link_grows_linked h).1 hs
  exact mem_linkOrder h.numbered hs₀

section Grounded

variable (h : Grounded ss) (hp : property? (link ss) i j = some p)
include h

theorem Grounded.linked : Linked (link ss) := (link_grows_linked h.toUnlinked).2

theorem Grounded.tree_antisymm (hab : b ∈ tree (link ss) [a]) (hba : a ∈ tree (link ss) [b]) : a = b := by
  have hgrow := (link_grows_linked h.toUnlinked).1
  have hnests := Relation.ReflTransGen.mono fun x y (hxy : (graph (link ss)).Edge x y) =>
    hgrow.nests_iff.mp (h.linked.nests_of_edge hxy)
  rcases (hnests a b (mem_tree_singleton.mp hab)).cases_head with heq | ⟨c, hac, hcb⟩
  · exact heq
  · exact absurd (hcb.trans (hnests b a (mem_tree_singleton.mp hba))) (h.acyclic a c hac)

include hp

theorem Grounded.nodup_dependents : p.dependents.Nodup := by
  rw [dependents_link h hp]
  apply List.Nodup.sublist (greedy_sublist _ _)
  exact (pairwise_nested h.linked.numbered i p).imp Nat.ne_of_lt

/-- A nested source is attached unless one with a lesser number reaches it when the turn comes. -/
theorem Grounded.mem_dependents_iff {d : Nat} :
    d ∈ p.dependents ↔ (∃ g ∈ nested (link ss) i p, g.index = d) ∧
      ∀ e ∈ nested (link ss) i p, e.index < d → d ∉ tree (atTurn ss i) [e.index] := by
  have htrans : ∀ a b c, reaches (atTurn ss i) a b = true → reaches (atTurn ss i) b c = true →
      reaches (atTurn ss i) a c = true := by
    simp only [reaches_iff]
    exact fun a b c => tree_trans
  rw [dependents_link h hp, mem_greedy_iff htrans (pairwise_nested h.linked.numbered i p)]
  simp [← Bool.not_eq_true, reaches_iff]

/-- No dependent is reached from another one if and only if a nested source that another one reaches in the
end is reached from one with a lesser number already when the turn comes. -/
theorem Grounded.independent_iff :
    Independent (link ss) p.dependents ↔
      ∀ f ∈ nested (link ss) i p, ∀ g ∈ nested (link ss) i p, f.index ≠ g.index →
        g.index ∈ tree (link ss) [f.index] →
          ∃ e ∈ nested (link ss) i p, e.index < g.index ∧ g.index ∈ tree (atTurn ss i) [e.index] := by
  constructor
  · intro hindependent f hf g hg hne hreach
    by_contra hnone
    have hattached : g.index ∈ p.dependents := by
      apply (h.mem_dependents_iff hp).mpr
      exact ⟨⟨g, hg, rfl⟩, fun e he hlt hturn => hnone ⟨e, he, hlt, hturn⟩⟩
    -- The first of the two is attached, or what rules it out reaches the second one as well.
    have hgreedy := mem_greedy_or_ruledOut (reaches (atTurn ss i))
      (List.mem_map_of_mem (f := (·.index)) hf)
    rw [← dependents_link h hp] at hgreedy
    rcases hgreedy with hf' | ⟨d, hd, hdf⟩
    · exact hindependent f.index hf' g.index hattached hne hreach
    · obtain ⟨s, hs, -⟩ := property?_eq_some_iff.mp hp
      have hgrow := atTurn_grows_link h.partlyLinked (mem_linkOrder_of_link h.toUnlinked hs)
      have hturn := (atTurn_spec h.partlyLinked i).1.numbered
      have hdf : f.index ∈ tree (link ss) [d] :=
        hgrow.tree_subset hturn (List.Subset.refl _) (reaches_iff.mp hdf)
      by_cases hdg : d = g.index
      · subst hdg
        exact hne (h.tree_antisymm hreach hdf)
      · exact hindependent d hd g.index hattached hdg (tree_trans hdf hreach)
  · intro hreached a ha b hb hne hreach
    obtain ⟨⟨f, hf, rfl⟩, -⟩ := (h.mem_dependents_iff hp).mp ha
    obtain ⟨⟨g, hg, rfl⟩, hfree⟩ := (h.mem_dependents_iff hp).mp hb
    obtain ⟨e, he, hlt, hturn⟩ := hreached f hf g hg hne hreach
    exact hfree e he hlt hturn

end Grounded

/-! ## Sources that wait for their turns -/

/-- A source is changed if and only if something is nested in it. -/
theorem getElem?_link_eq_iff (h : Unlinked ss) : ss[a]? = (link ss)[a]? ↔ ∀ b, ¬ Nests (link ss) a b := by
  obtain ⟨hgrow, hlinked⟩ := link_grows_linked h
  constructor
  · rintro hsame b ⟨j, p, hp, g, hg, -⟩
    have hempty : p.dependents = [] := by
      apply h.dependents a j p
      rw [property?, hsame]
      exact hp
    have hreach := hlinked.mem_tree hp hg
    rw [hempty] at hreach
    simp [mem_tree_iff] at hreach
  · intro hnone
    cases ha : ss[a]? with
    | none =>
      have hlength := hgrow.length_eq
      rw [List.getElem?_eq_none_iff] at ha
      exact (List.getElem?_eq_none_iff.mpr (hlength ▸ ha)).symm
    | some s =>
      have hturn : linkSource (atTurn ss a) a = atTurn ss a := by
        apply linkSource_eq_self
        intro j p hp
        apply List.eq_nil_iff_forall_not_mem.mpr
        intro g hg
        apply hnone g.index
        rw [hgrow.nests_iff, ← (atTurn_spec h.partlyLinked a).2.nests_iff]
        exact ⟨j, p, hp, g, hg, rfl⟩
      rw [getElem?_link h.numbered (mem_linkOrder h.numbered ha), hturn,
        getElem?_atTurn_of_not_mem (not_mem_linkedBefore ss a), ha]

/-- When the turn of a source comes, another one is as it will be in the end if and only if it has had its
turn or nothing is nested in it. -/
theorem getElem?_atTurn_eq_iff (h : Unlinked ss) (hi : i ∈ linkOrder ss) :
    (atTurn ss i)[a]? = (link ss)[a]? ↔ a ∈ linkedBefore ss i ∨ ∀ b, ¬ Nests (link ss) a b := by
  by_cases ha : a ∈ linkedBefore ss i
  · simp [ha, getElem?_atTurn_of_mem h.numbered hi ha]
  · rw [getElem?_atTurn_of_not_mem ha, getElem?_link_eq_iff h]
    simp [ha]

/-! ## Ascending keys -/

theorem mem_linkedBefore_link_iff (h : Unlinked ss) (hs : (link ss)[i]? = some s) (hg : (link ss)[a]? = some g)
    (hne : s.linkKey ≠ g.linkKey) : a ∈ linkedBefore ss i ↔ s.linkKey < g.linkKey := by
  obtain ⟨s₀, hs₀, hsgrows⟩ := forall₂_getElem?_right (link_grows_linked h).1 hs
  obtain ⟨g₀, hg₀, hggrows⟩ := forall₂_getElem?_right (link_grows_linked h).1 hg
  rw [hsgrows.linkKey, hggrows.linkKey] at hne ⊢
  exact mem_linkedBefore_iff h.numbered hs₀ hg₀ hne

theorem Nests.exists_sources (h : Numbered ss) (hab : Nests ss a b) :
    ∃ s g, ss[a]? = some s ∧ ss[b]? = some g := by
  obtain ⟨j, p, hp, g, hg, rfl⟩ := hab
  obtain ⟨s, hs, -⟩ := property?_eq_some_iff.mp hp
  exact ⟨s, g, hs, h.getElem?_index (List.mem_of_mem_filter hg)⟩

/-- Sources have lesser numbers and lesser keys than those nested in them. -/
def Ascending (sources : List Source) : Prop :=
  ∀ a b s g, Nests sources a b → sources[a]? = some s → sources[b]? = some g → a < b ∧ s.linkKey < g.linkKey

namespace Ascending

theorem of_transGen (h : Ascending ss) (hss : Numbered ss) (hab : Relation.TransGen (Nests ss) a b) :
    ∃ s g, ss[a]? = some s ∧ ss[b]? = some g ∧ a < b ∧ s.linkKey < g.linkKey := by
  induction hab with
  | single hstep =>
    obtain ⟨s, g, hs, hg⟩ := hstep.exists_sources hss
    exact ⟨s, g, hs, hg, h _ _ s g hstep hs hg⟩
  | tail _ hstep ih =>
    obtain ⟨s, g, hs, hg, hlt, hkey⟩ := ih
    obtain ⟨g', t, hg', ht⟩ := hstep.exists_sources hss
    obtain rfl : g = g' := Option.some.inj (hg.symm.trans hg')
    obtain ⟨hlt', hkey'⟩ := h _ _ g t hstep hg ht
    exact ⟨s, t, hs, ht, Nat.lt_trans hlt hlt', String.lt_trans hkey hkey'⟩

variable (h : Unlinked ss) (hascending : Ascending (link ss))
include h hascending

/-- What is nested below a source is as it will be in the end when the turn of the source comes. -/
theorem getElem?_atTurn (hia : Relation.TransGen (Nests (link ss)) i a) :
    (atTurn ss i)[a]? = (link ss)[a]? := by
  obtain ⟨s, g, hs, hg, -, hkey⟩ := hascending.of_transGen (link_grows_linked h).2.numbered hia
  have hne : s.linkKey ≠ g.linkKey := fun heq => String.lt_irrefl _ (heq ▸ hkey)
  have hbefore := (mem_linkedBefore_link_iff h hs hg hne).mpr hkey
  exact getElem?_atTurn_of_mem h.numbered (mem_linkOrder_of_link h hs) hbefore

theorem mem_tree_atTurn (hia : Nests (link ss) i a) (hab : b ∈ tree (link ss) [a]) :
    b ∈ tree (atTurn ss i) [a] := by
  have hlinked := (link_grows_linked h).2
  replace hab := mem_tree_singleton.mp hab
  apply mem_tree_singleton.mpr
  induction hab with
  | refl => exact .refl
  | @tail x y hpath hedge ih =>
    have hbelow : Relation.TransGen (Nests (link ss)) i x :=
      .head' hia (Relation.ReflTransGen.mono (fun _ _ hxy => hlinked.nests_of_edge hxy) _ _ hpath)
    rw [edge_graph_iff hlinked.numbered] at hedge
    refine ih.tail ((edge_graph_iff (atTurn_spec h.partlyLinked i).1.numbered).mpr ?_)
    simpa only [property?, getElem?_atTurn h hascending hbelow] using hedge

end Ascending

theorem Grounded.independent (h : Grounded ss) (hascending : Ascending (link ss))
    (hp : property? (link ss) i j = some p) : Independent (link ss) p.dependents := by
  apply (h.independent_iff hp).mpr
  intro f hf g hg hne hreach
  have hpath := Relation.ReflTransGen.mono (fun _ _ hxy => h.linked.nests_of_edge hxy) _ _
    (mem_tree_singleton.mp hreach)
  rcases Relation.reflTransGen_iff_eq_or_transGen.mp hpath with heq | hpath
  · exact absurd heq.symm hne
  · obtain ⟨-, -, -, -, hlt, -⟩ := hascending.of_transGen h.linked.numbered hpath
    exact ⟨f, hf, hlt, hascending.mem_tree_atTurn h.toUnlinked ⟨j, p, hp, f, hf, rfl⟩ hreach⟩

/-! ## Networks of bindings -/

section Network

variable {r : Registry} {dependencyType : Option TypeRef} {bs : List Binding}

/-- Linking loses no binding. The bindings of the properties stay as they are. A property assigns some of
them, in their order; sources that its changes renew read the others. Every other source whose owner contains
the property's access is renewed. -/
theorem network_retains :
    (network r dependencyType bs).map (fun s => s.properties.map (·.bindings)) =
      (ofBindings r dependencyType bs).map (fun s => s.properties.map (·.bindings)) ∧
    ∀ s ∈ network r dependencyType bs, ∀ p ∈ s.properties, p.assigned.Sublist p.bindings ∧
      (∀ b ∈ p.bindings, b ∈ p.assigned ∨ ∃ g ∈ network r dependencyType bs,
        g.index ∈ tree (network r dependencyType bs) p.dependents ∧ b ∈ g.bindings) ∧
      ∀ g ∈ network r dependencyType bs, g.index ≠ s.index →
        g.owner.stripped.containsKey p.access.key = true →
          g.index ∈ tree (network r dependencyType bs) p.dependents := by
  constructor
  · exact (forall₂_map_eq (fun _ _ hst => hst.map_bindings.symm) network_grows).symm
  · intro s hs p hp
    obtain ⟨j, hprop⟩ := property?_of_mem hs hp
    refine ⟨?_, ?_, ?_⟩
    · obtain ⟨p₀, hp₀, hgrows⟩ := network_grows.property?_right hprop
      rw [hgrows.bindings, ← ofBindings_unlinked.assigned s.index j p₀ hp₀]
      exact hgrows.assigned
    · intro b hb
      by_cases hfree : ∀ g ∈ nested (network r dependencyType bs) s.index p, b ∉ g.bindings
      · exact Or.inl ((network_linked.mem_assigned_iff hprop).mpr ⟨hb, hfree⟩)
      · push Not at hfree
        obtain ⟨g, hg, hbg⟩ := hfree
        exact Or.inr ⟨g, List.mem_of_mem_filter hg, network_linked.mem_tree hprop hg, hbg⟩
    · intro g hg hne hcontains
      apply network_linked.mem_tree hprop
      exact List.mem_filter.mpr ⟨hg, by simp [hne, hcontains]⟩

/-- The first property of a path leaves its binding to the source at the second one. -/
theorem path_retains :
    ∃ sc, NodePage.scope ["Top.Next.Text"] = .ok sc ∧
      ∃ s ∈ network sc.registry sc.dependencyType sc.bindings, ∃ p ∈ s.properties, ∃ b ∈ p.bindings,
        b ∉ p.assigned ∧ ∃ g ∈ network sc.registry sc.dependencyType sc.bindings,
          g.index ∈ tree (network sc.registry sc.dependencyType sc.bindings) p.dependents ∧
            b ∈ g.bindings := by
  obtain ⟨sc, hsc, hfound⟩ := NodePage.exists_scope ["Top.Next.Text"]
    (fun sc => (network sc.registry sc.dependencyType sc.bindings).any fun s =>
      s.properties.any fun p => p.bindings.any fun b => decide (b ∉ p.assigned))
    (by decide +kernel)
  simp only [List.any_eq_true, decide_eq_true_eq] at hfound
  obtain ⟨s, hs, p, hp, b, hb, hnot⟩ := hfound
  exact ⟨sc, hsc, s, hs, p, hp, b, hb, hnot, ((network_retains.2 s hs p hp).2.1 b hb).resolve_left hnot⟩

def ownerLength (sources : List Source) (a : Nat) : Nat := sources[a]?.elim 0 (·.owner.key.length)

section Length

variable (hbs : ∀ b ∈ bs, b.WellFormed)
include hbs

theorem ownerLength_lt_of_nests (h : Nests (network r dependencyType bs) a b) :
    ownerLength (network r dependencyType bs) a < ownerLength (network r dependencyType bs) b := by
  obtain ⟨j, p, hp, g, hg, rfl⟩ := h
  obtain ⟨s, hs, hj⟩ := property?_eq_some_iff.mp hp
  have hindex : s.index = a := network_linked.numbered a s hs
  have hlt := length_owner_lt_of_nested hbs (List.mem_of_getElem? hs) (List.mem_of_getElem? hj) (hindex ▸ hg)
  have hgmem := network_linked.numbered.getElem?_index (List.mem_of_mem_filter hg)
  simpa [ownerLength, hs, hgmem] using hlt

theorem ownerLength_le (h : Relation.ReflTransGen (Nests (network r dependencyType bs)) a b) :
    ownerLength (network r dependencyType bs) a ≤ ownerLength (network r dependencyType bs) b := by
  induction h with
  | refl => exact Nat.le_refl _
  | tail _ hstep ih => exact Nat.le_of_lt (Nat.lt_of_le_of_lt ih (ownerLength_lt_of_nests hbs hstep))

/-- Owners become longer and longer, so nesting never leads back. -/
theorem ofBindings_grounded : Grounded (ofBindings r dependencyType bs) where
  toUnlinked := ofBindings_unlinked
  acyclic a b hab hba := by
    have hlt := ownerLength_lt_of_nests hbs (network_grows.nests_iff.mpr hab)
    have hle := ownerLength_le hbs (Relation.ReflTransGen.mono (fun _ _ => network_grows.nests_iff.mpr) b a hba)
    exact Nat.not_lt.mpr hle hlt

theorem linkKey_ne_of_nested (hs : s ∈ network r dependencyType bs) (hp : p ∈ s.properties)
    (hg : g ∈ nested (network r dependencyType bs) s.index p) : s.linkKey ≠ g.linkKey := by
  intro heq
  have hle := length_linkKey_le hbs hs
  have hlt := length_owner_lt_linkKey hbs hs hp hg
  rw [heq] at hle
  omega

/-- Nested sources whose keys are lesser, and only those, have to wait for their turns. -/
theorem atTurn_network_iff (hs : s ∈ network r dependencyType bs) (hp : p ∈ s.properties)
    (hg : g ∈ nested (network r dependencyType bs) s.index p) :
    (atTurn (ofBindings r dependencyType bs) s.index)[g.index]? = (network r dependencyType bs)[g.index]? ↔
      s.linkKey < g.linkKey ∨ ∀ b, ¬ Nests (network r dependencyType bs) g.index b := by
  have hsi := network_linked.numbered.getElem?_index hs
  have hgi := network_linked.numbered.getElem?_index (List.mem_of_mem_filter hg)
  have hturn := mem_linkOrder_of_link ofBindings_unlinked hsi
  rw [network, getElem?_atTurn_eq_iff ofBindings_unlinked hturn,
    mem_linkedBefore_link_iff ofBindings_unlinked hsi hgi (linkKey_ne_of_nested hbs hs hp hg)]

end Length

/-! ## Paths -/

/-- No owner stands in parentheses or under a cast, and an owner that contains the access of a property begins
with it. -/
def Straight (sources : List Source) : Prop :=
  ∀ s ∈ sources, s.linkKey = s.owner.key ∧ ∀ p ∈ s.properties, ∀ g ∈ nested sources s.index p,
    p.access.key.toList <+: g.owner.key.toList

instance (sources : List Source) : Decidable (Straight sources) :=
  inferInstanceAs (Decidable (∀ s ∈ sources, s.linkKey = s.owner.key ∧ ∀ p ∈ s.properties,
    ∀ g ∈ nested sources s.index p, p.access.key.toList <+: g.owner.key.toList))

theorem pairwise_network : (network r dependencyType bs).Pairwise fun s t => s.owner.key < t.owner.key := by
  have hkeys : (network r dependencyType bs).map (·.owner.key) =
      (ofBindings r dependencyType bs).map (·.owner.key) :=
    (forall₂_map_eq (fun _ _ hst => by rw [hst.owner]) network_grows).symm
  have hordered := List.pairwise_map.mpr (pairwise_ofObservations (Observation.all r dependencyType bs))
  exact List.pairwise_map.mp (hkeys ▸ hordered)

theorem lt_of_owner_key_lt (hs : (network r dependencyType bs)[a]? = some s)
    (hg : (network r dependencyType bs)[b]? = some g) (hlt : s.owner.key < g.owner.key) : a < b := by
  obtain ⟨ha, rfl⟩ := List.getElem?_eq_some_iff.mp hs
  obtain ⟨hb, rfl⟩ := List.getElem?_eq_some_iff.mp hg
  by_contra hle
  rcases Nat.lt_or_eq_of_le (Nat.le_of_not_lt hle) with hba | rfl
  · exact String.lt_asymm hlt (List.pairwise_iff_getElem.mp pairwise_network b a hb ha hba)
  · exact String.lt_irrefl _ hlt

/-- Along paths, keys ascend: that of a source is a proper front part of those of the sources nested in it. -/
theorem Straight.ascending (h : Straight (network r dependencyType bs)) :
    Ascending (network r dependencyType bs) := by
  rintro a b s g ⟨j, p, hp, g', hg', rfl⟩ hs hg
  obtain ⟨s', hs', hj⟩ := property?_eq_some_iff.mp hp
  obtain rfl : s = s' := Option.some.inj (hs.symm.trans hs')
  have hsmem := List.mem_of_getElem? hs
  have hgmem := List.mem_of_mem_filter hg'
  obtain rfl : g' = g := Option.some.inj ((network_linked.numbered.getElem?_index hgmem).symm.trans hg)
  obtain rfl : s.index = a := network_linked.numbered a s hs
  obtain ⟨hkeys, hbegins⟩ := h s hsmem
  obtain ⟨owner, m, marker, haccess, howner⟩ := exists_access hsmem (List.mem_of_getElem? hj)
  obtain ⟨rest, hkey, hrest⟩ := Expr.key_of_access? haccess
  have hlt : s.owner.key < g'.owner.key := by
    obtain ⟨more, hmore⟩ := hbegins p (List.mem_of_getElem? hj) g' hg'
    have hfront : s.owner.key.toList <+: g'.owner.key.toList := by
      refine ⟨rest.toList ++ more, ?_⟩
      rw [← hmore, hkey, howner, String.toList_append, List.append_assoc]
    refine Std.lt_of_le_of_ne hfront.le fun heq => ?_
    have hlength := congrArg List.length hmore
    rw [← heq, hkey, howner, List.length_append, String.length_toList, String.length_append,
      String.length_toList] at hlength
    omega
  refine ⟨lt_of_owner_key_lt hs hg hlt, ?_⟩
  rw [hkeys, (h g' hgmem).1]
  exact hlt

/-- No source is a dependent of a property twice. No dependent is reached from another one if and only if every
nested source that another one reaches is reached from one with a lesser number when the turn comes. A nested
source has its dependents by then if and only if its key is greater or nothing is nested in it. If keys
ascend, as they do along paths, both hold. -/
theorem network_dependents
    (hread : ∀ b ∈ bs, ∃ c site number next, Binding.ofSite c site number = .ok (b, next))
    (hs : s ∈ network r dependencyType bs) (hp : p ∈ s.properties) :
    p.dependents.Nodup ∧
    (Independent (network r dependencyType bs) p.dependents ↔
      ∀ f ∈ nested (network r dependencyType bs) s.index p,
        ∀ g ∈ nested (network r dependencyType bs) s.index p, f.index ≠ g.index →
          g.index ∈ tree (network r dependencyType bs) [f.index] →
            ∃ e ∈ nested (network r dependencyType bs) s.index p, e.index < g.index ∧
              g.index ∈ tree (atTurn (ofBindings r dependencyType bs) s.index) [e.index]) ∧
    (∀ g ∈ nested (network r dependencyType bs) s.index p,
      (atTurn (ofBindings r dependencyType bs) s.index)[g.index]? = (network r dependencyType bs)[g.index]? ↔
        s.linkKey < g.linkKey ∨ ∀ b, ¬ Nests (network r dependencyType bs) g.index b) ∧
    (Straight (network r dependencyType bs) → Ascending (network r dependencyType bs)) ∧
    (Ascending (network r dependencyType bs) → Independent (network r dependencyType bs) p.dependents ∧
      ∀ g ∈ nested (network r dependencyType bs) s.index p,
        (atTurn (ofBindings r dependencyType bs) s.index)[g.index]? =
          (network r dependencyType bs)[g.index]?) := by
  have hbs : ∀ b ∈ bs, b.WellFormed := by
    intro b hb
    obtain ⟨c, site, number, next, hsite⟩ := hread b hb
    exact Binding.ofSite_wellFormed hsite
  have hground : Grounded (ofBindings r dependencyType bs) := ofBindings_grounded hbs
  obtain ⟨j, hprop⟩ := property?_of_mem hs hp
  refine ⟨hground.nodup_dependents hprop, hground.independent_iff hprop,
    fun g hg => atTurn_network_iff hbs hs hp hg, Straight.ascending, fun hascending => ⟨?_, ?_⟩⟩
  · exact hground.independent hascending hprop
  · intro g hg
    exact hascending.getElem?_atTurn ofBindings_unlinked (.single ⟨j, p, hprop, g, hg, rfl⟩)

/-- Of two sources nested in the first property of a path, the one that the other one reaches is left out. -/
theorem path_dependents :
    ∃ sc, NodePage.scope ["Top.Next.Next.Text"] = .ok sc ∧
      Straight (network sc.registry sc.dependencyType sc.bindings) ∧
      ∃ s ∈ network sc.registry sc.dependencyType sc.bindings, ∃ p ∈ s.properties,
        (∃ f ∈ nested (network sc.registry sc.dependencyType sc.bindings) s.index p,
          ∃ g ∈ nested (network sc.registry sc.dependencyType sc.bindings) s.index p, f.index ≠ g.index ∧
            g.index ∈ tree (network sc.registry sc.dependencyType sc.bindings) [f.index]) ∧
        Independent (network sc.registry sc.dependencyType sc.bindings) p.dependents ∧
        ∀ g ∈ nested (network sc.registry sc.dependencyType sc.bindings) s.index p,
          (atTurn (ofBindings sc.registry sc.dependencyType sc.bindings) s.index)[g.index]? =
            (network sc.registry sc.dependencyType sc.bindings)[g.index]? := by
  obtain ⟨sc, hsc, hfound⟩ := NodePage.exists_scope ["Top.Next.Next.Text"]
    (fun sc =>
      let sources := network sc.registry sc.dependencyType sc.bindings
      decide (Straight sources) && sources.any fun s => s.properties.any fun p =>
        (nested sources s.index p).any fun f => (nested sources s.index p).any fun g =>
          f.index != g.index && reaches sources f.index g.index)
    (by decide +kernel)
  simp only [List.any_eq_true, Bool.and_eq_true, bne_iff_ne, decide_eq_true_eq, reaches_iff] at hfound
  obtain ⟨hstraight, s, hs, p, hp, htwo⟩ := hfound
  have hread : ∀ b ∈ sc.bindings, ∃ c site number next, Binding.ofSite c site number = .ok (b, next) :=
    fun b hb => ⟨_, Scope.ofSites_bound hsc b hb⟩
  obtain ⟨-, -, -, hpaths, hascending⟩ := network_dependents hread hs hp
  exact ⟨sc, hsc, hstraight, s, hs, p, hp, htwo, hascending (hpaths hstraight)⟩

/-- Without ascending keys, two dependents of a property may be such that one is reached from the other, and a
nested source may still wait for its own dependents. -/
theorem coalesced_dependents :
    ∃ sc, NodePage.scope ["(Top.Next ?? Top.Side).Next.Text"] = .ok sc ∧
      ∃ s ∈ network sc.registry sc.dependencyType sc.bindings, ∃ p ∈ s.properties,
        ¬ Independent (network sc.registry sc.dependencyType sc.bindings) p.dependents ∧
        ∃ g ∈ nested (network sc.registry sc.dependencyType sc.bindings) s.index p,
          (atTurn (ofBindings sc.registry sc.dependencyType sc.bindings) s.index)[g.index]? ≠
            (network sc.registry sc.dependencyType sc.bindings)[g.index]? := by
  obtain ⟨sc, hsc, hfound⟩ := NodePage.exists_scope ["(Top.Next ?? Top.Side).Next.Text"]
    (fun sc =>
      let sources := network sc.registry sc.dependencyType sc.bindings
      let before := atTurn (ofBindings sc.registry sc.dependencyType sc.bindings)
      let dependents : Option Source → List (List Nat) := fun s? => s?.elim [] (·.properties.map (·.dependents))
      sources.any fun s => s.properties.any fun p =>
        (p.dependents.any fun a => p.dependents.any fun b => a != b && reaches sources a b) &&
          (nested sources s.index p).any fun g =>
            dependents (before s.index)[g.index]? != dependents sources[g.index]?)
    (by decide +kernel)
  simp only [List.any_eq_true, Bool.and_eq_true, bne_iff_ne, reaches_iff] at hfound
  obtain ⟨s, hs, p, hp, ⟨a, ha, b, hb, hne, hreach⟩, g, hg, hwaits⟩ := hfound
  refine ⟨sc, hsc, s, hs, p, hp, fun hindependent => hindependent a ha b hb hne hreach, g, hg, fun heq => ?_⟩
  exact hwaits (by rw [heq])

-- Along a path, each property renews the source behind it.
example : ((NodePage.scope ["Top.Next.Text"]).toOption.map fun sc =>
      (network sc.registry sc.dependencyType sc.bindings).map fun s => (s.owner.key, s.properties.map (·.dependents))) =
    some [("dataRoot.Top", [[1]]), ("dataRoot.Top.Next", [[]])] := by decide +kernel

end Network

end DataBinding.Source
