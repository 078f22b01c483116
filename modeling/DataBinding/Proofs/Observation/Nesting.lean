import DataBinding.Proofs.Observation.Linking
import DataBinding.Proofs.Scope.Acceptance

/-!
# Renewal of nested sources

A change of a property renews the sources in the tree of its dependents. These are the sources nested in
the property, the sources nested in properties of those, and so on. A source is nested in a property when
the key of the property's access occurs in its owner; a property keeps one access of those it gathers, so
an owner with another of them need not count. Owners become longer from a source to those nested in it.
-/
namespace DataBinding

def Expr.slotOf (e : Expr) (m : Member) : Slot :=
  if e.isElementAccess then ⟨true, "Item"⟩ else ⟨false, m.name⟩

namespace Source

/-- Does the property of the source gather the access? -/
def gathers (s : Source) (p : ObservedProperty) (e : Expr) : Bool :=
  match e.access? with
  | some (owner, m, _) => owner.key == s.owner.key && e.slotOf m == p.slot
  | none => false

/-- The sources of the bindings with their dependents. -/
def network (r : Registry) (dependencyType : Option TypeRef) (bs : List Binding) : List Source :=
  link (ofBindings r dependencyType bs)

/-- The second source is nested in a property of the first one. -/
def Nests (sources : List Source) (a b : Nat) : Prop :=
  ∃ j p, property? sources a j = some p ∧ ∃ g ∈ nested sources a p, g.index = b

theorem AllGrow.nests_iff {ss ts : List Source} (h : AllGrow ss ts) {a b : Nat} : Nests ts a b ↔ Nests ss a b := by
  constructor
  · rintro ⟨j, q, hq, t, ht, rfl⟩
    obtain ⟨p, hp, hpq⟩ := h.property?_right hq
    obtain ⟨s, hs, hst⟩ := forall₂_mem_right (h.nested a hpq) ht
    exact ⟨j, p, hp, s, hs, hst.index.symm⟩
  · rintro ⟨j, p, hp, s, hs, rfl⟩
    obtain ⟨q, hq, hpq⟩ := h.property?_left hp
    obtain ⟨t, ht, hst⟩ := forall₂_mem_left (h.nested a hpq) hs
    exact ⟨j, q, hq, t, ht, hst.index⟩

theorem PartlyLinked.nests_of_edge {ss : List Source} (h : PartlyLinked ss) {a b : Nat}
    (hab : (graph ss).Edge a b) : Nests ss a b := by
  obtain ⟨j, p, hp, hb⟩ := (edge_graph_iff h.numbered).mp hab
  exact ⟨j, p, hp, h.dependents a j p hp b hb⟩

section Linked

variable {ss : List Source} (h : Linked ss) {i j : Nat} {p : ObservedProperty}
include h

/-- What a change of a property renews, said by nesting alone. -/
theorem Linked.mem_tree_iff_nests (hp : property? ss i j = some p) {d : Nat} :
    d ∈ tree ss p.dependents ↔ ∃ g ∈ nested ss i p, Relation.ReflTransGen (Nests ss) g.index d := by
  constructor
  · intro hd
    obtain ⟨a, ha, had⟩ := Source.mem_tree_iff.mp hd
    obtain ⟨g, hg, rfl⟩ := h.dependents i j p hp a ha
    exact ⟨g, hg, Relation.ReflTransGen.mono (fun _ _ hab => h.nests_of_edge hab) _ _ had⟩
  · rintro ⟨g, hg, hgd⟩
    induction hgd with
    | refl => exact h.mem_tree hp hg
    | tail _ hstep ih =>
      obtain ⟨k, q, hq, t, ht, rfl⟩ := hstep
      exact tree_closed h.numbered ih hq (h.mem_tree hq ht)

end Linked

section Network

variable {r : Registry} {dependencyType : Option TypeRef} {bs : List Binding}

theorem network_grows :
    AllGrow (ofBindings r dependencyType bs) (network r dependencyType bs) :=
  (link_grows_linked ofBindings_unlinked).1

theorem network_linked : Linked (network r dependencyType bs) :=
  (link_grows_linked ofBindings_unlinked).2

theorem network_owner {s : Source} (hs : s ∈ network r dependencyType bs) :
    ∃ o ∈ Observation.all r dependencyType bs, s.owner = o.owner := by
  obtain ⟨s₀, hs₀, hgrows⟩ := forall₂_mem_right network_grows hs
  obtain ⟨o, ho, howner⟩ := exists_owner hs₀
  exact ⟨o, ho, hgrows.owner.trans howner⟩

/-- A property keeps one of the accesses that it gathers, and its bindings are those of observations. -/
theorem network_property {s : Source} {p : ObservedProperty}
    (hs : s ∈ network r dependencyType bs) (hp : p ∈ s.properties) :
    (∃ o ∈ Observation.all r dependencyType bs,
      p.access = o.access ∧ p.slot = o.slot ∧ o.owner.key = s.owner.key) ∧
      ∀ b ∈ p.bindings, ∃ o ∈ Observation.all r dependencyType bs, o.binding = b := by
  obtain ⟨s₀, hs₀, hgrows⟩ := forall₂_mem_right network_grows hs
  obtain ⟨p₀, hp₀, hpgrows⟩ := forall₂_mem_right hgrows.properties hp
  rw [hpgrows.access, hpgrows.slot, hpgrows.bindings, hgrows.owner]
  exact (ofBindings_property hs₀ hp₀).2.2

theorem gathers_iff {s : Source} {p : ObservedProperty} {o : Observation}
    (ho : o ∈ Observation.all r dependencyType bs) :
    s.gathers p o.access = true ↔ o.owner.key = s.owner.key ∧ o.slot = p.slot := by
  obtain ⟨marker, haccess⟩ := Observation.access?_access ho
  simp [gathers, haccess, Expr.slotOf, Observation.slot]

theorem gathers_access {s : Source} {p : ObservedProperty}
    (hs : s ∈ network r dependencyType bs) (hp : p ∈ s.properties) : s.gathers p p.access = true := by
  obtain ⟨⟨o, ho, haccess, hslot, hkey⟩, -⟩ := network_property hs hp
  rw [haccess]
  exact (gathers_iff ho).mpr ⟨hkey, hslot.symm⟩

theorem exists_access {s : Source} {p : ObservedProperty} (hs : s ∈ network r dependencyType bs)
    (hp : p ∈ s.properties) :
    ∃ owner m marker, p.access.access? = some (owner, m, marker) ∧ owner.key = s.owner.key := by
  obtain ⟨⟨o, ho, haccess, -, hkey⟩, -⟩ := network_property hs hp
  obtain ⟨marker, ho?⟩ := Observation.access?_access ho
  exact ⟨o.owner, o.member, marker, haccess ▸ ho?, hkey⟩

theorem property?_of_mem {s : Source} {p : ObservedProperty} (hs : s ∈ network r dependencyType bs)
    (hp : p ∈ s.properties) : ∃ j, property? (network r dependencyType bs) s.index j = some p := by
  obtain ⟨j, hj⟩ := List.mem_iff_getElem?.mp hp
  exact ⟨j, property?_eq_some_iff.mpr ⟨s, network_linked.numbered.getElem?_index hs, hj⟩⟩

/-- A change of a property renews exactly the sources nested in it, directly or through others. Of the
accesses that it gathers, it is the one it keeps whose key decides what is nested: an owner with an
access of that key is renewed. -/
theorem mem_tree_dependents_iff {s g : Source} {p : ObservedProperty}
    (hs : s ∈ network r dependencyType bs) (hp : p ∈ s.properties)
    (hg : g ∈ network r dependencyType bs) (hne : g.index ≠ s.index) :
    (g.index ∈ tree (network r dependencyType bs) p.dependents ↔
        ∃ h ∈ nested (network r dependencyType bs) s.index p,
          Relation.ReflTransGen (Nests (network r dependencyType bs)) h.index g.index) ∧
      s.gathers p p.access = true ∧
      ∀ e ∈ g.owner.nodes, s.gathers p e = true → e.key = p.access.key →
        g.index ∈ tree (network r dependencyType bs) p.dependents := by
  obtain ⟨j, hprop⟩ := property?_of_mem hs hp
  refine ⟨network_linked.mem_tree_iff_nests hprop, gathers_access hs hp, ?_⟩
  intro e he hgathers hkey
  have haccess : e.access?.isSome := by
    unfold gathers at hgathers
    split at hgathers
    · rename_i hsome
      rw [hsome]
      rfl
    · cases hgathers
  apply network_linked.mem_tree hprop
  have hcontains : g.owner.stripped.containsKey p.access.key = true :=
    List.any_eq_true.mpr ⟨e, Expr.mem_nodes_stripped he haccess, by simpa using hkey⟩
  exact List.mem_filter.mpr ⟨hg, by simp [hne, hcontains]⟩

/-- Of two sources whose owners have an access that one property gathers, the one with the access that
the property keeps is renewed. -/
theorem kept_access_renewed :
    ∃ sc, NodePage.scope ["Top.Next.Text", "Top?.Next.Text"] = .ok sc ∧
      ∃ s ∈ network sc.registry sc.dependencyType sc.bindings, ∃ p ∈ s.properties,
        ∃ g ∈ network sc.registry sc.dependencyType sc.bindings, g.index ≠ s.index ∧
          (∃ e ∈ g.owner.nodes, s.gathers p e = true ∧ e.key = p.access.key) ∧
            g.index ∈ tree (network sc.registry sc.dependencyType sc.bindings) p.dependents := by
  obtain ⟨sc, hsc, hfound⟩ := NodePage.exists_scope ["Top.Next.Text", "Top?.Next.Text"]
    (fun sc =>
      let sources := network sc.registry sc.dependencyType sc.bindings
      sources.any fun s => s.properties.any fun p => sources.any fun g =>
        g.index != s.index && g.owner.nodes.any fun e => s.gathers p e && e.key == p.access.key)
    (by decide +kernel)
  simp only [List.any_eq_true, Bool.and_eq_true, bne_iff_ne, beq_iff_eq] at hfound
  obtain ⟨s, hs, p, hp, g, hg, hne, e, he, hgathers, hkey⟩ := hfound
  exact ⟨sc, hsc, s, hs, p, hp, g, hg, hne, ⟨e, he, hgathers, hkey⟩,
    (mem_tree_dependents_iff hs hp hg hne).2.2 e he hgathers hkey⟩

/-- The one with the null-safe access is not. -/
theorem other_access_not_renewed :
    ∃ sc, NodePage.scope ["Top.Next.Text", "Top?.Next.Text"] = .ok sc ∧
      ∃ s ∈ network sc.registry sc.dependencyType sc.bindings, ∃ p ∈ s.properties,
        ∃ g ∈ network sc.registry sc.dependencyType sc.bindings, g.index ≠ s.index ∧
          (∃ e ∈ g.owner.nodes, s.gathers p e = true) ∧
            g.index ∉ tree (network sc.registry sc.dependencyType sc.bindings) p.dependents := by
  obtain ⟨sc, hsc, hfound⟩ := NodePage.exists_scope ["Top.Next.Text", "Top?.Next.Text"]
    (fun sc =>
      let sources := network sc.registry sc.dependencyType sc.bindings
      sources.any fun s => s.properties.any fun p => sources.any fun g =>
        g.index != s.index && g.owner.nodes.any (s.gathers p)
          && decide (g.index ∉ tree sources p.dependents))
    (by decide +kernel)
  simp only [List.any_eq_true, Bool.and_eq_true, bne_iff_ne, decide_eq_true_eq] at hfound
  obtain ⟨s, hs, p, hp, g, hg, ⟨hne, e, he, hgathers⟩, hnot⟩ := hfound
  exact ⟨sc, hsc, s, hs, p, hp, g, hg, hne, ⟨e, he, hgathers⟩, hnot⟩

/-! ## Lengths of owners -/

section Length

variable (hbs : ∀ b ∈ bs, b.WellFormed)
include hbs

theorem access_plain {o : Observation} (ho : o ∈ Observation.all r dependencyType bs) :
    o.access.Plain := by
  obtain ⟨b, e, hb, -, hvalue, hmem, -⟩ := Observation.mem_all_iff.mp ho
  obtain ⟨marker, haccess⟩ := Observation.access?_access ho
  apply (hbs b (List.mem_of_getElem? hb)).access_plain e hvalue o.access hmem
  rw [haccess]
  rfl

theorem owner_plain {s : Source} (hs : s ∈ network r dependencyType bs) : s.owner.Plain := by
  obtain ⟨o, ho, howner⟩ := network_owner hs
  obtain ⟨marker, haccess⟩ := Observation.access?_access ho
  rw [howner]
  exact (access_plain hbs ho).of_mem_nodes (Expr.owner_mem_nodes haccess)

theorem length_linkKey_le {s : Source} (hs : s ∈ network r dependencyType bs) :
    s.linkKey.length ≤ s.owner.key.length :=
  (owner_plain hbs hs).length_key_le (Expr.stripped_mem_nodes _)

/-- The owner of a nested source has a longer key, even without the parentheses and casts around it. -/
theorem length_owner_lt_linkKey {s g : Source} {p : ObservedProperty}
    (hs : s ∈ network r dependencyType bs) (hp : p ∈ s.properties)
    (hg : g ∈ nested (network r dependencyType bs) s.index p) :
    s.owner.key.length < g.linkKey.length := by
  obtain ⟨hmem, hcond⟩ := List.mem_filter.mp hg
  obtain ⟨n, hn, hkey⟩ := List.any_eq_true.mp (Bool.and_eq_true_iff.mp hcond).2
  obtain ⟨owner, m, marker, haccess, howner⟩ := exists_access hs hp
  calc s.owner.key.length = owner.key.length := by rw [howner]
    _ < p.access.key.length := Expr.length_owner_lt haccess
    _ = n.key.length := by rw [beq_iff_eq.mp hkey]
    _ ≤ g.linkKey.length :=
      ((owner_plain hbs hmem).of_mem_nodes (Expr.stripped_mem_nodes _)).length_key_le hn

theorem length_owner_lt_of_nested {s g : Source} {p : ObservedProperty}
    (hs : s ∈ network r dependencyType bs) (hp : p ∈ s.properties)
    (hg : g ∈ nested (network r dependencyType bs) s.index p) :
    s.owner.key.length < g.owner.key.length :=
  Nat.lt_of_lt_of_le (length_owner_lt_linkKey hbs hs hp hg)
    (length_linkKey_le hbs (List.mem_of_mem_filter hg))

end Length

end Network

end Source
end DataBinding
