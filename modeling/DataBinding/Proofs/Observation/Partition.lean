import DataBinding.Proofs.Observation.Nesting

/-!
# Every observed node has its place

A binding observes the accesses in its value that may tell of changes. The sources that are made of them
stand in the order of the keys of their owners, and no two properties of a source have the same slot. So a
node that is observed belongs to one property of one source, and a property has exactly the bindings that
observe a node of it, in ascending order.
-/
namespace DataBinding

/-! ## Observed nodes -/

/-- The binding with the number follows its source, and the node is an access in its value that may tell of
changes. -/
def Binding.Observes (r : Registry) (dependencyType : Option TypeRef) (bs : List Binding) (i : Nat)
    (e : Expr) : Prop :=
  ∃ b v, bs[i]? = some b ∧ b.site.event = none ∧ (b.mode = .oneWay ∨ b.mode = .twoWay) ∧
    b.value = some v ∧ e ∈ v.nodes ∧ e.access?.isSome ∧
    Notification.ofExpr? r dependencyType e ≠ some .never

variable {r : Registry} {dependencyType : Option TypeRef} {bs : List Binding} {os : List Observation}

theorem Binding.isObserved_iff {b : Binding} :
    b.isObserved = true ↔ b.site.event = none ∧ (b.mode = .oneWay ∨ b.mode = .twoWay) := by
  cases hmode : b.mode <;> simp [isObserved, BindingMode.observesSource, hmode]

theorem Binding.observes_iff {i : Nat} {e : Expr} :
    Observes r dependencyType bs i e ↔
      ∃ o ∈ Observation.all r dependencyType bs, o.binding = i ∧ o.access = e := by
  constructor
  · rintro ⟨b, v, hb, hevent, hmode, hv, he, haccess, hnever⟩
    obtain ⟨⟨owner, m, marker⟩, hparts⟩ := Option.isSome_iff_exists.mp haccess
    obtain ⟨known, hknown⟩ : ∃ known, Notification.ofExpr? r dependencyType e = some known := by
      simp [Notification.ofExpr?, hparts]
    have hne : known ≠ .never := by
      rintro rfl
      exact hnever hknown
    refine ⟨⟨i, e, owner, m, known⟩, ?_, rfl, rfl⟩
    apply Observation.mem_all_iff.mpr
    refine ⟨b, v, hb, isObserved_iff.mpr ⟨hevent, hmode⟩, hv, he, ?_⟩
    exact Observation.ofNode?_eq_some_iff.mpr ⟨rfl, rfl, ⟨marker, hparts⟩, hknown, hne⟩
  · rintro ⟨o, ho, rfl, rfl⟩
    obtain ⟨b, v, hb, hobserved, hv, he, hnode⟩ := Observation.mem_all_iff.mp ho
    obtain ⟨hevent, hmode⟩ := isObserved_iff.mp hobserved
    obtain ⟨-, -, ⟨marker, hparts⟩, hknown, hne⟩ := Observation.ofNode?_eq_some_iff.mp hnode
    refine ⟨b, v, hb, hevent, hmode, hv, he, by simp [hparts], ?_⟩
    rw [hknown]
    exact fun h => hne (Option.some.inj h)

theorem Observation.ofExpr?_access {o : Observation} (ho : o ∈ all r dependencyType bs) :
    Notification.ofExpr? r dependencyType o.access = some o.notification := by
  obtain ⟨b, v, -, -, -, -, hnode⟩ := mem_all_iff.mp ho
  exact (ofNode?_eq_some_iff.mp hnode).2.2.2.1

theorem Observation.pairwise_all :
    (all r dependencyType bs).Pairwise fun o o' => o.binding ≤ o'.binding := by
  apply pairwise_flatMap_zipIdx
  rintro ⟨b, i⟩ o ho
  dsimp only [ofBinding] at ho
  split at ho
  · split at ho
    · obtain ⟨n, -, hn⟩ := List.mem_filterMap.mp ho
      exact (ofNode?_eq_some_iff.mp hn).1
    · cases ho
  · cases ho

/-! ## Groups -/

namespace ObservedProperty

theorem ofGroup?_eq_some {slot : Slot} {p : ObservedProperty} (h : ofGroup? slot os = some p) :
    p.slot = slot ∧ p.bindings = distinct (os.map (·.binding)) ∧ p.assigned = p.bindings := by
  obtain ⟨first, -, rfl⟩ := Option.map_eq_some_iff.mp h
  exact ⟨rfl, rfl, rfl⟩

end ObservedProperty

namespace Source

variable {s : Source} {p : ObservedProperty} {index : Nat}

theorem map_slot_properties (h : ofGroup? index os = some s) :
    s.properties.map (·.slot) = distinct (os.map (·.slot)) := by
  obtain ⟨first, -, rfl⟩ := Option.map_eq_some_iff.mp h
  dsimp only
  have hslot : ∀ slot ∈ distinct (os.map (·.slot)),
      ((ObservedProperty.ofGroup? slot (os.filter (·.slot == slot))).map (·.slot)) = some slot := by
    intro slot hslot
    obtain ⟨o, ho, rfl⟩ := List.mem_map.mp (mem_distinct.mp hslot)
    cases hgroup : os.filter (·.slot == o.slot) with
    | nil => simpa using List.filter_eq_nil_iff.mp hgroup o ho
    | cons first rest => rfl
  rw [List.map_filterMap, groupsBy, List.filterMap_map]
  exact (List.filterMap_congr hslot).trans List.filterMap_some

theorem ofGroup?_slot (h : ofGroup? index os = some s) (hp : p ∈ s.properties) :
    ObservedProperty.ofGroup? p.slot (os.filter (·.slot == p.slot)) = some p := by
  obtain ⟨first, -, rfl⟩ := Option.map_eq_some_iff.mp h
  obtain ⟨⟨slot, group⟩, hg, hpg⟩ := List.mem_filterMap.mp hp
  obtain ⟨-, rfl⟩ := mem_groupsBy.mp hg
  rw [(ObservedProperty.ofGroup?_eq_some hpg).1]
  exact hpg

theorem isTentative_iff (h : ofGroup? index os = some s) :
    s.isTentative = true ↔ ∃ o ∈ os, o.notification = .possible := by
  obtain ⟨first, -, rfl⟩ := Option.map_eq_some_iff.mp h
  simp

theorem pairwise_groups (os : List Observation) : ((groups os).map (·.1)).Pairwise (· < ·) := by
  have hle : ((groups os).map (·.1)).Pairwise (· ≤ ·) := by
    rw [List.pairwise_map]
    exact pairwise_sortBy_key _ _
  have hkeys : ((groups os).map (·.1)).Nodup := by
    have hperm := (sortBy_perm (fun a b => decide (a.1 ≤ b.1))
      (groupsBy Prod.fst (os.map fun o => (o.owner.key, o)))).map (·.1)
    apply hperm.nodup_iff.mpr
    rw [groupsBy, List.map_map]
    exact (List.map_id _).symm ▸ nodup_distinct _
  apply (hle.and hkeys).imp
  rintro a b ⟨hle, hne⟩
  exact Std.lt_of_le_of_ne hle hne

/-- A source comes from all observations of its owner's key. -/
theorem ofGroup?_owner_key {i : Nat} (h : (ofObservations os)[i]? = some s) :
    ((groups os).map (·.1))[i]? = some s.owner.key ∧
      ofGroup? i (os.filter (·.owner.key == s.owner.key)) = some s := by
  obtain ⟨key, hkey, hs⟩ := getElem?_ofObservations.mp h
  obtain ⟨-, o, ho, howner⟩ := ofGroup?_owner hs
  obtain rfl : key = s.owner.key := by
    rw [howner]
    exact (beq_iff_eq.mp (List.mem_filter.mp ho).2).symm
  exact ⟨hkey, hs⟩

theorem exists_source {o : Observation} (ho : o ∈ os) :
    ∃ (i : Nat) (s : Source), (ofObservations os)[i]? = some s ∧ s.owner.key = o.owner.key := by
  have hkey : o.owner.key ∈ (groups os).map (·.1) := by
    refine List.mem_map.mpr ⟨_, mem_sortBy.mpr (mem_groupsBy.mpr ⟨?_, rfl⟩), rfl⟩
    exact ⟨(o.owner.key, o), List.mem_map_of_mem ho, rfl⟩
  obtain ⟨i, hi⟩ := List.mem_iff_getElem?.mp hkey
  have hgroup : os.filter (·.owner.key == o.owner.key) ≠ [] :=
    List.ne_nil_of_mem (List.mem_filter.mpr ⟨ho, by simp⟩)
  obtain ⟨s, hs⟩ := Option.isSome_iff_exists.mp (isSome_ofGroup? hgroup i)
  obtain ⟨-, o', ho', howner⟩ := ofGroup?_owner hs
  refine ⟨i, s, getElem?_ofObservations.mpr ⟨_, hi, hs⟩, ?_⟩
  rw [howner]
  exact beq_iff_eq.mp (List.mem_filter.mp ho').2

theorem pairwise_ofObservations (os : List Observation) :
    (ofObservations os).Pairwise fun s t => s.owner.key < t.owner.key := by
  apply List.pairwise_iff_getElem.mpr
  intro i j hi hj hij
  obtain ⟨hilt, hikey⟩ := List.getElem?_eq_some_iff.mp (ofGroup?_owner_key (List.getElem?_eq_getElem hi)).1
  obtain ⟨hjlt, hjkey⟩ := List.getElem?_eq_some_iff.mp (ofGroup?_owner_key (List.getElem?_eq_getElem hj)).1
  rw [← hikey, ← hjkey]
  exact List.pairwise_iff_getElem.mp (pairwise_groups os) i j hilt hjlt hij

/-! ## The partition -/

/-- The property at a position of the source at a position gathers the node. -/
def PlacedAt (sources : List Source) (e : Expr) (v : Nat × Nat) : Prop :=
  ∃ s p, sources[v.1]? = some s ∧ s.properties[v.2]? = some p ∧ s.gathers p e = true

/-- The sources gather the nodes that bindings observe, each in one place. -/
structure Partitions (r : Registry) (dependencyType : Option TypeRef) (bs : List Binding)
    (sources : List Source) : Prop where
  ordered : sources.Pairwise fun s t => s.owner.key < t.owner.key
  numbered : Numbered sources
  nonempty : ∀ s ∈ sources, s.properties ≠ []
  distinct : ∀ s ∈ sources, (s.properties.map (·.slot)).Nodup
  placed : ∀ i e, Binding.Observes r dependencyType bs i e → ∃! v, PlacedAt sources e v
  kept : ∀ s ∈ sources, ∀ p ∈ s.properties, s.gathers p p.access = true
  bindings : ∀ s ∈ sources, ∀ p ∈ s.properties, p.bindings.Pairwise (· < ·) ∧ p.assigned = p.bindings ∧
    ∀ i, i ∈ p.bindings ↔ ∃ e, Binding.Observes r dependencyType bs i e ∧ s.gathers p e = true
  tentative : ∀ s ∈ sources, s.isTentative = true ↔ ∃ i e p, Binding.Observes r dependencyType bs i e ∧
    p ∈ s.properties ∧ s.gathers p e = true ∧ Notification.ofExpr? r dependencyType e = some .possible

/-- A property gathers the observations of its slot and its source's owner. -/
theorem bindings_ofObservations {i : Nat} (hs : (ofObservations os)[i]? = some s) (hp : p ∈ s.properties) :
    p.assigned = p.bindings ∧ p.bindings =
      distinct ((os.filter fun o => o.slot == p.slot && o.owner.key == s.owner.key).map (·.binding)) := by
  have hgroup := ofGroup?_slot (ofGroup?_owner_key hs).2 hp
  obtain ⟨-, hbindings, hassigned⟩ := ObservedProperty.ofGroup?_eq_some hgroup
  rw [List.filter_filter] at hbindings
  exact ⟨hassigned, hbindings⟩

theorem exists_property {i : Nat} (hs : (ofObservations os)[i]? = some s) {o : Observation} (ho : o ∈ os)
    (hkey : o.owner.key = s.owner.key) : ∃ (j : Nat) (p : ObservedProperty),
      s.properties[j]? = some p ∧ o.slot = p.slot := by
  have hslot : o.slot ∈ s.properties.map (·.slot) := by
    rw [map_slot_properties (ofGroup?_owner_key hs).2, mem_distinct]
    exact List.mem_map_of_mem (List.mem_filter.mpr ⟨ho, by simpa using hkey⟩)
  obtain ⟨p, hp, hpslot⟩ := List.mem_map.mp hslot
  obtain ⟨j, hj⟩ := List.mem_iff_getElem?.mp hp
  exact ⟨j, p, hj, hpslot.symm⟩

theorem properties_ne_nil {i : Nat} (hs : (ofObservations os)[i]? = some s) : s.properties ≠ [] := by
  intro hnil
  obtain ⟨-, o, ho, -⟩ := ofGroup?_owner (ofGroup?_owner_key hs).2
  obtain ⟨ho, hkey⟩ := List.mem_filter.mp ho
  obtain ⟨j, p, hp, -⟩ := exists_property hs ho (by simpa using hkey)
  simp [hnil] at hp

theorem nodup_slots {i : Nat} (hs : (ofObservations os)[i]? = some s) : (s.properties.map (·.slot)).Nodup := by
  rw [map_slot_properties (ofGroup?_owner_key hs).2]
  exact nodup_distinct _

/-- No two places have the same owner key and the same slot. -/
theorem place_unique {i i' j j' : Nat} {s' : Source} {p' : ObservedProperty}
    (hs : (ofObservations os)[i]? = some s) (hp : s.properties[j]? = some p)
    (hs' : (ofObservations os)[i']? = some s') (hp' : s'.properties[j']? = some p')
    (hkey : s.owner.key = s'.owner.key) (hslot : p.slot = p'.slot) : i = i' ∧ j = j' := by
  have hkeys : ((groups os).map (·.1)).Nodup := (pairwise_groups os).imp fun h => by
    rintro rfl
    exact String.lt_irrefl _ h
  have hi := (ofGroup?_owner_key hs).1
  have hi' := (ofGroup?_owner_key hs').1
  obtain rfl : i = i' := by
    apply (List.getElem?_inj (List.getElem?_eq_some_iff.mp hi).1 hkeys).mp
    rw [hi, hi', hkey]
  obtain rfl : s = s' := Option.some.inj (hs.symm.trans hs')
  refine ⟨rfl, ?_⟩
  apply (List.getElem?_inj ?_ (nodup_slots hs)).mp
  · rw [List.getElem?_map, List.getElem?_map, hp, hp']
    simpa using hslot
  · rw [List.length_map]
    exact (List.getElem?_eq_some_iff.mp hp).1

theorem existsUnique_placedAt {o : Observation} (ho : o ∈ Observation.all r dependencyType bs) :
    ∃! v, PlacedAt (ofBindings r dependencyType bs) o.access v := by
  obtain ⟨k, s, hs, hkey⟩ := exists_source ho
  obtain ⟨j, p, hp, hslot⟩ := exists_property hs ho hkey.symm
  refine ⟨(k, j), ⟨s, p, hs, hp, (gathers_iff ho).mpr ⟨hkey.symm, hslot⟩⟩, ?_⟩
  rintro ⟨k', j'⟩ ⟨s', p', hs', hp', hgathers⟩
  obtain ⟨hkey', hslot'⟩ := (gathers_iff ho).mp hgathers
  obtain ⟨rfl, rfl⟩ := place_unique hs' hp' hs hp (hkey'.symm.trans hkey.symm) (hslot'.symm.trans hslot)
  rfl

section Observes

variable {i : Nat} (hs : (ofBindings r dependencyType bs)[i]? = some s)
include hs

theorem pairwise_bindings (hp : p ∈ s.properties) : p.bindings.Pairwise (· < ·) := by
  rw [(bindings_ofObservations hs hp).2]
  apply pairwise_lt_distinct
  rw [List.pairwise_map]
  exact Observation.pairwise_all.sublist List.filter_sublist

theorem mem_bindings_iff_observes (hp : p ∈ s.properties) {b : Nat} :
    b ∈ p.bindings ↔ ∃ e, Binding.Observes r dependencyType bs b e ∧ s.gathers p e = true := by
  simp only [(bindings_ofObservations hs hp).2, mem_distinct, List.mem_map, List.mem_filter, Bool.and_eq_true,
    beq_iff_eq, Binding.observes_iff]
  constructor
  · rintro ⟨o, ⟨ho, hslot, hkey⟩, rfl⟩
    exact ⟨o.access, ⟨o, ho, rfl, rfl⟩, (gathers_iff ho).mpr ⟨hkey, hslot⟩⟩
  · rintro ⟨e, ⟨o, ho, rfl, rfl⟩, hgathers⟩
    obtain ⟨hkey, hslot⟩ := (gathers_iff ho).mp hgathers
    exact ⟨o, ⟨ho, hslot, hkey⟩, rfl⟩

theorem isTentative_iff_observes :
    s.isTentative = true ↔ ∃ b e p, Binding.Observes r dependencyType bs b e ∧ p ∈ s.properties ∧
      s.gathers p e = true ∧ Notification.ofExpr? r dependencyType e = some .possible := by
  rw [isTentative_iff (ofGroup?_owner_key hs).2]
  constructor
  · rintro ⟨o, ho, hpossible⟩
    obtain ⟨ho, hkey⟩ := List.mem_filter.mp ho
    have hkey := beq_iff_eq.mp hkey
    obtain ⟨j, p, hp, hslot⟩ := exists_property hs ho hkey
    refine ⟨o.binding, o.access, p, Binding.observes_iff.mpr ⟨o, ho, rfl, rfl⟩, List.mem_of_getElem? hp,
      (gathers_iff ho).mpr ⟨hkey, hslot⟩, ?_⟩
    rw [Observation.ofExpr?_access ho, hpossible]
  · rintro ⟨b, e, p, he, -, hgathers, hpossible⟩
    obtain ⟨o, ho, rfl, rfl⟩ := Binding.observes_iff.mp he
    have hkey := ((gathers_iff ho).mp hgathers).1
    rw [Observation.ofExpr?_access ho] at hpossible
    exact ⟨o, List.mem_filter.mpr ⟨ho, by simpa using hkey⟩, Option.some.inj hpossible⟩

end Observes

/-- The sources of bindings gather exactly what the bindings observe. -/
theorem ofBindings_partitions : Partitions r dependencyType bs (ofBindings r dependencyType bs) where
  ordered := pairwise_ofObservations _
  numbered := ofBindings_numbered
  nonempty := by
    intro s hs
    obtain ⟨i, hi⟩ := List.mem_iff_getElem?.mp hs
    exact properties_ne_nil hi
  distinct := by
    intro s hs
    obtain ⟨i, hi⟩ := List.mem_iff_getElem?.mp hs
    exact nodup_slots hi
  placed := by
    intro i e he
    obtain ⟨o, ho, rfl, rfl⟩ := Binding.observes_iff.mp he
    exact existsUnique_placedAt ho
  kept := by
    intro s hs p hp
    obtain ⟨-, -, ⟨o, ho, haccess, hslot, hkey⟩, -⟩ := ofBindings_property hs hp
    rw [haccess]
    exact (gathers_iff ho).mpr ⟨hkey, hslot.symm⟩
  bindings := by
    intro s hs p hp
    obtain ⟨i, hi⟩ := List.mem_iff_getElem?.mp hs
    exact ⟨pairwise_bindings hi hp, (bindings_ofObservations hi hp).1, fun b => mem_bindings_iff_observes hi hp⟩
  tentative := by
    intro s hs
    obtain ⟨i, hi⟩ := List.mem_iff_getElem?.mp hs
    exact isTentative_iff_observes hi

end Source
end DataBinding
