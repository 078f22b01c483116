import DataBinding.Observation.Source
import DataBinding.Proofs.Membership

/-!
# What sources are made of

Every observation is an access in the value of an observed binding. A source stands at the position that
its number says, its owner is that of an observation, and each of its properties groups observations
whose owners have the key of that owner.
-/
namespace DataBinding

namespace Observation

variable {r : Registry} {dependencyType : Option TypeRef}

theorem ofNode?_eq_some_iff {binding : Nat} {e : Expr} {o : Observation} :
    ofNode? r dependencyType binding e = some o ↔
      o.binding = binding ∧ o.access = e ∧ (∃ marker, e.access? = some (o.owner, o.member, marker)) ∧
        Notification.ofExpr? r dependencyType e = some o.notification ∧ o.notification ≠ .never := by
  obtain ⟨b, access, owner, member, notification⟩ := o
  unfold ofNode?
  cases ha : e.access? with
  | none => simp
  | some parts =>
    cases hn : Notification.ofExpr? r dependencyType e with
    | none => simp
    | some known =>
      by_cases hk : known = .never
      · subst hk
        simp only [Option.bind_eq_bind, Option.bind_some, if_true]
        constructor
        · intro h; cases h
        · rintro ⟨-, -, -, hn, hne⟩
          exact absurd (Option.some.inj hn).symm hne
      · obtain ⟨o, m, marker⟩ := parts
        simp only [Option.bind_eq_bind, Option.bind_some, if_neg hk, Option.some.injEq, mk.injEq,
          Prod.mk.injEq]
        constructor
        · rintro ⟨rfl, rfl, rfl, rfl, rfl⟩
          exact ⟨rfl, rfl, ⟨marker, rfl, rfl, rfl⟩, rfl, hk⟩
        · rintro ⟨rfl, rfl, ⟨_, rfl, rfl, -⟩, rfl, -⟩
          exact ⟨rfl, rfl, rfl, rfl, rfl⟩

/-- The observations are the accesses in the values of observed bindings that may tell of changes. -/
theorem mem_all_iff {bs : List Binding} {o : Observation} :
    o ∈ all r dependencyType bs ↔
      ∃ b e, bs[o.binding]? = some b ∧ b.isObserved = true ∧ b.value = some e ∧
        o.access ∈ e.nodes ∧ ofNode? r dependencyType o.binding o.access = some o := by
  simp only [all, List.mem_flatMap, Prod.exists, List.mem_zipIdx_iff_getElem?]
  constructor
  · rintro ⟨b, i, hb, ho⟩
    unfold ofBinding at ho
    split at ho
    · rename_i e he
      split at ho
      · rename_i hobs
        obtain ⟨n, hn, hno⟩ := List.mem_filterMap.mp ho
        obtain ⟨rfl, rfl, -⟩ := ofNode?_eq_some_iff.mp hno
        exact ⟨b, e, hb, hobs, he, hn, hno⟩
      · simp at ho
    · simp at ho
  · rintro ⟨b, e, hb, hobs, he, hn, hno⟩
    refine ⟨b, o.binding, hb, ?_⟩
    unfold ofBinding
    rw [he]
    simp only [hobs, if_true]
    exact List.mem_filterMap.mpr ⟨o.access, hn, hno⟩

theorem access?_access {bs : List Binding} {o : Observation} (ho : o ∈ all r dependencyType bs) :
    ∃ marker, o.access.access? = some (o.owner, o.member, marker) := by
  obtain ⟨b, e, -, -, -, -, hnode⟩ := mem_all_iff.mp ho
  exact (ofNode?_eq_some_iff.mp hnode).2.2.1

end Observation

/-- If no element is dropped, what comes of an element stands at its position. -/
theorem getElem?_filterMap_zipIdx {α β : Type} {f : α × Nat → Option β} {as : List α}
    (hf : ∀ a ∈ as, ∀ n, (f (a, n)).isSome) (k i : Nat) :
    ((as.zipIdx k).filterMap f)[i]? = as[i]?.bind fun a => f (a, k + i) := by
  induction as generalizing k i with
  | nil => rfl
  | cons a as ih =>
    obtain ⟨c, hc⟩ := Option.isSome_iff_exists.mp (hf a List.mem_cons_self k)
    rw [List.zipIdx_cons, List.filterMap_cons_some hc]
    cases i with
    | zero => exact hc.symm
    | succ i =>
      have hrest := ih (fun b hb => hf b (List.mem_cons_of_mem a hb)) (k + 1) i
      simpa [Nat.add_assoc, Nat.add_comm 1 i] using hrest

namespace Source

/-- Every source stands at the position that its number says. -/
def Numbered (sources : List Source) : Prop :=
  ∀ (i : Nat) (s : Source), sources[i]? = some s → s.index = i

theorem Numbered.getElem?_index {sources : List Source} (h : Numbered sources) {s : Source}
    (hs : s ∈ sources) : sources[s.index]? = some s := by
  obtain ⟨i, hi⟩ := List.mem_iff_getElem?.mp hs
  rw [h i s hi]
  exact hi

theorem mem_bindings {s : Source} {b : Nat} :
    b ∈ s.bindings ↔ ∃ p ∈ s.properties, b ∈ p.bindings := by
  simp [bindings]

variable {os : List Observation}

theorem mem_groups {key : String} {group : List (String × Observation)} (h : (key, group) ∈ groups os) :
    group.map (·.2) = os.filter (·.owner.key == key) ∧ ∃ o ∈ os, o.owner.key = key := by
  obtain ⟨hkey, rfl⟩ := mem_groupsBy.mp (mem_sortBy.mp h)
  constructor
  · rw [List.filter_map, List.map_map]
    exact List.map_id _
  · simpa using hkey

theorem isSome_ofGroup? (h : os ≠ []) (index : Nat) : (ofGroup? index os).isSome := by
  cases os with
  | nil => exact absurd rfl h
  | cons o os => rfl

theorem isSome_ofGroup?_of_mem {g : String × List (String × Observation)} (hg : g ∈ groups os) (n : Nat) :
    (ofGroup? n (g.2.map (·.2))).isSome := by
  obtain ⟨hgroup, o, ho, hkey⟩ := mem_groups hg
  refine isSome_ofGroup? ?_ n
  rw [hgroup]
  exact List.ne_nil_of_mem (List.mem_filter.mpr ⟨ho, by simpa using hkey⟩)

/-- The source at a position comes from the observations of the owner key at that position. -/
theorem getElem?_ofObservations {i : Nat} {s : Source} :
    (ofObservations os)[i]? = some s ↔ ∃ key, ((groups os).map (·.1))[i]? = some key ∧
      ofGroup? i (os.filter (·.owner.key == key)) = some s := by
  have hposition : (ofObservations os)[i]? = (groups os)[i]?.bind fun g => ofGroup? (0 + i) (g.2.map (·.2)) :=
    getElem?_filterMap_zipIdx (fun g hg n => isSome_ofGroup?_of_mem hg n) 0 i
  rw [hposition, List.getElem?_map, Nat.zero_add]
  cases hi : (groups os)[i]? with
  | none => simp
  | some g => simp [(mem_groups (List.mem_of_getElem? hi)).1]

theorem exists_group {i : Nat} {s : Source} (h : (ofObservations os)[i]? = some s) :
    ∃ key group, (∀ o ∈ group, o ∈ os ∧ o.owner.key = key) ∧ ofGroup? i group = some s := by
  obtain ⟨key, -, hs⟩ := getElem?_ofObservations.mp h
  exact ⟨key, _, by simp, hs⟩

/-- What the properties of a group are: they gather observations of the group, and as long as nothing
depends on them they assign all their bindings themselves. -/
theorem mem_properties_ofGroup? {index : Nat} {s : Source} (h : ofGroup? index os = some s)
    {p : ObservedProperty} (hp : p ∈ s.properties) :
    p.assigned = p.bindings ∧ p.dependents = [] ∧
      (∃ o ∈ os, p.access = o.access ∧ p.slot = o.slot) ∧
      ∀ b ∈ p.bindings, ∃ o ∈ os, o.binding = b := by
  obtain ⟨first, -, rfl⟩ := Option.map_eq_some_iff.mp h
  obtain ⟨⟨slot, group⟩, hg, hpg⟩ := List.mem_filterMap.mp hp
  obtain ⟨-, rfl⟩ := mem_groupsBy.mp hg
  obtain ⟨o, ho, rfl⟩ := Option.map_eq_some_iff.mp hpg
  obtain ⟨hmem, hslot⟩ := List.mem_filter.mp (List.mem_of_head? ho)
  refine ⟨rfl, rfl, ⟨o, hmem, rfl, (beq_iff_eq.mp hslot).symm⟩, ?_⟩
  intro b hb
  obtain ⟨x, hx, rfl⟩ := List.mem_map.mp (mem_distinct.mp hb)
  exact ⟨x, (List.mem_filter.mp hx).1, rfl⟩

theorem ofGroup?_owner {index : Nat} {s : Source} (h : ofGroup? index os = some s) :
    s.index = index ∧ ∃ o ∈ os, s.owner = o.owner := by
  obtain ⟨first, hf, rfl⟩ := Option.map_eq_some_iff.mp h
  exact ⟨rfl, first, List.mem_of_head? hf, rfl⟩

variable {r : Registry} {dependencyType : Option TypeRef} {bs : List Binding}

theorem ofBindings_numbered : Numbered (ofBindings r dependencyType bs) := by
  intro i s hs
  obtain ⟨_, _, -, hg⟩ := exists_group hs
  exact (ofGroup?_owner hg).1

theorem exists_owner {s : Source} (hs : s ∈ ofBindings r dependencyType bs) :
    ∃ o ∈ Observation.all r dependencyType bs, s.owner = o.owner := by
  obtain ⟨i, hi⟩ := List.mem_iff_getElem?.mp hs
  obtain ⟨_, _, hos, hg⟩ := exists_group hi
  obtain ⟨-, o, ho, he⟩ := ofGroup?_owner hg
  exact ⟨o, (hos o ho).1, he⟩

/-- A property is observed on an owner with the key of its source's owner, and its bindings are those of
observations. -/
theorem ofBindings_property {s : Source} (hs : s ∈ ofBindings r dependencyType bs)
    {p : ObservedProperty} (hp : p ∈ s.properties) :
    p.assigned = p.bindings ∧ p.dependents = [] ∧
      (∃ o ∈ Observation.all r dependencyType bs,
        p.access = o.access ∧ p.slot = o.slot ∧ o.owner.key = s.owner.key) ∧
      ∀ b ∈ p.bindings, ∃ o ∈ Observation.all r dependencyType bs, o.binding = b := by
  obtain ⟨i, hi⟩ := List.mem_iff_getElem?.mp hs
  obtain ⟨key, group, hos, hg⟩ := exists_group hi
  obtain ⟨hassigned, hdep, ⟨o, ho, hpo, hslot⟩, hbs⟩ := mem_properties_ofGroup? hg hp
  obtain ⟨-, x, hx, hxs⟩ := ofGroup?_owner hg
  refine ⟨hassigned, hdep, ⟨o, (hos o ho).1, hpo, hslot, ?_⟩, ?_⟩
  · rw [(hos o ho).2, hxs, (hos x hx).2]
  · intro b hb
    obtain ⟨y, hy, hyb⟩ := hbs b hb
    exact ⟨y, (hos y hy).1, hyb⟩

end Source
end DataBinding
