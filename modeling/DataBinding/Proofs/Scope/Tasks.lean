import DataBinding.Proofs.Observation.Nesting
import DataBinding.Proofs.Scope.Execution
import DataBinding.Proofs.Update.Method

/-!
# Tasks of compiled methods

Every method of compiled bindings carries out a task over the linked sources. From this follows what the
methods make of their responsibilities. Calls come to an end because a property calls only for sources
nested in it, and the owners of those are longer.
-/
namespace DataBinding.Compiled

/-- The task of each method over the linked sources. -/
def task? (r : Registry) (bs : List Binding) (sources : List Source) : MethodRef → Option Refresh
  | .root => some { bindings := rootBindings bs, available := sources }
  | .source i => (sources[i]?.filter (·.hasMethod r)).map fun s =>
      { bindings := s.bindings, available := [], own := some s, replaced := some s.owner }
  | .property i j => sources[i]?.bind fun s => s.properties[j]?.map fun p =>
      { bindings := p.assigned, available := p.dependents.filterMap fun i => sources[i]?,
        replaced := some s.owner }

/-- Compiled bindings whose methods carry out the tasks over the given sources. -/
structure Over (c : Compiled) (r : Registry) (sources : List Source) : Prop where
  root_eq : c.root = rootMethod r c.bindings sources
  sources_eq : c.sources = sources.map (sourceUpdate r c.bindings sources c.root)
  linked : Source.Linked sources
  /-- Owners are longer than those of the sources that they are nested in. -/
  longer : ∀ s ∈ sources, ∀ p ∈ s.properties, ∀ g ∈ Source.nested sources s.index p,
    s.owner.key.length < g.owner.key.length
  /-- There is a value for every binding that a method may have to assign. -/
  valued : ∀ b, (b ∈ rootBindings c.bindings ∨ ∃ s ∈ sources, b ∈ s.bindings) →
    (c.bindings[b]?.bind (·.value)).isSome

namespace Over

variable {c : Compiled} {r : Registry} {sources : List Source} (h : c.Over r sources)
include h

/-! ## Sources and their methods -/

theorem observed_eq : c.observed =
    sources.map fun s => (sourceUpdate r c.bindings sources c.root s).toSource := by
  rw [observed, h.sources_eq, List.map_map]
  rfl

omit h in
theorem toSource_bindings (root : UpdateMethod) (bs : List Binding) (s : Source) :
    (sourceUpdate r bs sources root s).toSource.bindings = s.bindings := by
  unfold Source.bindings SourceUpdate.toSource sourceUpdate
  rw [List.map_map, List.flatMap_map]
  rfl

theorem observed_source {i : Nat} {s : Source} (hs : sources[i]? = some s) :
    c.observed[i]? = some (sourceUpdate r c.bindings sources c.root s).toSource := by
  rw [h.observed_eq, List.getElem?_map, hs]
  rfl

theorem observed_property {i j : Nat} {s : Source} {p : ObservedProperty} (hs : sources[i]? = some s)
    (hp : s.properties[j]? = some p) :
    Source.property? c.observed i j = some (propertyUpdate r c.bindings sources s p).property := by
  rw [Source.property?, h.observed_source hs, Option.bind_some]
  simp [SourceUpdate.toSource, sourceUpdate, hp]

theorem tree_observed (roots : List Nat) :
    Source.tree c.observed roots = Source.tree sources roots := by
  have hgraph : Source.graph c.observed = Source.graph sources := by
    unfold Source.graph
    rw [h.observed_eq, List.map_map]
    congr 2
    funext s
    simp [SourceUpdate.toSource, sourceUpdate, List.flatMap_map, propertyUpdate]
  rw [Source.tree, hgraph]
  rfl

theorem reads_source {i : Nat} {s : Source} (hs : sources[i]? = some s) :
    c.reads (.source i) = s.bindings := by
  rw [reads, h.observed_source hs, Option.elim_some, toSource_bindings]

section Property

variable {i j : Nat} {s : Source} {p : ObservedProperty} (hs : sources[i]? = some s)
  (hp : s.properties[j]? = some p)
include hs hp

theorem reads_property : c.reads (.property i j) = p.bindings := by
  rw [reads, h.observed_property hs hp]
  rfl

theorem available_property : c.available (.property i j) = p.dependents := by
  rw [available, h.observed_property hs hp]
  rfl

theorem renews_property : c.renews (.property i j) = Source.tree sources p.dependents := by
  rw [renews, h.observed_property hs hp, Option.elim_some, h.tree_observed]
  rfl

theorem mem_nestedIn_property {b : Nat} :
    (∀ g ∈ c.nestedIn (.property i j), b ∉ g.bindings) ↔
      ∀ g ∈ Source.nested sources i p, b ∉ g.bindings := by
  have hnested : c.nestedIn (.property i j) = (Source.nested sources i p).map fun s =>
      (sourceUpdate r c.bindings sources c.root s).toSource := by
    rw [nestedIn, h.observed_property hs hp, Option.elim_some, h.observed_eq]
    unfold Source.nested
    rw [List.filter_map]
    rfl
  simp only [hnested, List.forall_mem_map, toSource_bindings]

end Property

/-! ## Methods and their tasks -/

theorem method?_eq (z : MethodRef) : c.method? z =
    (task? r c.bindings sources z).map fun f => (UpdateMethod.ofRefresh r c.bindings sources f).1 := by
  cases z with
  | root =>
    rw [method?, h.root_eq]
    rfl
  | source i =>
    rw [method?, h.sources_eq, List.getElem?_map, task?]
    cases sources[i]? with
    | none => rfl
    | some s =>
      simp only [Option.map_some, Option.bind_some, sourceUpdate, sourceMethod?]
      by_cases hmethod : s.hasMethod r
      · simp [hmethod, Option.filter]
      · simp [hmethod, Option.filter]
  | property i j =>
    rw [method?, h.sources_eq, List.getElem?_map, task?]
    cases sources[i]? with
    | none => rfl
    | some s =>
      simp only [Option.map_some, Option.bind_some, sourceUpdate, List.getElem?_map]
      cases s.properties[j]? with
      | none => rfl
      | some p => rfl

omit h in
theorem task?_source {bs : List Binding} {i : Nat} {f : Refresh} :
    task? r bs sources (.source i) = some f ↔ ∃ s, sources[i]? = some s ∧ s.hasMethod r = true ∧
      f = { bindings := s.bindings, available := [], own := some s, replaced := some s.owner } := by
  rw [task?, Option.map_eq_some_iff]
  constructor
  · rintro ⟨s, hs, rfl⟩
    obtain ⟨hs, hmethod⟩ := Option.filter_eq_some_iff.mp hs
    exact ⟨s, hs, hmethod, rfl⟩
  · rintro ⟨s, hs, hmethod, rfl⟩
    exact ⟨s, Option.filter_eq_some_iff.mpr ⟨hs, hmethod⟩, rfl⟩

omit h in
theorem task?_property {bs : List Binding} {i j : Nat} {f : Refresh} :
    task? r bs sources (.property i j) = some f ↔
      ∃ s p, sources[i]? = some s ∧ s.properties[j]? = some p ∧
        f = { bindings := p.assigned, available := p.dependents.filterMap fun i => sources[i]?,
              replaced := some s.owner } := by
  rw [task?, Option.bind_eq_some_iff]
  constructor
  · rintro ⟨s, hs, hf⟩
    obtain ⟨p, hp, rfl⟩ := Option.map_eq_some_iff.mp hf
    exact ⟨s, p, hs, hp, rfl⟩
  · rintro ⟨s, p, hs, hp, rfl⟩
    exact ⟨s, hs, Option.map_eq_some_iff.mpr ⟨p, hp, rfl⟩⟩

theorem exists_task {z : MethodRef} (hz : (c.method? z).isSome) :
    ∃ f, task? r c.bindings sources z = some f := by
  rw [h.method?_eq, Option.isSome_map] at hz
  exact Option.isSome_iff_exists.mp hz

theorem exists_task_of_call {z y : MethodRef} (hy : c.Calls z y) :
    ∃ f, task? r c.bindings sources z = some f := by
  apply h.exists_task
  unfold Calls calls at hy
  cases hm : c.method? z with
  | none => simp [hm] at hy
  | some m => rfl

/-- The dependents of a property are the sources that its method can subscribe to. -/
theorem mem_dependents_iff {i j d : Nat} {s : Source} {p : ObservedProperty}
    (hs : sources[i]? = some s) (hp : s.properties[j]? = some p) :
    d ∈ p.dependents ↔ ∃ g ∈ p.dependents.filterMap fun i => sources[i]?, g.index = d := by
  constructor
  · intro hd
    obtain ⟨g, hg, rfl⟩ := h.linked.dependents i j p (Source.property?_eq_some_iff.mpr ⟨s, hs, hp⟩) d hd
    refine ⟨g, List.mem_filterMap.mpr ⟨g.index, hd, ?_⟩, rfl⟩
    exact h.linked.numbered.getElem?_index (List.mem_filter.mp hg).1
  · rintro ⟨g, hg, rfl⟩
    obtain ⟨k, hk, hgk⟩ := List.mem_filterMap.mp hg
    rwa [h.linked.numbered k g hgk]

section Task

variable {z : MethodRef} {f : Refresh} (hz : task? r c.bindings sources z = some f)
include hz

omit h in
theorem mem_sources_of_task {s : Source} (hs : s ∈ f.available ∨ f.own = some s) : s ∈ sources := by
  cases z with
  | root =>
    cases hz
    rcases hs with hs | hs
    · exact hs
    · cases hs
  | source i =>
    obtain ⟨t, ht, -, rfl⟩ := task?_source.mp hz
    rcases hs with hs | hs
    · cases hs
    · cases hs
      exact List.mem_of_getElem? ht
  | property i j =>
    obtain ⟨t, p, -, -, rfl⟩ := task?_property.mp hz
    rcases hs with hs | hs
    · obtain ⟨k, -, hk⟩ := List.mem_filterMap.mp hs
      exact List.mem_of_getElem? hk
    · cases hs

theorem method?_of_task : c.method? z =
    some (UpdateMethod.ofSelection c.bindings f.replaced (Selection.ofRefresh r sources f)) := by
  rw [h.method?_eq, hz]
  rfl

theorem calls_iff {y : MethodRef} : c.Calls z y ↔
    (∃ s ∈ Selection.chosenSources r sources f, y = .source s.index) ∨
      ∃ p ∈ Selection.chosenProperties r sources f, y = .property p.source.index p.position := by
  obtain ⟨-, hsources, hproperties, -⟩ :=
    UpdateMethod.ofSelection_views c.bindings f.replaced (Selection.ofRefresh r sources f)
  unfold Calls calls
  rw [h.method?_of_task hz, Option.elim_some, UpdateMethod.calls, hsources, hproperties]
  simp [Selection.ofRefresh, eq_comm]

omit h in
theorem getElem?_chosenSource (hl : Source.Linked sources) {s : Source}
    (hs : s ∈ Selection.chosenSources r sources f) : sources[s.index]? = some s :=
  hl.numbered.getElem?_index
    (mem_sources_of_task hz (Or.inl (Selection.mem_chosenSources hs).1))

omit h in
theorem getElem?_chosenProperty (hl : Source.Linked sources) {p : PropertyRef}
    (hp : p ∈ Selection.chosenProperties r sources f) :
    sources[p.source.index]? = some p.source ∧ p.source.properties[p.position]? = some p.property := by
  obtain ⟨hs, hp⟩ := Selection.mem_chosenProperties hp
  exact ⟨hl.numbered.getElem?_index (mem_sources_of_task hz hs), hp⟩

theorem forall_calls_iff {P : MethodRef → Prop} : (∀ y, c.Calls z y → P y) ↔
    (∀ s ∈ Selection.chosenSources r sources f, P (.source s.index)) ∧
      ∀ p ∈ Selection.chosenProperties r sources f, P (.property p.source.index p.position) := by
  simp only [h.calls_iff hz, or_imp, forall_and, forall_exists_index, and_imp]
  constructor
  · rintro ⟨hs, hp⟩
    exact ⟨fun s hmem => hs _ s hmem rfl, fun p hmem => hp _ p hmem rfl⟩
  · rintro ⟨hs, hp⟩
    constructor
    · rintro y s hmem rfl
      exact hs s hmem
    · rintro y p hmem rfl
      exact hp p hmem

theorem not_read_by_calls_iff {b : Nat} : (∀ y, c.Calls z y → b ∉ c.reads y) ↔
    (∀ s ∈ Selection.chosenSources r sources f, b ∉ s.bindings) ∧
      ∀ p ∈ Selection.chosenProperties r sources f, b ∉ p.property.bindings := by
  rw [h.forall_calls_iff hz]
  apply and_congr
  · apply forall₂_congr
    intro s hs
    rw [h.reads_source (getElem?_chosenSource hz h.linked hs)]
  · apply forall₂_congr
    intro p hp
    obtain ⟨hs, hp⟩ := getElem?_chosenProperty hz h.linked hp
    rw [h.reads_property hs hp]

theorem not_renewed_by_calls_iff {g : Nat} : (∀ y, c.Calls z y → g ∉ c.renews y) ↔
    (∀ s ∈ Selection.chosenSources r sources f, g ∉ Source.tree sources [s.index]) ∧
      ∀ p ∈ Selection.chosenProperties r sources f, g ∉ Source.tree sources p.property.dependents := by
  rw [h.forall_calls_iff hz]
  apply and_congr
  · apply forall₂_congr
    intro s _
    rw [renews, h.tree_observed]
  · apply forall₂_congr
    intro p hp
    obtain ⟨hs, hp⟩ := getElem?_chosenProperty hz h.linked hp
    rw [h.renews_property hs hp]

theorem mem_assigns_iff {b : Nat} : b ∈ c.assigns z ↔
    (b ∈ f.bindings ∧ ∀ y, c.Calls z y → b ∉ c.reads y) ∧ (c.bindings[b]?.bind (·.value)).isSome := by
  obtain ⟨hassigned, -⟩ :=
    UpdateMethod.ofSelection_views c.bindings f.replaced (Selection.ofRefresh r sources f)
  rw [assigns, h.method?_of_task hz, Option.elim_some, hassigned, UpdateMethod.mem_assigned,
    Selection.mem_bindings_ofRefresh, h.not_read_by_calls_iff hz]

theorem mem_subscribes_iff {g : Nat} : g ∈ c.subscribes z ↔ (∃ s ∈ f.available, s.index = g) ∧
    (c.Calls z (.source g) ∨ ∀ y, c.Calls z y → g ∉ c.renews y) := by
  obtain ⟨-, hsources, -, hsubscribed⟩ :=
    UpdateMethod.ofSelection_views c.bindings f.replaced (Selection.ofRefresh r sources f)
  rw [subscribes, h.method?_of_task hz, Option.elim_some, hsources, hsubscribed,
    h.not_renewed_by_calls_iff hz, List.mem_append, List.mem_map, List.mem_map]
  constructor
  · rintro (⟨s, hs, rfl⟩ | ⟨s, hs, rfl⟩)
    · exact ⟨⟨s, (Selection.mem_chosenSources hs).1, rfl⟩,
        Or.inl ((h.calls_iff hz).mpr (Or.inl ⟨s, hs, rfl⟩))⟩
    · obtain ⟨havailable, hfree⟩ := Selection.mem_subscribed_ofRefresh.mp hs
      exact ⟨⟨s, havailable, rfl⟩, Or.inr hfree⟩
  · rintro ⟨⟨s, hs, rfl⟩, hcall | hfree⟩
    · rcases (h.calls_iff hz).mp hcall with ⟨t, ht, heq⟩ | ⟨p, -, heq⟩
      · exact Or.inl ⟨t, ht, (MethodRef.source.inj heq).symm⟩
      · cases heq
    · exact Or.inr ⟨s, Selection.mem_subscribed_ofRefresh.mpr ⟨hs, hfree⟩, rfl⟩

/-- The bindings of a task are those that the method reads and no nested source does. -/
theorem mem_task_bindings {b : Nat} :
    b ∈ f.bindings ↔ b ∈ c.reads z ∧ ∀ g ∈ c.nestedIn z, b ∉ g.bindings := by
  cases z with
  | root =>
    cases hz
    simp [reads, nestedIn]
  | source i =>
    obtain ⟨s, hs, -, rfl⟩ := task?_source.mp hz
    rw [h.reads_source hs]
    simp [nestedIn]
  | property i j =>
    obtain ⟨s, p, hs, hp, rfl⟩ := task?_property.mp hz
    rw [h.reads_property hs hp, h.mem_nestedIn_property hs hp]
    exact h.linked.mem_assigned_iff (Source.property?_eq_some_iff.mpr ⟨s, hs, hp⟩)

theorem mem_task_available {g : Nat} : (∃ s ∈ f.available, s.index = g) ↔ g ∈ c.available z := by
  cases z with
  | root =>
    cases hz
    rw [available, h.observed_eq, List.map_map, List.mem_map]
    rfl
  | source i =>
    obtain ⟨s, hs, -, rfl⟩ := task?_source.mp hz
    simp [available]
  | property i j =>
    obtain ⟨s, p, hs, hp, rfl⟩ := task?_property.mp hz
    rw [h.available_property hs hp]
    exact (h.mem_dependents_iff hs hp).symm

theorem value_of_reads {b : Nat} (hb : b ∈ c.reads z) : (c.bindings[b]?.bind (·.value)).isSome := by
  apply h.valued
  cases z with
  | root => exact Or.inl hb
  | source i =>
    obtain ⟨s, hs, -, -⟩ := task?_source.mp hz
    rw [h.reads_source hs] at hb
    exact Or.inr ⟨s, List.mem_of_getElem? hs, hb⟩
  | property i j =>
    obtain ⟨s, p, hs, hp, -⟩ := task?_property.mp hz
    rw [h.reads_property hs hp] at hb
    exact Or.inr ⟨s, List.mem_of_getElem? hs, Source.mem_bindings.mpr
      ⟨p, List.mem_of_getElem? hp, hb⟩⟩

theorem method_isSome_of_call {y : MethodRef} (hy : c.Calls z y) : (c.method? y).isSome := by
  rw [h.method?_eq, Option.isSome_map, Option.isSome_iff_exists]
  rcases (h.calls_iff hz).mp hy with ⟨s, hs, rfl⟩ | ⟨p, hp, rfl⟩
  · exact ⟨_, task?_source.mpr ⟨s, getElem?_chosenSource hz h.linked hs,
      (Selection.mem_chosenSources hs).2, rfl⟩⟩
  · obtain ⟨hs, hp⟩ := getElem?_chosenProperty hz h.linked hp
    exact ⟨_, task?_property.mpr ⟨p.source, p.property, hs, hp, rfl⟩⟩

end Task

/-! ## Calls come to an end -/

section Rank

omit h

theorem exists_bound (sources : List Source) :
    ∃ bound, ∀ s ∈ sources, s.owner.key.length ≤ bound := by
  induction sources with
  | nil => exact ⟨0, by simp⟩
  | cons s sources ih =>
    obtain ⟨bound, hbound⟩ := ih
    refine ⟨s.owner.key.length + bound, List.forall_mem_cons.mpr ⟨Nat.le_add_right _ _, ?_⟩⟩
    intro t ht
    exact Nat.le_trans (hbound t ht) (Nat.le_add_left _ _)

variable (sources) (bound : Nat)

/-- How far the owner of a source is from the bound. -/
def slack (i : Nat) : Nat := bound - sources[i]?.elim 0 (·.owner.key.length)

/-- Decreases from a method to those that it calls, if the bound is one for all owners. -/
def rank : MethodRef → Nat
  | .root => 2 * bound + 3
  | .source i => 2 * slack sources bound i + 2
  | .property i _ => 2 * slack sources bound i + 1

end Rank

section Bound

variable {bound : Nat} (hbound : ∀ s ∈ sources, s.owner.key.length ≤ bound)
include hbound

theorem slack_dependent_lt {i j : Nat} {s g : Source} {p : ObservedProperty}
    (hs : sources[i]? = some s) (hp : s.properties[j]? = some p)
    (hg : g ∈ p.dependents.filterMap fun i => sources[i]?) :
    slack sources bound g.index < slack sources bound i := by
  have hd := (h.mem_dependents_iff hs hp).mpr ⟨g, hg, rfl⟩
  obtain ⟨t, ht, hindex⟩ := h.linked.dependents i j p (Source.property?_eq_some_iff.mpr ⟨s, hs, hp⟩) _ hd
  have hmem := (List.mem_filter.mp ht).1
  have hlonger : s.owner.key.length < t.owner.key.length := by
    apply h.longer s (List.mem_of_getElem? hs) p (List.mem_of_getElem? hp)
    rw [h.linked.numbered i s hs]
    exact ht
  have := hbound t hmem
  simp only [slack, ← hindex, h.linked.numbered.getElem?_index hmem, hs, Option.elim_some]
  omega

theorem rank_lt {z y : MethodRef} (hy : c.Calls z y) : rank sources bound y < rank sources bound z := by
  obtain ⟨f, hf⟩ := h.exists_task_of_call hy
  have hy' := (h.calls_iff hf).mp hy
  have hslack : ∀ i, slack sources bound i ≤ bound := fun i => Nat.sub_le _ _
  cases z with
  | root =>
    rcases hy' with ⟨s, -, rfl⟩ | ⟨p, -, rfl⟩
    · have := hslack s.index
      simp only [rank]
      omega
    · have := hslack p.source.index
      simp only [rank]
      omega
  | source i =>
    obtain ⟨s, hs, -, rfl⟩ := task?_source.mp hf
    rcases hy' with ⟨t, ht, rfl⟩ | ⟨p, hp, rfl⟩
    · cases (Selection.mem_chosenSources ht).1
    · rcases (Selection.mem_chosenProperties hp).1 with hmem | hown
      · cases hmem
      · obtain rfl := Option.some.inj hown
        rw [h.linked.numbered i _ hs]
        simp only [rank]
        omega
  | property i j =>
    obtain ⟨s, p, hs, hp, rfl⟩ := task?_property.mp hf
    rcases hy' with ⟨t, ht, rfl⟩ | ⟨q, hq, rfl⟩
    · have := h.slack_dependent_lt hbound hs hp (Selection.mem_chosenSources ht).1
      simp only [rank]
      omega
    · rcases (Selection.mem_chosenProperties hq).1 with hmem | hown
      · have := h.slack_dependent_lt hbound hs hp hmem
        simp only [rank]
        omega
      · cases hown

end Bound

theorem lawful : c.Lawful where
  method_isSome := by
    intro z y hy
    obtain ⟨f, hf⟩ := h.exists_task_of_call hy
    exact h.method_isSome_of_call hf hy
  mem_assigns := by
    intro z hz b
    obtain ⟨f, hf⟩ := h.exists_task hz
    rw [h.mem_assigns_iff hf, h.mem_task_bindings hf]
    constructor
    · rintro ⟨⟨⟨hb, hnested⟩, hcalls⟩, -⟩
      exact ⟨hb, hnested, hcalls⟩
    · rintro ⟨hb, hnested, hcalls⟩
      exact ⟨⟨⟨hb, hnested⟩, hcalls⟩, h.value_of_reads hf hb⟩
  mem_subscribes := by
    intro z hz g
    obtain ⟨f, hf⟩ := h.exists_task hz
    rw [h.mem_subscribes_iff hf, h.mem_task_available hf]
  ranked := by
    obtain ⟨bound, hbound⟩ := exists_bound sources
    exact ⟨rank sources bound, fun _ _ hy => h.rank_lt hbound hy⟩

end Over

variable {r : Registry} {dependencyType : Option TypeRef} {dataType targetType : TypeRef}
  {bs : List Binding}

theorem mem_rootBindings_numbered {b : Nat} : b ∈ rootBindings (numbered r dependencyType bs) ↔
    ∃ x, (numbered r dependencyType bs)[b]? = some x ∧ x.site.event = none ∧
      x.mode ≠ .oneWayToSource := by
  simp only [rootBindings, List.mem_map, List.mem_filter, Bool.and_eq_true, Option.isNone_iff_eq_none,
    bne_iff_ne]
  constructor
  · rintro ⟨x, ⟨hx, hevent, hmode⟩, rfl⟩
    obtain ⟨i, hi⟩ := List.mem_iff_getElem?.mp hx
    rw [← (getElem?_numbered hi).1] at hi
    exact ⟨x, hi, hevent, hmode⟩
  · rintro ⟨x, hx, hevent, hmode⟩
    exact ⟨x, ⟨List.mem_of_getElem? hx, hevent, hmode⟩, (getElem?_numbered hx).1⟩

theorem ofBindings_over (hbs : ∀ b ∈ bs, b.WellFormed) :
    (ofBindings r dependencyType dataType targetType bs).Over r
      (Source.network r dependencyType (numbered r dependencyType bs)) where
  root_eq := rfl
  sources_eq := by simp only [ofBindings, Source.network]
  linked := Source.network_linked
  longer := fun s hs p hp g hg =>
    Source.length_owner_lt_of_nested (numbered_wellFormed hbs) hs hp hg
  valued := by
    rintro b (hb | ⟨s, hs, hb⟩)
    · obtain ⟨x, hx, -, hmode⟩ := mem_rootBindings_numbered.mp hb
      have hvalue := (numbered_wellFormed hbs x (List.mem_of_getElem? hx)).value_isSome hmode
      rw [show (ofBindings r dependencyType dataType targetType bs).bindings[b]? = some x from hx]
      exact hvalue
    · obtain ⟨p, hp, hbp⟩ := Source.mem_bindings.mp hb
      obtain ⟨o, ho, rfl⟩ := (Source.network_property hs hp).2 b hbp
      obtain ⟨x, e, hx, -, hvalue, -⟩ := Observation.mem_all_iff.mp ho
      rw [show (ofBindings r dependencyType dataType targetType bs).bindings[o.binding]? = some x
        from hx, Option.bind_some, hvalue]
      rfl

end DataBinding.Compiled

namespace DataBinding.Scope

/-- What an accepted list of sites is compiled to is lawful. -/
theorem compile_lawful {r : Registry} {dataType targetType : String} {options : Options}
    {sites : List Site} {s : Scope} (h : ofSites r dataType targetType options sites = .ok s) :
    s.compile.Lawful :=
  (Compiled.ofBindings_over (ofSites_wellFormed h)).lawful

end DataBinding.Scope
