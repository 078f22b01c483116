import DataBinding.Proofs.Scope.Tasks
import DataBinding.Proofs.WriteBack
import Mathlib.Order.WellFounded

/-!
# References among compiled bindings

Compiled bindings refer to each other by numbers. All of these are numbers of bindings, sources and
properties that are there, and what is called is there too. Neither the dependents of sources nor the
calls of methods lead back to where they started, so the run of every method comes to an end.
-/
namespace DataBinding.Compiled

section Numbers

variable (c : Compiled)

def methods : List UpdateMethod :=
  c.root :: c.sources.flatMap fun u => u.method.toList ++ u.properties.map (·.method)

def properties : List ObservedProperty := c.observed.flatMap (·.properties)

def bindingNumbers : List Nat :=
  c.bindings.map (·.index) ++ c.writeBacks.flatMap (·.bindings) ++
    c.properties.flatMap (fun p => p.bindings ++ p.assigned) ++
    c.methods.flatMap fun m => m.assignments.map (·.binding)

def sourceNumbers : List Nat :=
  c.sources.map (·.index) ++ c.properties.flatMap (·.dependents) ++
    c.methods.flatMap fun m => m.sourceCalls.map (·.source) ++ m.subscriptions.map (·.source)

def propertyNumbers : List (Nat × Nat) :=
  c.methods.flatMap fun m => m.propertyCalls.map fun v => (v.source, v.property)

/-- A change of the first source may replace the second: it depends on one of the properties. -/
def Replaces (a b : Nat) : Prop :=
  ∃ j p, Source.property? c.observed a j = some p ∧ b ∈ p.dependents

end Numbers

variable {c : Compiled}

theorem exists_method?_of_mem {m : UpdateMethod} (hm : m ∈ c.methods) :
    ∃ z, c.method? z = some m := by
  rcases List.mem_cons.mp hm with rfl | hm
  · exact ⟨.root, rfl⟩
  · obtain ⟨u, hu, hmu⟩ := List.mem_flatMap.mp hm
    obtain ⟨i, hi⟩ := List.mem_iff_getElem?.mp hu
    rcases List.mem_append.mp hmu with hmethod | hproperty
    · refine ⟨.source i, ?_⟩
      simpa [method?, hi] using hmethod
    · obtain ⟨p, hp, rfl⟩ := List.mem_map.mp hproperty
      obtain ⟨j, hj⟩ := List.mem_iff_getElem?.mp hp
      exact ⟨.property i j, by simp [method?, hi, hj]⟩

theorem exists_property?_of_mem {p : ObservedProperty} (hp : p ∈ c.properties) :
    ∃ i j, Source.property? c.observed i j = some p := by
  obtain ⟨s, hs, hps⟩ := List.mem_flatMap.mp hp
  obtain ⟨i, hi⟩ := List.mem_iff_getElem?.mp hs
  obtain ⟨j, hj⟩ := List.mem_iff_getElem?.mp hps
  exact ⟨i, j, Source.property?_eq_some_iff.mpr ⟨s, hi, hj⟩⟩

theorem property?_isSome_of_method? {i j : Nat} (h : (c.method? (.property i j)).isSome) :
    (Source.property? c.observed i j).isSome := by
  unfold method? at h
  rw [Option.isSome_map] at h
  cases hu : c.sources[i]? with
  | none => simp [hu] at h
  | some u =>
    simp only [hu, Option.bind_some] at h
    simp only [Source.property?, observed, List.getElem?_map, hu, Option.map_some, Option.bind_some,
      SourceUpdate.toSource, Option.isSome_map]
    exact h

theorem lt_length_of_mem_writeBacks {bs : List Binding} {w : WriteBack}
    (hw : w ∈ WriteBack.ofBindings bs) {b : Nat} (hb : b ∈ w.bindings) : b < bs.length := by
  have hserves := WriteBack.ofBindings_serves bs
  obtain ⟨k, -, hk⟩ := hserves.keyed w hw
  obtain ⟨x, hx, -⟩ := (hserves.members w hw k hk b).mp hb
  exact (List.getElem?_eq_some_iff.mp hx).1

namespace Over

variable {r : Registry} {sources : List Source} (h : c.Over r sources)
include h

theorem length_sources : c.sources.length = sources.length := by
  rw [h.sources_eq, List.length_map]

theorem index_lt {s : Source} (hs : s ∈ sources) : s.index < c.sources.length := by
  rw [h.length_sources]
  exact (List.getElem?_eq_some_iff.mp (h.linked.numbered.getElem?_index hs)).1

omit h in
theorem lt_length_of_value {b : Nat} (hb : (c.bindings[b]?.bind (·.value)).isSome) :
    b < c.bindings.length := by
  cases hx : c.bindings[b]? with
  | none => simp [hx] at hb
  | some x => exact (List.getElem?_eq_some_iff.mp hx).1

/-- An observed property is a linked one that keeps the bindings its method assigns. -/
theorem exists_linked_property {i j : Nat} {q : ObservedProperty}
    (hq : Source.property? c.observed i j = some q) : ∃ s p, sources[i]? = some s ∧
      s.properties[j]? = some p ∧ q.bindings = p.bindings ∧ q.dependents = p.dependents ∧
        q.assigned ⊆ p.assigned := by
  obtain ⟨t, ht, hj⟩ := Source.property?_eq_some_iff.mp hq
  rw [h.observed_eq, List.getElem?_map] at ht
  obtain ⟨s, hs, rfl⟩ := Option.map_eq_some_iff.mp ht
  simp only [SourceUpdate.toSource, sourceUpdate, List.map_map, List.getElem?_map] at hj
  obtain ⟨p, hp, rfl⟩ := Option.map_eq_some_iff.mp hj
  refine ⟨s, p, hs, hp, rfl, rfl, ?_⟩
  intro b hb
  exact (Selection.mem_bindings_ofRefresh.mp hb).1

theorem lt_length_of_mem_property {p : ObservedProperty} (hp : p ∈ c.properties) {b : Nat}
    (hb : b ∈ p.bindings ∨ b ∈ p.assigned) : b < c.bindings.length := by
  obtain ⟨i, j, hq⟩ := exists_property?_of_mem hp
  obtain ⟨s, p₀, hs, hp₀, hbindings, -, hassigned⟩ := h.exists_linked_property hq
  have hlinked := Source.property?_eq_some_iff.mpr ⟨s, hs, hp₀⟩
  have hb₀ : b ∈ p₀.bindings := by
    rcases hb with hb | hb
    · rwa [← hbindings]
    · exact h.linked.assigned i j p₀ hlinked (hassigned hb)
  exact lt_length_of_value (h.valued b (Or.inr ⟨s, List.mem_of_getElem? hs,
    Source.mem_bindings.mpr ⟨p₀, List.mem_of_getElem? hp₀, hb₀⟩⟩))

/-- A dependent source has a longer owner than the source that it depends on. -/
theorem longer_of_replaces {a b : Nat} (hab : c.Replaces a b) : ∃ s t, sources[a]? = some s ∧
    sources[b]? = some t ∧ s.owner.key.length < t.owner.key.length := by
  obtain ⟨j, q, hq, hb⟩ := hab
  obtain ⟨s, p, hs, hp, -, hdependents, -⟩ := h.exists_linked_property hq
  rw [hdependents] at hb
  obtain ⟨t, ht, rfl⟩ :=
    h.linked.dependents a j p (Source.property?_eq_some_iff.mpr ⟨s, hs, hp⟩) b hb
  refine ⟨s, t, hs, h.linked.numbered.getElem?_index (List.mem_filter.mp ht).1, ?_⟩
  apply h.longer s (List.mem_of_getElem? hs) p (List.mem_of_getElem? hp)
  rwa [h.linked.numbered a s hs]

theorem not_replaces_self (a : Nat) : ¬ Relation.TransGen c.Replaces a a := by
  have hlonger : ∀ b, Relation.TransGen c.Replaces a b → ∃ s t, sources[a]? = some s ∧
      sources[b]? = some t ∧ s.owner.key.length < t.owner.key.length := by
    intro b hab
    induction hab with
    | single hstep => exact h.longer_of_replaces hstep
    | tail _ hstep ih =>
      obtain ⟨s, t, hs, ht, hst⟩ := ih
      obtain ⟨t', u, ht', hu, htu⟩ := h.longer_of_replaces hstep
      obtain rfl : t = t' := Option.some.inj (ht.symm.trans ht')
      exact ⟨s, u, hs, hu, Nat.lt_trans hst htu⟩
  intro hcycle
  obtain ⟨s, t, hs, ht, hlt⟩ := hlonger a hcycle
  obtain rfl : s = t := Option.some.inj (hs.symm.trans ht)
  exact Nat.lt_irrefl _ hlt

theorem lt_length_of_method {z : MethodRef} {m : UpdateMethod} (hm : c.method? z = some m) :
    (∀ b ∈ m.assignments.map (·.binding), b < c.bindings.length) ∧
      ∀ i ∈ m.sourceCalls.map (·.source) ++ m.subscriptions.map (·.source), i < c.sources.length := by
  obtain ⟨f, hf⟩ := h.exists_task (z := z) (by rw [hm]; rfl)
  constructor
  · intro b hb
    have hassigns : b ∈ c.assigns z := by rwa [assigns, hm]
    exact lt_length_of_value ((h.mem_assigns_iff hf).mp hassigns).2
  · intro i hi
    have hsubscribes : i ∈ c.subscribes z := by rwa [subscribes, hm]
    obtain ⟨⟨s, hs, rfl⟩, -⟩ := (h.mem_subscribes_iff hf).mp hsubscribes
    exact h.index_lt (mem_sources_of_task hf (Or.inl hs))

theorem bindingNumbers_lt (hindex : ∀ x ∈ c.bindings, x.index < c.bindings.length)
    (hwriteBacks : c.writeBacks = WriteBack.ofBindings c.bindings) :
    ∀ b ∈ c.bindingNumbers, b < c.bindings.length := by
  intro b hb
  simp only [bindingNumbers, List.mem_append, List.mem_map, List.mem_flatMap] at hb
  rcases hb with ((⟨x, hx, rfl⟩ | ⟨w, hw, hb⟩) | ⟨p, hp, hb⟩) | ⟨m, hm, a, ha, rfl⟩
  · exact hindex x hx
  · rw [hwriteBacks] at hw
    exact lt_length_of_mem_writeBacks hw hb
  · exact h.lt_length_of_mem_property hp hb
  · obtain ⟨z, hz⟩ := exists_method?_of_mem hm
    exact (h.lt_length_of_method hz).1 _ (List.mem_map_of_mem ha)

theorem sourceNumbers_lt : ∀ i ∈ c.sourceNumbers, i < c.sources.length := by
  intro i hi
  rw [sourceNumbers, List.mem_append, List.mem_append] at hi
  rcases hi with (hi | hi) | hi
  · obtain ⟨u, hu, rfl⟩ := List.mem_map.mp hi
    rw [h.sources_eq] at hu
    obtain ⟨s, hs, rfl⟩ := List.mem_map.mp hu
    exact h.index_lt hs
  · obtain ⟨p, hp, hd⟩ := List.mem_flatMap.mp hi
    obtain ⟨a, j, hq⟩ := exists_property?_of_mem hp
    obtain ⟨-, t, -, ht, -⟩ := h.longer_of_replaces ⟨j, p, hq, hd⟩
    rw [h.length_sources]
    exact (List.getElem?_eq_some_iff.mp ht).1
  · obtain ⟨m, hm, hi⟩ := List.mem_flatMap.mp hi
    obtain ⟨z, hz⟩ := exists_method?_of_mem hm
    exact (h.lt_length_of_method hz).2 i hi

theorem propertyNumbers_isSome :
    ∀ v ∈ c.propertyNumbers, (Source.property? c.observed v.1 v.2).isSome := by
  intro v hv
  obtain ⟨m, hm, hv⟩ := List.mem_flatMap.mp hv
  obtain ⟨z, hz⟩ := exists_method?_of_mem hm
  have hcall : c.Calls z (.property v.1 v.2) := by
    rw [Calls, calls, hz, Option.elim_some, UpdateMethod.calls]
    exact List.mem_append_right _ (List.mem_map_of_mem hv)
  exact property?_isSome_of_method? (h.lawful.method_isSome z _ hcall)

end Over

/-- A run of any method comes to an end: calls cannot go on for ever. -/
theorem Lawful.wellFounded_calls (hc : c.Lawful) : WellFounded (flip c.Calls) := by
  obtain ⟨rank, hrank⟩ := hc.ranked
  exact Subrelation.wf (fun {y z} hcall => hrank z y hcall) (InvImage.wf rank wellFounded_lt)

end DataBinding.Compiled

namespace DataBinding.Scope

/-- What an accepted list of sites is compiled to has no cycles and no references to what is not there:
no source depends on itself, all numbers of bindings, sources and properties are in range, every called
method is there, and no method calls itself, directly or through others, so that its run ends. -/
theorem compile_references {r : Registry} {dataType targetType : String} {options : Options}
    {sites : List Site} {s : Scope} (hs : ofSites r dataType targetType options sites = .ok s) :
    (∀ a, ¬ Relation.TransGen s.compile.Replaces a a) ∧
      (∀ b ∈ s.compile.bindingNumbers, b < s.compile.bindings.length) ∧
      (∀ i ∈ s.compile.sourceNumbers, i < s.compile.sources.length) ∧
      (∀ v ∈ s.compile.propertyNumbers, (Source.property? s.compile.observed v.1 v.2).isSome) ∧
      (∀ z y, s.compile.Calls z y → (s.compile.method? y).isSome) ∧
      (∀ z, ¬ Relation.TransGen s.compile.Calls z z) ∧
      WellFounded (flip s.compile.Calls) := by
  have hover : s.compile.Over s.registry
      (Source.network s.registry s.dependencyType s.compile.bindings) :=
    Compiled.ofBindings_over (ofSites_wellFormed hs)
  have hwf := hover.lawful.wellFounded_calls
  have hindex : ∀ x ∈ s.compile.bindings, x.index < s.compile.bindings.length := by
    intro x hx
    obtain ⟨i, hi⟩ := List.mem_iff_getElem?.mp hx
    rw [(Compiled.getElem?_numbered hi).1]
    exact (List.getElem?_eq_some_iff.mp hi).1
  refine ⟨hover.not_replaces_self, hover.bindingNumbers_lt hindex rfl, hover.sourceNumbers_lt,
    hover.propertyNumbers_isSome, hover.lawful.method_isSome, ?_, hwf⟩
  intro z hcycle
  exact hwf.transGen.irrefl.irrefl z (Relation.transGen_swap.mpr hcycle)

/-- On a page that follows two neighbours of a node, the root method calls that of the node, which both
neighbours depend on. -/
theorem neighbours_references : ∃ s, NodePage.scope ["Top.Next.Text", "Top.Side.Text"] = .ok s ∧
    s.compile.sourceNumbers.length = 8 ∧ s.compile.Replaces 0 1 ∧
      s.compile.Calls .root (.source 0) ∧ (∀ i ∈ s.compile.sourceNumbers, i < 3) ∧
        ¬ Relation.TransGen s.compile.Replaces 0 0 ∧ WellFounded (flip s.compile.Calls) := by
  obtain ⟨s, hs, hpage⟩ := NodePage.exists_scope ["Top.Next.Text", "Top.Side.Text"]
    (fun s => s.compile.sourceNumbers.length == 8 && s.compile.sources.length == 3 &&
      (Source.property? s.compile.observed 0 0).any (·.dependents.contains 1) &&
      (s.compile.calls .root).contains (.source 0))
    (by decide +kernel)
  simp only [Bool.and_eq_true, beq_iff_eq, Option.any_eq_true, List.contains_eq_mem,
    decide_eq_true_eq] at hpage
  obtain ⟨⟨⟨hnumbers, hsources⟩, p, hp, hdependent⟩, hcall⟩ := hpage
  obtain ⟨hreplaces, -, hrange, -, -, -, hwf⟩ := compile_references hs
  rw [hsources] at hrange
  exact ⟨s, hs, hnumbers, ⟨0, p, hp, hdependent⟩, hcall, hrange, hreplaces 0, hwf⟩

end DataBinding.Scope
