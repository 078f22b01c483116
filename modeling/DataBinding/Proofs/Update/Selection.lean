import DataBinding.Proofs.Observation.Nesting
import DataBinding.Proofs.Scope.Acceptance
import DataBinding.Proofs.Update.Method

/-!
# Division of the work of a method

A method leaves bindings and sources to the methods of sources and properties that it calls. A source that
has a method of its own is called or is in the tree of one that is called. Called properties have no binding
in common, and no other candidate could be called along with them. What is left to no called method, the
method does itself, in the order in which it was given.
-/
namespace DataBinding

/-- The sources of a task are among the given ones, which stand at the positions that their numbers say. -/
structure Refresh.InRange (all : List Source) (f : Refresh) : Prop where
  numbered : Source.Numbered all
  available : ∀ s ∈ f.available, s ∈ all
  own : ∀ s ∈ f.own, s ∈ all

def SourceView.bindings (all : List Source) (v : SourceView) : List Nat :=
  all[v.source]?.elim [] (·.bindings)

def PropertyView.bindings (all : List Source) (v : PropertyView) : List Nat :=
  (Source.property? all v.source v.property).elim [] (·.bindings)

def PropertyView.dependents (all : List Source) (v : PropertyView) : List Nat :=
  (Source.property? all v.source v.property).elim [] (·.dependents)

namespace UpdateMethod

/-- The bindings that the called methods read. -/
def leftBindings (all : List Source) (m : UpdateMethod) : List Nat :=
  m.sourceCalls.flatMap (·.bindings all) ++ m.propertyCalls.flatMap (·.bindings all)

/-- The sources that the called methods renew. -/
def leftSources (all : List Source) (m : UpdateMethod) : List Nat :=
  m.sourceCalls.flatMap (fun v => Source.tree all [v.source]) ++
    m.propertyCalls.flatMap fun v => Source.tree all (v.dependents all)

/-- The method may call the properties of the source: it is available and in the tree of no called source,
or it is the method's own. -/
def IsCandidate (all : List Source) (f : Refresh) (m : UpdateMethod) (s : Source) : Prop :=
  (s ∈ f.available ∧ ∀ v ∈ m.sourceCalls, s.index ∉ Source.tree all [v.source]) ∨ f.own = some s

/-- The method does what the task asks for, by calls as far as possible. -/
structure Divides (r : Registry) (bs : List Binding) (all : List Source) (f : Refresh) (m : UpdateMethod) :
    Prop where
  source_available : ∀ v ∈ m.sourceCalls, ∃ s ∈ f.available, s.index = v.source ∧ s.hasMethod r = true
  /-- No source is called that another called one takes care of. -/
  sources_apart : m.sourceCalls.Pairwise fun u v => v.source ∉ Source.tree all [u.source]
  source_covered : ∀ s ∈ f.available, s.hasMethod r = true → s.index ∈ m.sourceCalls.map (·.source) ∨
    ∃ v ∈ m.sourceCalls, s.index ∈ Source.tree all [v.source]
  property_candidate : ∀ v ∈ m.propertyCalls, ∃ s, m.IsCandidate all f s ∧ s.index = v.source ∧
    v.property < s.properties.length
  properties_disjoint : m.propertyCalls.Pairwise fun u v => (u.bindings all).Disjoint (v.bindings all)
  /-- No candidate could be called in addition. -/
  properties_maximal : ∀ s, m.IsCandidate all f s → ∀ j p, s.properties[j]? = some p →
    (s.index, j) ∈ m.propertyCalls.map (fun v => (v.source, v.property)) ∨
      ∃ v ∈ m.propertyCalls, ∃ b ∈ p.bindings, b ∈ v.bindings all
  assigned : m.assignments.map (·.binding) =
    f.bindings.filter fun b => (bs[b]?.bind (·.value)).isSome && !(m.leftBindings all).contains b
  subscribed : m.subscriptions.map (·.source) =
    (f.available.map (·.index)).filter fun i => !(m.leftSources all).contains i

/-! ## Views of what is selected -/

section Views

variable (r : Registry) (bs : List Binding) (all : List Source) (f : Refresh)

theorem map_sourceCalls : (ofRefresh r bs all f).1.sourceCalls.map (·.source) =
    (Selection.chosenSources r all f).map (·.index) :=
  (ofSelection_views bs f.replaced (Selection.ofRefresh r all f)).2.1

theorem map_propertyCalls :
    (ofRefresh r bs all f).1.propertyCalls.map (fun v => (v.source, v.property)) =
      (Selection.chosenProperties r all f).map fun p => (p.source.index, p.position) :=
  (ofSelection_views bs f.replaced (Selection.ofRefresh r all f)).2.2.1

/-- Called sources are told apart from others by their numbers alone. -/
theorem forall_sourceCalls {P : Nat → Prop} :
    (∀ v ∈ (ofRefresh r bs all f).1.sourceCalls, P v.source) ↔
      ∀ s ∈ Selection.chosenSources r all f, P s.index := by
  rw [← List.forall_mem_map, map_sourceCalls, List.forall_mem_map]

theorem flatMap_sourceCalls (g : Nat → List Nat) :
    (ofRefresh r bs all f).1.sourceCalls.flatMap (fun v => g v.source) =
      (Selection.chosenSources r all f).flatMap fun s => g s.index := by
  rw [← List.flatMap_map, map_sourceCalls, List.flatMap_map]

theorem flatMap_propertyCalls (g : Nat × Nat → List Nat) :
    (ofRefresh r bs all f).1.propertyCalls.flatMap (fun v => g (v.source, v.property)) =
      (Selection.chosenProperties r all f).flatMap fun p => g (p.source.index, p.position) := by
  rw [← List.flatMap_map (f := fun v : PropertyView => (v.source, v.property)), map_propertyCalls,
    List.flatMap_map]

theorem pairwise_propertyCalls {R : Nat × Nat → Nat × Nat → Prop} :
    (ofRefresh r bs all f).1.propertyCalls.Pairwise
        (fun u v => R (u.source, u.property) (v.source, v.property)) ↔
      (Selection.chosenProperties r all f).Pairwise
        fun p q => R (p.source.index, p.position) (q.source.index, q.position) := by
  rw [← List.pairwise_map (f := fun v : PropertyView => (v.source, v.property)), map_propertyCalls,
    List.pairwise_map]

end Views

section InRange

variable {r : Registry} {all : List Source} {f : Refresh} (h : f.InRange all)
include h

theorem getElem?_of_chosen {s : Source} (hs : s ∈ Selection.chosenSources r all f) : all[s.index]? = some s :=
  h.numbered.getElem?_index (h.available s (Selection.mem_chosenSources hs).1)

theorem property?_of_chosen {p : PropertyRef} (hp : p ∈ Selection.chosenProperties r all f) :
    Source.property? all p.source.index p.position = some p.property := by
  obtain ⟨hsource, hproperty⟩ := Selection.mem_chosenProperties hp
  have hmem : p.source ∈ all := hsource.elim (h.available _) (h.own _)
  exact Source.property?_eq_some_iff.mpr ⟨p.source, h.numbered.getElem?_index hmem, hproperty⟩

theorem leftBindings_ofRefresh (bs : List Binding) :
    (ofRefresh r bs all f).1.leftBindings all = (Selection.chosenSources r all f).flatMap (·.bindings) ++
      (Selection.chosenProperties r all f).flatMap (·.property.bindings) := by
  have hsources := flatMap_sourceCalls r bs all f fun i => all[i]?.elim [] (·.bindings)
  have hproperties := flatMap_propertyCalls r bs all f fun x =>
    (Source.property? all x.1 x.2).elim [] (·.bindings)
  unfold leftBindings
  refine congrArg₂ _ (hsources.trans (List.flatMap_congr fun s hs => ?_))
    (hproperties.trans (List.flatMap_congr fun p hp => ?_))
  · simp only [getElem?_of_chosen h hs, Option.elim_some]
  · simp only [property?_of_chosen h hp, Option.elim_some]

theorem leftSources_ofRefresh (bs : List Binding) :
    (ofRefresh r bs all f).1.leftSources all =
      (Selection.chosenSources r all f).flatMap (fun s => Source.tree all [s.index]) ++
        (Selection.chosenProperties r all f).flatMap fun p => Source.tree all p.property.dependents := by
  have hproperties := flatMap_propertyCalls r bs all f fun x =>
    Source.tree all ((Source.property? all x.1 x.2).elim [] (·.dependents))
  unfold leftSources
  refine congrArg₂ _ (flatMap_sourceCalls r bs all f fun i => Source.tree all [i])
    (hproperties.trans (List.flatMap_congr fun p hp => ?_))
  simp only [property?_of_chosen h hp, Option.elim_some]

end InRange

/-! ## What is called -/

section Calls

variable {r : Registry} {bs : List Binding} {all : List Source} {f : Refresh}

theorem isCandidate_iff {s : Source} : (ofRefresh r bs all f).1.IsCandidate all f s ↔
    s ∈ Selection.remainingSources r all f ++ f.own.toList := by
  rw [IsCandidate, List.mem_append, Selection.mem_remainingSources, Option.mem_toList]
  exact or_congr_left (and_congr_right fun _ =>
    forall_sourceCalls r bs all f (P := fun i => s.index ∉ Source.tree all [i]))

theorem sources_apart (r : Registry) (bs : List Binding) (all : List Source) (f : Refresh) :
    (ofRefresh r bs all f).1.sourceCalls.Pairwise fun u v => v.source ∉ Source.tree all [u.source] := by
  have hgreedy : (Selection.chosenSources r all f).Pairwise fun a b =>
      b.index ∉ Source.tree all [a.index] :=
    (pairwise_greedy _ _).imp fun hab => by simpa using hab
  rw [← List.pairwise_map (f := SourceView.source) (R := fun i j => j ∉ Source.tree all [i]),
    map_sourceCalls, List.pairwise_map]
  exact hgreedy

theorem source_covered {s : Source} (hs : s ∈ f.available) (hmethod : s.hasMethod r = true) :
    s.index ∈ (ofRefresh r bs all f).1.sourceCalls.map (·.source) ∨
      ∃ v ∈ (ofRefresh r bs all f).1.sourceCalls, s.index ∈ Source.tree all [v.source] := by
  have hcandidate : s ∈ Selection.sourceCandidates r f :=
    mem_sortBy.mpr (List.mem_filter.mpr ⟨hs, hmethod⟩)
  rcases mem_greedy_or_ruledOut _ hcandidate with hchosen | ⟨a, ha, hruled⟩
  · rw [map_sourceCalls]
    exact Or.inl (List.mem_map_of_mem hchosen)
  · refine Or.inr ?_
    by_contra hnone
    push Not at hnone
    have hfree := (forall_sourceCalls r bs all f (P := fun i => s.index ∉ Source.tree all [i])).mp hnone a ha
    exact hfree (by simpa using hruled)

theorem property_candidate {v : PropertyView} (hv : v ∈ (ofRefresh r bs all f).1.propertyCalls) :
    ∃ s, (ofRefresh r bs all f).1.IsCandidate all f s ∧ s.index = v.source ∧
      v.property < s.properties.length := by
  have hmem := List.mem_map_of_mem (f := fun v : PropertyView => (v.source, v.property)) hv
  rw [map_propertyCalls] at hmem
  obtain ⟨p, hp, heq⟩ := List.mem_map.mp hmem
  obtain ⟨hsource, hposition⟩ := Prod.mk.inj heq
  have hcandidate := mem_sortBy.mp (mem_of_mem_greedy hp)
  obtain ⟨s, hs, hps⟩ := List.mem_flatMap.mp hcandidate
  obtain ⟨rfl, hproperty⟩ := Selection.mem_propertyRefs.mp hps
  refine ⟨p.source, isCandidate_iff.mpr hs, hsource, ?_⟩
  rw [← hposition]
  exact (List.getElem?_eq_some_iff.mp hproperty).1

theorem properties_disjoint (h : f.InRange all) (bs : List Binding) :
    (ofRefresh r bs all f).1.propertyCalls.Pairwise fun u v =>
      (u.bindings all).Disjoint (v.bindings all) := by
  have hgreedy : (Selection.chosenProperties r all f).Pairwise fun p q =>
      p.property.bindings.Disjoint q.property.bindings := by
    refine (pairwise_greedy _ _).imp fun {p q} hpq b hb hbq => ?_
    simp only [List.any_eq_false, List.contains_iff_mem] at hpq
    exact hpq b hbq hb
  refine (pairwise_propertyCalls r bs all f
    (R := fun x y => ((Source.property? all x.1 x.2).elim [] (·.bindings)).Disjoint
      ((Source.property? all y.1 y.2).elim [] (·.bindings)))).mpr ?_
  refine hgreedy.imp_of_mem fun {p q} hp hq hpq => ?_
  simpa only [property?_of_chosen h hp, property?_of_chosen h hq, Option.elim_some] using hpq

/-- A candidate that is not called has a binding in common with a property that is. -/
theorem properties_maximal (h : f.InRange all) {s : Source}
    (hs : (ofRefresh r bs all f).1.IsCandidate all f s) {j : Nat} {p : ObservedProperty}
    (hp : s.properties[j]? = some p) :
    (s.index, j) ∈ (ofRefresh r bs all f).1.propertyCalls.map (fun v => (v.source, v.property)) ∨
      ∃ v ∈ (ofRefresh r bs all f).1.propertyCalls, ∃ b ∈ p.bindings, b ∈ v.bindings all := by
  have hcandidate : ⟨s, j, p⟩ ∈ Selection.propertyCandidates r all f :=
    mem_sortBy.mpr (List.mem_flatMap.mpr
      ⟨s, isCandidate_iff.mp hs, Selection.mem_propertyRefs.mpr ⟨rfl, hp⟩⟩)
  rw [map_propertyCalls]
  rcases mem_greedy_or_ruledOut _ hcandidate with hchosen | ⟨q, hq, hshares⟩
  · exact Or.inl (List.mem_map.mpr ⟨_, hchosen, rfl⟩)
  · simp only [List.any_eq_true, List.contains_iff_mem] at hshares
    obtain ⟨b, hb, hbq⟩ := hshares
    have hview : (q.source.index, q.position) ∈
        (ofRefresh r bs all f).1.propertyCalls.map fun v => (v.source, v.property) := by
      rw [map_propertyCalls]
      exact List.mem_map.mpr ⟨q, hq, rfl⟩
    obtain ⟨v, hv, heq⟩ := List.mem_map.mp hview
    obtain ⟨hsource, hposition⟩ := Prod.mk.inj heq
    refine Or.inr ⟨v, hv, b, hb, ?_⟩
    rw [PropertyView.bindings, hsource, hposition, property?_of_chosen h hq]
    exact hbq

end Calls

/-! ## What is left -/

theorem map_fst_assigned (bs : List Binding) (s : Selection) :
    (UpdateMethod.assigned bs s).map (·.1) = s.bindings.filter fun b => (bs[b]?.bind (·.value)).isSome := by
  rw [UpdateMethod.assigned, List.map_filterMap, ← List.filterMap_eq_filter]
  congr 1
  funext b
  cases hvalue : bs[b]?.bind (·.value) <;> simp [Option.guard, hvalue]

section Left

variable {r : Registry} {all : List Source} {f : Refresh} (h : f.InRange all)
include h

theorem assignments_ofRefresh (bs : List Binding) : (ofRefresh r bs all f).1.assignments.map (·.binding) =
    f.bindings.filter fun b => (bs[b]?.bind (·.value)).isSome &&
      !((ofRefresh r bs all f).1.leftBindings all).contains b := by
  rw [leftBindings_ofRefresh h bs, ← List.filter_filter]
  exact (ofSelection_views bs f.replaced (Selection.ofRefresh r all f)).1.trans (map_fst_assigned bs _)

theorem subscriptions_ofRefresh (bs : List Binding) : (ofRefresh r bs all f).1.subscriptions.map (·.source) =
    (f.available.map (·.index)).filter fun i =>
      !((ofRefresh r bs all f).1.leftSources all).contains i := by
  have hsubscribed := (ofSelection_views bs f.replaced (Selection.ofRefresh r all f)).2.2.2
  rw [leftSources_ofRefresh h bs, List.filter_map]
  refine hsubscribed.trans (congrArg (List.map _) ?_)
  rw [Selection.ofRefresh, Selection.remainingSources, List.filter_filter]
  apply List.filter_congr
  intro s _
  rw [Bool.eq_iff_iff]
  simp only [Bool.and_eq_true, Bool.not_eq_true', List.any_eq_false, Function.comp_apply,
    List.contains_eq_mem, decide_eq_true_eq, decide_eq_false_iff_not, List.mem_append, List.mem_flatMap,
    not_or, not_exists, not_and]
  exact And.comm

end Left

/-- Every method divides the work that it is made for. -/
theorem ofRefresh_divides (r : Registry) (bs : List Binding) (all : List Source) (f : Refresh)
    (h : f.InRange all) : (ofRefresh r bs all f).1.Divides r bs all f where
  source_available := by
    rw [forall_sourceCalls r bs all f (P := fun i => ∃ s ∈ f.available, s.index = i ∧ s.hasMethod r = true)]
    intro s hs
    obtain ⟨havailable, hmethod⟩ := Selection.mem_chosenSources hs
    exact ⟨s, havailable, rfl, hmethod⟩
  sources_apart := sources_apart r bs all f
  source_covered s hs hmethod := source_covered hs hmethod
  property_candidate v hv := property_candidate hv
  properties_disjoint := properties_disjoint h bs
  properties_maximal s hs j p hp := properties_maximal h hs hp
  assigned := assignments_ofRefresh h bs
  subscribed := subscriptions_ofRefresh h bs

/-- Labels of which the second and the third depend on the same call, and the last one on nothing. -/
def labelPaths : List String :=
  ["Top.Text + Top.Side.Text", "Top.Left().Text + Top.Right().Text", "Top.Right().Text", "'plain'"]

/-- The task of assigning all labels of a page and subscribing to all its sources. -/
def labelTask (sc : Scope) : Refresh where
  bindings := List.range 4
  available := Source.network sc.registry sc.dependencyType sc.bindings

/-- The first label is left to the node on top and the next two to the right call; both calls are subscribed
to. -/
theorem labels_divided : ∃ sc, NodePage.scope labelPaths = .ok sc ∧
    (labelTask sc).InRange (labelTask sc).available ∧
    let m := (ofRefresh sc.registry sc.bindings (labelTask sc).available (labelTask sc)).1
    m.Divides sc.registry sc.bindings (labelTask sc).available (labelTask sc) ∧
    m.sourceCalls.map (·.source) = [0] ∧ m.propertyCalls.map (fun v => (v.source, v.property)) = [(2, 0)] ∧
    m.assignments.map (·.binding) = [3] ∧ m.subscriptions.map (·.source) = [1, 2] := by
  obtain ⟨sc, hsc, hselected⟩ := NodePage.exists_scope labelPaths
    (fun sc =>
      let s := Selection.ofRefresh sc.registry (labelTask sc).available (labelTask sc)
      s.sources.map (·.index) == [0] &&
        (s.properties.map (fun p => (p.source.index, p.position)) == [(2, 0)] &&
          ((assigned sc.bindings s).map (·.1) == [3] && s.subscribed.map (·.index) == [1, 2])))
    (by decide +kernel)
  simp only [Bool.and_eq_true, beq_iff_eq] at hselected
  obtain ⟨hsources, hproperties, hassigned, hsubscribed⟩ := hselected
  have hrange : (labelTask sc).InRange (labelTask sc).available :=
    ⟨Source.network_linked.numbered, fun s hs => hs, by simp [labelTask]⟩
  obtain ⟨hassignments, hcalledSources, hcalledProperties, hsubscriptions⟩ := ofSelection_views sc.bindings
    (labelTask sc).replaced (Selection.ofRefresh sc.registry (labelTask sc).available (labelTask sc))
  exact ⟨sc, hsc, hrange, ofRefresh_divides _ _ _ _ hrange, hcalledSources.trans hsources,
    hcalledProperties.trans hproperties, hassignments.trans hassigned, hsubscriptions.trans hsubscribed⟩

end UpdateMethod
end DataBinding
