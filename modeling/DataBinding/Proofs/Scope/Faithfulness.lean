import DataBinding.Proofs.Scope.Tasks
import DataBinding.Proofs.Update.Restored

/-!
# Faithful methods

The methods of compiled bindings compute what the declarations say. With the local variables inlined and
the received owner in the place of the parameter, a method assigns the values of the bindings and computes
the owners of the sources as they are written. As for sharing, the names of the parameter and of local
variables may not stand in the texts that the values bring along.
-/
namespace DataBinding
open Text Sharing

theorem Source.exists_value {r : Registry} {dependencyType : Option TypeRef} {bs : List Binding} {g : Source}
    (hg : g ∈ network r dependencyType bs) :
    ∃ b ∈ bs, ∃ e, b.value = some e ∧ g.owner ∈ e.nodes := by
  obtain ⟨o, ho, howner⟩ := network_owner hg
  obtain ⟨b, e, hb, -, hvalue, hmem, hnode⟩ := Observation.mem_all_iff.mp ho
  obtain ⟨-, -, ⟨marker, haccess⟩, -⟩ := Observation.ofNode?_eq_some_iff.mp hnode
  rw [howner]
  exact ⟨b, List.mem_of_getElem? hb, e, hvalue,
    Expr.mem_nodes_trans (Expr.owner_mem_nodes haccess) hmem⟩

namespace Compiled

/-- The expression whose value a method receives: the owner of its source. -/
def replaced? (c : Compiled) : MethodRef → Option Expr
  | .root => none
  | .source i => c.sources[i]?.map (·.owner)
  | .property i _ => c.sources[i]?.map (·.owner)

namespace Over

variable {c : Compiled} {r : Registry} {sources : List Source} (h : c.Over r sources) {z : MethodRef}
  {f : Refresh} (hz : task? r c.bindings sources z = some f)

include h in
theorem getElem?_sources {i : Nat} {g : Source} (hg : sources[i]? = some g) :
    ∃ u, c.sources[i]? = some u ∧ u.owner = g.owner := by
  rw [h.sources_eq, List.getElem?_map, hg]
  exact ⟨_, rfl, rfl⟩

include h in
theorem exists_owner {i : Nat} {g : Source} {key : String} (hg : g ∈ sources) (hi : g.index = i)
    (hkey : key = g.owner.key) : ∃ u, c.sources[i]? = some u ∧ key = u.owner.key := by
  obtain ⟨u, hu, howner⟩ := h.getElem?_sources (h.linked.numbered.getElem?_index hg)
  exact ⟨u, hi ▸ hu, by rw [hkey, howner]⟩

include h hz in
theorem replaced?_of_task : c.replaced? z = f.replaced := by
  cases z with
  | root =>
    cases hz
    rfl
  | source i =>
    obtain ⟨g, hg, -, rfl⟩ := task?_source.mp hz
    obtain ⟨u, hu, howner⟩ := h.getElem?_sources hg
    simp [replaced?, hu, howner]
  | property i j =>
    obtain ⟨g, p, hg, -, rfl⟩ := task?_property.mp hz
    obtain ⟨u, hu, howner⟩ := h.getElem?_sources hg
    simp [replaced?, hu, howner]

include hz in
theorem selected_mem_sources :
    (∀ g ∈ (Selection.ofRefresh r sources f).sources, g ∈ sources) ∧
    (∀ p ∈ (Selection.ofRefresh r sources f).properties, p.source ∈ sources) ∧
    ∀ g ∈ (Selection.ofRefresh r sources f).subscribed, g ∈ sources := by
  refine ⟨fun g hg => ?_, fun p hp => ?_, fun g hg => ?_⟩
  · exact mem_sources_of_task hz (Or.inl (Selection.mem_chosenSources hg).1)
  · exact mem_sources_of_task hz (Selection.mem_chosenProperties hp).1
  · exact mem_sources_of_task hz (Or.inl (Selection.mem_subscribed_ofRefresh.mp hg).1)

include hz in
theorem exists_value_of_task
    (hsources : ∀ g ∈ sources, ∃ b ∈ c.bindings, ∃ e, b.value = some e ∧ g.owner ∈ e.nodes) :
    ∀ n ∈ (UpdateMethod.assigned c.bindings (Selection.ofRefresh r sources f)).map (·.2) ++
        UpdateMethod.owners (Selection.ofRefresh r sources f),
      ∃ b ∈ c.bindings, ∃ e, b.value = some e ∧ n ∈ e.nodes := by
  intro n hn
  obtain ⟨hcalled, hchanged, hsubscribed⟩ := selected_mem_sources hz
  rw [UpdateMethod.owners, List.mem_append, List.mem_append, List.mem_append] at hn
  rcases hn with hn | (hn | hn) | hn
  · obtain ⟨⟨i, v⟩, hv, rfl⟩ := List.mem_map.mp hn
    obtain ⟨j, -, hj⟩ := List.mem_filterMap.mp hv
    obtain ⟨w, hw, heq⟩ := Option.map_eq_some_iff.mp hj
    obtain ⟨-, rfl⟩ := Prod.mk.inj heq
    obtain ⟨b, hb, hvalue⟩ := Option.bind_eq_some_iff.mp hw
    exact ⟨b, List.mem_of_getElem? hb, w, hvalue, Expr.self_mem_nodes w⟩
  · obtain ⟨g, hg, rfl⟩ := List.mem_map.mp hn
    exact hsources g (hcalled g hg)
  · obtain ⟨p, hp, rfl⟩ := List.mem_map.mp hn
    exact hsources p.source (hchanged p hp)
  · obtain ⟨g, hg, rfl⟩ := List.mem_map.mp hn
    exact hsources g (hsubscribed g hg)

end Over
end Compiled

namespace Scope

variable {r : Registry} {dataType targetType : String} {options : Options} {sites : List Site} {s : Scope}

theorem compile_written (hs : ofSites r dataType targetType options sites = .ok s) :
    ∀ b ∈ s.compile.bindings, ∀ e, b.value = some e → e.Written := by
  intro b hb e he
  obtain ⟨i, hi⟩ := List.mem_iff_getElem?.mp hb
  obtain ⟨-, b₀, hb₀, -, hvalue⟩ := Compiled.getElem?_numbered hi
  have hwritten : ∀ b ∈ s.bindings, ∀ e ∈ b.exprs, e.Written :=
    ofSites_forall hs fun _ _ _ _ _ h => Declaration.binding_written (Binding.ofSite_eq_ok.mp h)
  exact hwritten b₀ (List.mem_of_getElem? hb₀) e (by simp [Binding.exprs, ← hvalue, he])

/-- Every method of compiled bindings is faithful: without local variables and with the received owner for
the parameter, it assigns the values of the bindings and computes the owners of the sources that it calls
or subscribes to. -/
theorem compile_faithful (hs : ofSites r dataType targetType options sites = .ok s)
    (hclear : ∀ b ∈ s.compile.bindings, ∀ e, b.value = some e → e.isClear methodNames)
    {z : MethodRef} {m : UpdateMethod} (hm : s.compile.method? z = some m) :
    (∀ a ∈ m.assignments, ∃ b e, s.compile.bindings[a.binding]? = some b ∧ b.value = some e ∧
      (UpdateMethod.restored m.locals (s.compile.replaced? z) a.expr).key = e.key) ∧
    (∀ v ∈ m.sourceCalls, ∃ u, s.compile.sources[v.source]? = some u ∧
      (UpdateMethod.restored m.locals (s.compile.replaced? z) v.expr).key = u.owner.key) ∧
    (∀ v ∈ m.propertyCalls, ∃ u, s.compile.sources[v.source]? = some u ∧
      (UpdateMethod.restored m.locals (s.compile.replaced? z) v.expr).key = u.owner.key) ∧
    (∀ v ∈ m.subscriptions, ∃ u, s.compile.sources[v.source]? = some u ∧
      (UpdateMethod.restored m.locals (s.compile.replaced? z) v.expr).key = u.owner.key) := by
  have hover : s.compile.Over s.registry
      (Source.network s.registry s.dependencyType s.compile.bindings) :=
    Compiled.ofBindings_over (ofSites_wellFormed hs)
  obtain ⟨f, hz⟩ := hover.exists_task (hm ▸ rfl : (s.compile.method? z).isSome)
  obtain rfl : _ = m := Option.some.inj ((hover.method?_of_task hz).symm.trans hm)
  rw [hover.replaced?_of_task hz]
  have hvalues := Compiled.Over.exists_value_of_task hz fun g hg => Source.exists_value hg
  have hparts : ∀ n, (∃ b ∈ s.compile.bindings, ∃ e, b.value = some e ∧ n ∈ e.nodes) →
      n.Written ∧ n.isClear methodNames := by
    rintro n ⟨b, hb, e, he, hmem⟩
    exact ⟨(compile_written hs b hb e he).of_mem_nodes hmem, Expr.isClear_of_mem_nodes (hclear b hb e he) hmem⟩
  obtain ⟨hassigned, hcalled, hchanged, hsubscribed⟩ :=
    UpdateMethod.ofSelection_restored (fun n hn => (hparts n (hvalues n hn)).1)
      fun n hn => (hparts n (hvalues n hn)).2
  obtain ⟨hmemCalled, hmemChanged, hmemSubscribed⟩ := Compiled.Over.selected_mem_sources hz
  refine ⟨?_, ?_, ?_, ?_⟩
  · intro a ha
    obtain ⟨e, he, hkey⟩ := hassigned a ha
    obtain ⟨b, hb, hvalue⟩ := Option.bind_eq_some_iff.mp he
    exact ⟨b, e, hb, hvalue, hkey⟩
  · intro v hv
    obtain ⟨g, hg, hindex, hkey⟩ := hcalled v hv
    exact hover.exists_owner (hmemCalled g hg) hindex hkey
  · intro v hv
    obtain ⟨p, hp, hindex, hkey⟩ := hchanged v hv
    exact hover.exists_owner (hmemChanged p hp) hindex hkey
  · intro v hv
    obtain ⟨g, hg, hindex, hkey⟩ := hsubscribed v hv
    exact hover.exists_owner (hmemSubscribed g hg) hindex hkey

/-- On a page that follows two neighbours of a node, the method for a new neighbour receives the node. It
subscribes to the neighbour with a variable whose value mentions the parameter. -/
theorem neighbour_faithful : ∃ s m, NodePage.scope ["Top.Next.Text", "Top.Side.Text"] = .ok s ∧
    (∀ b ∈ s.compile.bindings, ∀ e, b.value = some e → e.isClear methodNames) ∧
    s.compile.method? (.property 0 0) = some m ∧ m.locals.map (·.value.key) = ["value.Next"] ∧
    m.subscriptions.map (·.expr.key) = ["value1"] ∧
    ∀ v ∈ m.subscriptions, ∃ u, s.compile.sources[v.source]? = some u ∧
      (UpdateMethod.restored m.locals (s.compile.replaced? (.property 0 0)) v.expr).key = u.owner.key := by
  obtain ⟨s, hs, hpage⟩ := NodePage.exists_scope ["Top.Next.Text", "Top.Side.Text"]
    (fun s => s.compile.bindings.all (fun b => b.value.all (·.isClear methodNames)) &&
      (s.compile.method? (.property 0 0)).any fun m => m.locals.map (·.value.key) == ["value.Next"] &&
        m.subscriptions.map (·.expr.key) == ["value1"])
    (by decide +kernel)
  simp only [Bool.and_eq_true, List.all_eq_true, Option.all_eq_true, Option.any_eq_true, beq_iff_eq] at hpage
  obtain ⟨hclear, m, hm, hlocals, hsubscriptions⟩ := hpage
  exact ⟨s, m, hs, hclear, hm, hlocals, hsubscriptions, (compile_faithful hs hclear hm).2.2.2⟩

def sidePage : Except ScopeFault Scope :=
  ofSites ItemPage.registry "Page" "Page" {} (["Top.Side.P", "Top.Side.Q", "value1.Side.S"].map NodePage.site)

/-- No part of a value is written as the parameter or a variable, but a type is called like a side of the
first variable's value: its static member is taken for a member of that side. -/
theorem named_side_not_faithful : ∃ s m, sidePage = .ok s ∧
    (∀ b ∈ s.compile.bindings, ∀ e, b.value = some e → ∀ n ∈ e.nodes, methodNames.has n.key = false) ∧
    s.compile.bindings.map (fun b => b.value.map Expr.key) =
      [some "dataRoot.Top.Side.P", some "dataRoot.Top.Side.Q", some "value1.Side.S"] ∧
    s.compile.method? .root = some m ∧
    m.assignments.map (fun a => (a.binding,
        (UpdateMethod.restored m.locals (s.compile.replaced? .root) a.expr).key)) =
      [(0, "dataRoot.Top.Side.P"), (1, "dataRoot.Top.Side.Q"), (2, "dataRoot.Top.Side.S")] := by
  obtain ⟨s, hs, hpage⟩ := exists_ok (x := sidePage)
    (P := fun s =>
      s.compile.bindings.all (fun b => b.value.all (·.nodes.all fun n => !methodNames.has n.key)) &&
      s.compile.bindings.map (fun b => b.value.map Expr.key) ==
        [some "dataRoot.Top.Side.P", some "dataRoot.Top.Side.Q", some "value1.Side.S"] &&
      (s.compile.method? .root).any fun m => m.assignments.map (fun a => (a.binding,
        (UpdateMethod.restored m.locals (s.compile.replaced? .root) a.expr).key)) ==
          [(0, "dataRoot.Top.Side.P"), (1, "dataRoot.Top.Side.Q"), (2, "dataRoot.Top.Side.S")])
    (by decide +kernel)
  simp only [Bool.and_eq_true, List.all_eq_true, Option.all_eq_true, Option.any_eq_true, beq_iff_eq,
    Bool.not_eq_true'] at hpage
  obtain ⟨⟨hnames, hkeys⟩, m, hm, hassigned⟩ := hpage
  exact ⟨s, m, hs, hnames, hkeys, hm, hassigned⟩

end Scope
end DataBinding
