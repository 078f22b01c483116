import DataBinding.Proofs.Scope.Tasks

/-!
# What a run covers

A run assigns a binding when some method in it reads the binding and leaves it to no other: neither to a
called method nor to the sources nested in its property. Properties with common bindings are not called
together, so the method of a property may leave a binding to nested sources and call no method that reads
it. The same holds of subscriptions: a source that was left to a method is subscribed to if the source is
available to the method, or to one that it runs.
-/
namespace DataBinding.Compiled

open Relation (TransGen)

variable {c : Compiled}

theorem method?_property_isSome {i j : Nat} {p : ObservedProperty}
    (hp : Source.property? c.observed i j = some p) : (c.method? (.property i j)).isSome := by
  unfold Source.property? observed at hp
  rw [List.getElem?_map] at hp
  cases hu : c.sources[i]? with
  | none => simp [hu] at hp
  | some u =>
    simp only [hu, Option.map_some, Option.bind_some, SourceUpdate.toSource, List.getElem?_map] at hp
    obtain ⟨q, hq, -⟩ := Option.map_eq_some_iff.mp hp
    simp [method?, hu, hq]

theorem reads_of_property? {i j : Nat} {p : ObservedProperty}
    (hp : Source.property? c.observed i j = some p) : c.reads (.property i j) = p.bindings := by
  rw [reads, hp]
  rfl

/-- If the method leaves the binding to nested sources, it runs another method that reads it. -/
def HandsOn (c : Compiled) (b : Nat) (z : MethodRef) : Prop :=
  b ∈ c.reads z → (∃ g ∈ c.nestedIn z, b ∈ g.bindings) → ∃ y, TransGen c.Calls z y ∧ b ∈ c.reads y

namespace Lawful

variable (hc : c.Lawful)
include hc

/-- What a run writes, said by responsibilities alone. -/
theorem writes_iff {z : MethodRef} (hz : (c.method? z).isSome) {b : Nat} :
    c.Writes z b ↔ ∃ y, c.Runs z y ∧ b ∈ c.reads y ∧ (∀ g ∈ c.nestedIn y, b ∉ g.bindings) ∧
      ∀ x, c.Calls y x → b ∉ c.reads x := by
  constructor
  · rintro ⟨y, hy, hb⟩
    exact ⟨y, hy, (hc.mem_assigns y (hc.method_isSome_of_runs hz hy) b).mp hb⟩
  · rintro ⟨y, hy, hb⟩
    exact ⟨y, hy, (hc.mem_assigns y (hc.method_isSome_of_runs hz hy) b).mpr hb⟩

theorem writes_of_handsOn {z : MethodRef} (hz : (c.method? z).isSome) {b : Nat} (hb : b ∈ c.reads z)
    (hon : ∀ y, c.Runs z y → c.HandsOn b y) : c.Writes z b := by
  -- The induction goes to methods run by `z` that read the binding: it ends at one that runs no other.
  have hall : ∀ y, c.Runs z y → b ∈ c.reads y → c.Writes y b := by
    intro y
    induction y using hc.induction_on_calls with
    | step y ih =>
      intro hy hby
      by_cases hmore : ∃ x, TransGen c.Calls y x ∧ b ∈ c.reads x
      · obtain ⟨x, hyx, hbx⟩ := hmore
        exact (ih x hyx (hy.trans hyx.to_reflTransGen) hbx).of_runs hyx.to_reflTransGen
      · refine ⟨y, .refl, (hc.mem_assigns y (hc.method_isSome_of_runs hz hy) b).mpr ⟨hby, ?_, ?_⟩⟩
        · intro g hg hbg
          exact hmore (hon y hy hby ⟨g, hg, hbg⟩)
        · intro x hx hbx
          exact hmore ⟨x, .single hx, hbx⟩
  exact hall z .refl hb

theorem handsOn_of_writes {z : MethodRef} (hz : (c.method? z).isSome) {b : Nat} (h : c.Writes z b) :
    c.HandsOn b z := by
  rintro - ⟨g, hg, hbg⟩
  obtain ⟨y, hy, hb, hnested, -⟩ := (hc.writes_iff hz).mp h
  rcases Relation.reflTransGen_iff_eq_or_transGen.mp hy with rfl | hzy
  · exact absurd hbg (hnested g hg)
  · exact ⟨y, hzy, hb⟩

/-- A source that is left to a method is subscribed to if none of the methods that it runs loses it. -/
theorem subscribes_of_forall {z : MethodRef} (hz : (c.method? z).isSome) {g : Nat}
    (hg : g ∈ c.renews z)
    (hon : ∀ y, c.Runs z y → g ∈ c.renews y → g ∉ c.available y → ∃ x, c.Calls y x ∧ g ∈ c.renews x) :
    c.Subscribes z g := by
  have hall : ∀ y, c.Runs z y → g ∈ c.renews y → c.Subscribes z g := by
    intro y
    induction y using hc.induction_on_calls with
    | step y ih =>
      intro hy hgy
      by_cases hself : g ∈ c.subscribes y
      · exact ⟨y, hy, hself⟩
      · have hcall : ∃ x, c.Calls y x ∧ g ∈ c.renews x := by
          by_cases havailable : g ∈ c.available y
          · rw [hc.mem_subscribes y (hc.method_isSome_of_runs hz hy)] at hself
            by_contra hnone
            exact hself ⟨havailable, Or.inr fun x hx hgx => hnone ⟨x, hx, hgx⟩⟩
          · exact hon y hy hgy havailable
        obtain ⟨x, hx, hgx⟩ := hcall
        exact ih x (.single hx) (hy.tail hx) hgx
  exact hall z .refl hg

end Lawful

theorem handsOn_of_property {b : Nat} {P : MethodRef → Prop}
    (h : ∀ i j, P (.property i j) → c.HandsOn b (.property i j)) {z : MethodRef} (hz : P z) :
    c.HandsOn b z := by
  cases z with
  | property i j => exact h i j hz
  | root | source i =>
    rintro - ⟨g, hg, -⟩
    cases hg

end DataBinding.Compiled

namespace DataBinding.Scope

variable {r : Registry} {dataType targetType : String} {options : Options} {sites : List Site}
  {s : Scope}

/-! ## Two pages with three labels

On both pages the second label depends on all that the other two do. -/

def callPaths : List String :=
  ["Top.Next.Left().Text", "Top.Next.Left().Text + Top.Next.Right().Text", "Top.Next.Right().Text"]

def callMethods : List MethodRef := [.root, .property 0 0, .property 1 0]

theorem exists_callPage : ∃ s, NodePage.scope callPaths = .ok s ∧
    (∀ b ∈ [0, 1, 2], ∃ x, s.compile.bindings[b]? = some x ∧ x.site.event = none ∧
      x.mode ≠ .oneWayToSource) ∧
    callMethods.map s.compile.calls = [[.property 0 0], [.property 1 0], []] ∧
    callMethods.map s.compile.assigns = [[], [], [0, 1]] ∧
    callMethods.map s.compile.reads = [[0, 1, 2], [0, 1, 2], [0, 1]] ∧
    s.compile.nestedIn (.property 1 0) = [] := by
  obtain ⟨s, hs, hpage⟩ := NodePage.exists_scope callPaths
    (fun s => [0, 1, 2].all (fun b => s.compile.bindings[b]?.any fun x =>
        x.site.event.isNone && x.mode != .oneWayToSource) &&
      callMethods.map s.compile.calls == [[.property 0 0], [.property 1 0], []] &&
      callMethods.map s.compile.assigns == [[], [], [0, 1]] &&
      callMethods.map s.compile.reads == [[0, 1, 2], [0, 1, 2], [0, 1]] &&
      (s.compile.nestedIn (.property 1 0)).isEmpty)
    (by decide +kernel)
  simp only [Bool.and_eq_true, List.all_eq_true, Option.any_eq_true, Option.isNone_iff_eq_none,
    bne_iff_ne, beq_iff_eq, List.isEmpty_iff, and_assoc] at hpage
  exact ⟨s, hs, hpage⟩

def neighbourPaths : List String := ["Top.Next.Text", "Top.Next.Text + Top.Side.Text", "Top.Side.Text"]

def neighbourMethods : List MethodRef := [.root, .source 0, .property 0 0, .property 1 0]

theorem exists_neighbourPage : ∃ s, NodePage.scope neighbourPaths = .ok s ∧
    s.compile.sources.map (·.index) = [0, 1, 2] ∧
    neighbourMethods.map s.compile.calls = [[.source 0], [.property 0 0], [.property 1 0], []] ∧
    neighbourMethods.map s.compile.subscribes = [[0], [], [1], []] ∧
    neighbourMethods.map s.compile.available = [[0, 1, 2], [], [1], []] ∧
    neighbourMethods.map s.compile.renews = [[0, 1, 2], [0, 1, 2], [1], []] ∧
    s.compile.reads (.property 0 1) = [1, 2] ∧ ∀ b i j, s.compile.HandsOn b (.property i j) := by
  obtain ⟨s, hs, hpage⟩ := NodePage.exists_scope neighbourPaths
    (fun s => s.compile.sources.map (·.index) == [0, 1, 2] &&
      neighbourMethods.map s.compile.calls == [[.source 0], [.property 0 0], [.property 1 0], []] &&
      neighbourMethods.map s.compile.subscribes == [[0], [], [1], []] &&
      neighbourMethods.map s.compile.available == [[0, 1, 2], [], [1], []] &&
      neighbourMethods.map s.compile.renews == [[0, 1, 2], [0, 1, 2], [1], []] &&
      s.compile.reads (.property 0 1) == [1, 2] &&
      s.compile.observed.zipIdx.all fun t => t.1.properties.zipIdx.all fun q =>
        decide (s.compile.nestedIn (.property t.2 q.2) ≠ [] →
          ∃ y ∈ s.compile.calls (.property t.2 q.2), q.1.bindings ⊆ s.compile.reads y))
    (by decide +kernel)
  simp only [Bool.and_eq_true, beq_iff_eq, and_assoc, List.all_eq_true, decide_eq_true_eq,
    Prod.forall, List.mem_zipIdx_iff_getElem?] at hpage
  obtain ⟨hindex, hcalls, hsubscribes, havailable, hrenews, hreads, hnested⟩ := hpage
  refine ⟨s, hs, hindex, hcalls, hsubscribes, havailable, hrenews, hreads, ?_⟩
  rintro b i j hb ⟨g, hg, -⟩
  cases hp : Source.property? s.compile.observed i j with
  | none => simp [Compiled.reads, hp] at hb
  | some p =>
    obtain ⟨t, ht, hj⟩ := Source.property?_eq_some_iff.mp hp
    obtain ⟨y, hy, hsubset⟩ := hnested t i ht p j hj (List.ne_nil_of_mem hg)
    rw [Compiled.reads_of_property? hp] at hb
    exact ⟨y, .single hy, hsubset hb⟩

/-! ## The root method -/

/-- A run of the root method writes a binding exactly if one of the methods in it reads the binding and
leaves it neither to nested sources nor to a called method. So it does if every property in the run hands
the binding on. -/
theorem root_writes_iff (hs : ofSites r dataType targetType options sites = .ok s) {b : Nat}
    {x : Binding} (hx : s.compile.bindings[b]? = some x) (hevent : x.site.event = none)
    (hmode : x.mode ≠ .oneWayToSource) :
    (s.compile.Writes .root b ↔ ∃ z, s.compile.Runs .root z ∧ b ∈ s.compile.reads z ∧
        (∀ g ∈ s.compile.nestedIn z, b ∉ g.bindings) ∧
          ∀ y, s.compile.Calls z y → b ∉ s.compile.reads y) ∧
      ((∀ i j, s.compile.Runs .root (.property i j) → s.compile.HandsOn b (.property i j)) →
        s.compile.Writes .root b) := by
  have hc := compile_lawful hs
  refine ⟨hc.writes_iff rfl, ?_⟩
  intro hon
  have hb : b ∈ s.compile.reads .root :=
    Compiled.mem_rootBindings_numbered.mpr ⟨x, hx, hevent, hmode⟩
  exact hc.writes_of_handsOn rfl hb fun y hy => Compiled.handsOn_of_property hon hy

/-- The first label is written through the property that reads its text. -/
theorem first_label_written : ∃ s, NodePage.scope callPaths = .ok s ∧
    ∃ x, s.compile.bindings[0]? = some x ∧ x.site.event = none ∧ x.mode ≠ .oneWayToSource ∧
      s.compile.Writes .root 0 := by
  obtain ⟨s, hs, hbindings, hcalls, -, hreads, hnested⟩ := exists_callPage
  obtain ⟨x, hx, hevent, hmode⟩ := hbindings 0 (by decide)
  simp only [callMethods, List.map_cons, List.map_nil, List.cons.injEq, and_true] at hcalls hreads
  obtain ⟨hroot, hfirst, hsecond⟩ := hcalls
  refine ⟨s, hs, x, hx, hevent, hmode, (root_writes_iff hs hx hevent hmode).1.mpr ?_⟩
  refine ⟨.property 1 0, .tail (b := .property 0 0) (.single ?_) ?_, ?_, ?_, ?_⟩
  · simp [Compiled.Calls, hroot]
  · simp [Compiled.Calls, hfirst]
  · simp [hreads]
  · simp [hnested]
  · simp [Compiled.Calls, hsecond]

/-- The third label is not written: it is left to a source whose property is not called, since that
property has the second label in common with one that is. -/
theorem third_label_not_written : ∃ s, NodePage.scope callPaths = .ok s ∧
    ∃ x, s.compile.bindings[2]? = some x ∧ x.site.event = none ∧ x.mode ≠ .oneWayToSource ∧
      ¬ s.compile.Writes .root 2 := by
  obtain ⟨s, hs, hbindings, hcalls, hassigns, -⟩ := exists_callPage
  obtain ⟨x, hx, hevent, hmode⟩ := hbindings 2 (by decide)
  simp only [callMethods, List.map_cons, List.map_nil, List.cons.injEq, and_true] at hcalls hassigns
  have hclosed : s.compile.Closed callMethods := by simp [Compiled.Closed, callMethods, hcalls]
  refine ⟨s, hs, x, hx, hevent, hmode, hclosed.not_writes List.mem_cons_self ?_⟩
  simp [callMethods, hassigns]

/-- A run of the root method subscribes to a source exactly if the source is available to a method in it
that calls the source's method or leaves the source to no other. So it does if every method that the
source is left to without being available hands it on. -/
theorem root_subscribes_iff (hs : ofSites r dataType targetType options sites = .ok s)
    {u : SourceUpdate} (hu : u ∈ s.compile.sources) :
    (s.compile.Subscribes .root u.index ↔ ∃ z, s.compile.Runs .root z ∧
        u.index ∈ s.compile.available z ∧ (s.compile.Calls z (.source u.index) ∨
          ∀ y, s.compile.Calls z y → u.index ∉ s.compile.renews y)) ∧
      ((∀ z, s.compile.Runs .root z → u.index ∈ s.compile.renews z →
          u.index ∉ s.compile.available z → ∃ y, s.compile.Calls z y ∧ u.index ∈ s.compile.renews y) →
        s.compile.Subscribes .root u.index) := by
  have hc := compile_lawful hs
  constructor
  · constructor
    · rintro ⟨z, hz, hg⟩
      exact ⟨z, hz, (hc.mem_subscribes z (hc.method_isSome_of_runs rfl hz) _).mp hg⟩
    · rintro ⟨z, hz, hg⟩
      exact ⟨z, hz, (hc.mem_subscribes z (hc.method_isSome_of_runs rfl hz) _).mpr hg⟩
  · intro hon
    have hg : u.index ∈ s.compile.renews .root :=
      List.mem_map.mpr ⟨u.toSource, List.mem_map.mpr ⟨u, hu, rfl⟩, rfl⟩
    exact hc.subscribes_of_forall rfl hg hon

/-- The neighbour that the first label shows is subscribed to. -/
theorem first_neighbour_subscribed : ∃ s, NodePage.scope neighbourPaths = .ok s ∧
    ∃ u ∈ s.compile.sources, u.index = 1 ∧ s.compile.Subscribes .root u.index := by
  obtain ⟨s, hs, hindices, hcalls, -, havailable, hrenews, -⟩ := exists_neighbourPage
  obtain ⟨u, hu, hindex⟩ : ∃ u ∈ s.compile.sources, u.index = 1 :=
    List.mem_map.mp (by rw [hindices]; decide)
  simp only [neighbourMethods, List.map_cons, List.map_nil, List.cons.injEq,
    and_true] at hcalls havailable hrenews
  refine ⟨s, hs, u, hu, hindex, (root_subscribes_iff hs hu).1.mpr ?_⟩
  rw [hindex]
  refine ⟨.property 0 0, .tail (b := .source 0) (.single ?_) ?_, ?_, Or.inr ?_⟩
  · simp [Compiled.Calls, hcalls]
  · simp [Compiled.Calls, hcalls]
  · simp [havailable]
  · simp [Compiled.Calls, hcalls, hrenews]

/-- The one that the third label shows is not: the method of the node on top calls only one of the two
properties, since these have the second label in common. -/
theorem third_neighbour_not_subscribed : ∃ s, NodePage.scope neighbourPaths = .ok s ∧
    ∃ u ∈ s.compile.sources, u.index = 2 ∧ ¬ s.compile.Subscribes .root u.index := by
  obtain ⟨s, hs, hindices, hcalls, hsubscribes, -⟩ := exists_neighbourPage
  obtain ⟨u, hu, hindex⟩ : ∃ u ∈ s.compile.sources, u.index = 2 :=
    List.mem_map.mp (by rw [hindices]; decide)
  simp only [neighbourMethods, List.map_cons, List.map_nil, List.cons.injEq,
    and_true] at hcalls hsubscribes
  have hclosed : s.compile.Closed neighbourMethods := by
    simp [Compiled.Closed, neighbourMethods, hcalls]
  refine ⟨s, hs, u, hu, hindex, ?_⟩
  rw [hindex]
  apply hclosed.not_subscribes List.mem_cons_self
  simp [neighbourMethods, hsubscribes]

/-! ## The methods that follow changes -/

/-- The methods of sources and properties write all bindings that they read exactly if every property
hands its bindings on. -/
theorem readers_write_iff (hs : ofSites r dataType targetType options sites = .ok s) (b : Nat) :
    ((∀ i j p, Source.property? s.compile.observed i j = some p → b ∈ p.bindings →
        s.compile.Writes (.property i j) b) ∧
      ∀ i u, s.compile.sources[i]? = some u → u.method.isSome → b ∈ u.toSource.bindings →
        s.compile.Writes (.source i) b) ↔
      ∀ i j, s.compile.HandsOn b (.property i j) := by
  have hc := compile_lawful hs
  constructor
  · rintro ⟨hproperties, -⟩ i j hb
    cases hp : Source.property? s.compile.observed i j with
    | none => simp [Compiled.reads, hp] at hb
    | some p =>
      rw [Compiled.reads_of_property? hp] at hb
      have hsome := Compiled.method?_property_isSome hp
      exact hc.handsOn_of_writes hsome (hproperties i j p hp hb)
        (by rw [Compiled.reads_of_property? hp]; exact hb)
  · intro hon
    have hany : ∀ z y, s.compile.Runs z y → s.compile.HandsOn b y := fun z y _ =>
      Compiled.handsOn_of_property (P := fun _ => True) (fun i j _ => hon i j) trivial
    constructor
    · intro i j p hp hb
      apply hc.writes_of_handsOn (Compiled.method?_property_isSome hp) _ (hany _)
      rw [Compiled.reads_of_property? hp]
      exact hb
    · intro i u hu hmethod hb
      apply hc.writes_of_handsOn _ _ (hany _)
      · rw [Compiled.method?, hu]
        exact hmethod
      · rw [Compiled.reads, Compiled.observed, List.getElem?_map, hu]
        exact hb

/-- With neighbours in the place of calls, a change of the node on top refreshes the third label. -/
theorem third_neighbour_refreshed : ∃ s, NodePage.scope neighbourPaths = .ok s ∧
    (∀ i j, s.compile.HandsOn 2 (.property i j)) ∧ s.compile.Writes (.property 0 1) 2 := by
  obtain ⟨s, hs, -, -, -, -, -, hreads, hon⟩ := exists_neighbourPage
  refine ⟨s, hs, hon 2, ?_⟩
  cases hp : Source.property? s.compile.observed 0 1 with
  | none => simp [Compiled.reads, hp] at hreads
  | some p =>
    rw [Compiled.reads_of_property? hp] at hreads
    exact ((readers_write_iff hs 2).mpr (hon 2)).1 0 1 p hp (by simp [hreads])

/-- A change of the node on top leaves the third label as it was. -/
theorem third_label_not_refreshed : ∃ s, NodePage.scope callPaths = .ok s ∧
    ∃ p, Source.property? s.compile.observed 0 0 = some p ∧ 2 ∈ p.bindings ∧
      ¬ s.compile.Writes (.property 0 0) 2 := by
  obtain ⟨s, hs, -, hcalls, hassigns, hreads, -⟩ := exists_callPage
  simp only [callMethods, List.map_cons, List.map_nil, List.cons.injEq,
    and_true] at hcalls hassigns hreads
  have hclosed : s.compile.Closed callMethods := by simp [Compiled.Closed, callMethods, hcalls]
  cases hp : Source.property? s.compile.observed 0 0 with
  | none => simp [Compiled.reads, hp] at hreads
  | some p =>
    rw [Compiled.reads_of_property? hp] at hreads
    refine ⟨s, hs, p, hp, by simp [hreads], hclosed.not_writes (by decide) ?_⟩
    simp [callMethods, hassigns]

end DataBinding.Scope
