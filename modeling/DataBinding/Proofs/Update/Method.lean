import DataBinding.Proofs.Membership
import DataBinding.Update.Method

/-!
# What a method calls and does itself

Of what a method has to do, it leaves a binding to the called methods if one of them reads it, and a
source if it is in the tree of one of them; all the rest it does itself. Sharing subexpressions changes
the expressions of a method but not which bindings and sources they belong to.
-/
namespace DataBinding

namespace Sharing

theorem length_exprs_hoistAll (bound : Nat) (s : Sharing) :
    (hoistAll bound s).exprs.length = s.exprs.length := by
  induction bound generalizing s with
  | zero => rfl
  | succ bound ih =>
    unfold hoistAll
    split
    · rfl
    · rw [ih, hoist, List.length_map]

@[simp] theorem length_exprs_ofExprs (es : List Expr) : (ofExprs es).exprs.length = es.length := by
  rw [ofExprs, length_exprs_hoistAll]

end Sharing

namespace Selection

variable {r : Registry} {all : List Source} {f : Refresh}

theorem mem_chosenSources {s : Source} (hs : s ∈ chosenSources r all f) :
    s ∈ f.available ∧ s.hasMethod r = true := by
  have hcandidate := mem_of_mem_greedy hs
  rw [sourceCandidates, mem_sortBy] at hcandidate
  exact List.mem_filter.mp hcandidate

theorem mem_remainingSources {s : Source} :
    s ∈ remainingSources r all f ↔
      s ∈ f.available ∧ ∀ a ∈ chosenSources r all f, s.index ∉ Source.tree all [a.index] := by
  simp [remainingSources]

theorem mem_propertyRefs {s : Source} {p : PropertyRef} :
    p ∈ s.propertyRefs ↔ p.source = s ∧ s.properties[p.position]? = some p.property := by
  obtain ⟨source, position, property⟩ := p
  simp only [Source.propertyRefs, List.mem_map, Prod.exists, List.mem_zipIdx_iff_getElem?,
    PropertyRef.mk.injEq]
  constructor
  · rintro ⟨q, i, hq, rfl, rfl, rfl⟩
    exact ⟨rfl, hq⟩
  · rintro ⟨rfl, hq⟩
    exact ⟨property, position, hq, rfl, rfl, rfl⟩

/-- Called properties are properties of available sources or of the method's own source. -/
theorem mem_chosenProperties {p : PropertyRef} (hp : p ∈ chosenProperties r all f) :
    (p.source ∈ f.available ∨ f.own = some p.source) ∧
      p.source.properties[p.position]? = some p.property := by
  have hcandidate := mem_of_mem_greedy hp
  rw [propertyCandidates, mem_sortBy] at hcandidate
  obtain ⟨s, hs, hps⟩ := List.mem_flatMap.mp hcandidate
  obtain ⟨rfl, hproperty⟩ := mem_propertyRefs.mp hps
  refine ⟨?_, hproperty⟩
  rcases List.mem_append.mp hs with hs | hs
  · exact Or.inl (mem_remainingSources.mp hs).1
  · exact Or.inr (Option.mem_toList.mp hs)

theorem mem_bindings_ofRefresh {b : Nat} :
    b ∈ (ofRefresh r all f).bindings ↔
      b ∈ f.bindings ∧ (∀ s ∈ chosenSources r all f, b ∉ s.bindings) ∧
        ∀ p ∈ chosenProperties r all f, b ∉ p.property.bindings := by
  simp only [ofRefresh, mem_without, List.mem_append, List.mem_flatMap, not_or, not_exists, not_and]

theorem mem_subscribed_ofRefresh {s : Source} :
    s ∈ (ofRefresh r all f).subscribed ↔
      s ∈ f.available ∧ (∀ a ∈ chosenSources r all f, s.index ∉ Source.tree all [a.index]) ∧
        ∀ p ∈ chosenProperties r all f, s.index ∉ Source.tree all p.property.dependents := by
  simp [ofRefresh, mem_remainingSources, and_assoc]

end Selection

namespace UpdateMethod

theorem mem_assigned {bs : List Binding} {s : Selection} {b : Nat} :
    b ∈ (assigned bs s).map (·.1) ↔ b ∈ s.bindings ∧ (bs[b]?.bind (·.value)).isSome := by
  simp only [assigned, List.mem_map, List.mem_filterMap, Option.map_eq_some_iff,
    Option.isSome_iff_exists]
  constructor
  · rintro ⟨x, ⟨i, hi, e, he, rfl⟩, rfl⟩
    exact ⟨hi, e, he⟩
  · rintro ⟨hb, e, he⟩
    exact ⟨(b, e), ⟨b, hb, e, he, rfl⟩, rfl⟩

theorem map_zip_left {α β γ : Type} (f : α → γ) {as : List α} {bs : List β}
    (h : as.length ≤ bs.length) : (as.zip bs).map (fun x => f x.1) = as.map f := by
  calc (as.zip bs).map (fun x => f x.1) = ((as.zip bs).map Prod.fst).map f := by
        rw [List.map_map]
        rfl
    _ = as.map f := by rw [List.map_fst_zip h]

/-- The bindings and sources of a method are those selected: there is an expression for each of them. -/
theorem ofSelection_views (bs : List Binding) (replaced : Option Expr) (s : Selection) :
    (ofSelection bs replaced s).assignments.map (·.binding) = (assigned bs s).map (·.1) ∧
    (ofSelection bs replaced s).sourceCalls.map (·.source) = s.sources.map (·.index) ∧
    (ofSelection bs replaced s).propertyCalls.map (fun v => (v.source, v.property)) =
      s.properties.map (fun p => (p.source.index, p.position)) ∧
    (ofSelection bs replaced s).subscriptions.map (·.source) = s.subscribed.map (·.index) := by
  have hlength : (Sharing.ofExprs (((assigned bs s).map (·.2) ++ owners s).map
      (received replaced))).exprs.length = (assigned bs s).length + s.sources.length +
        s.properties.length + s.subscribed.length := by
    simp [owners]
    omega
  simp only [ofSelection, List.map_map, Function.comp_def]
  refine ⟨map_zip_left _ ?_, map_zip_left _ ?_,
    map_zip_left (fun p : PropertyRef => (p.source.index, p.position)) ?_, map_zip_left _ ?_⟩ <;>
    simp only [List.length_drop, hlength] <;> omega

end UpdateMethod
end DataBinding
