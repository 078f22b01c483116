import DataBinding.Proofs.Sharing.Inlining
import DataBinding.Proofs.Update.Method

/-!
# Expressions of update methods

An update method computes with the value that it receives and with local variables. With the variables
inlined and the received expression in the place of the parameter, its expressions are written like those
that it was made for, position by position.
-/
namespace DataBinding
open Text Sharing

/-- The names of the parameter and of the local variables. -/
abbrev methodNames : NameKind := generatedNames 0

namespace UpdateMethod

variable {e old : Expr} {replaced : Option Expr} {es : List Expr}

/-- An expression of a method, without the local variables and without the parameter. -/
def restored (ls : List Local) (replaced : Option Expr) (e : Expr) : Expr :=
  match replaced with
  | some old => Expr.replace (parameterFor old) old (Local.inline ls e)
  | none => Local.inline ls e

theorem has_parameter : methodNames.has "value" = true := by decide

theorem received_written (he : e.Written) : (received replaced e).Written := by
  cases replaced with
  | none => exact he
  | some old => exact he.replaceKey (.var _ _)

theorem received_worded (he : e.isClear methodNames) : (received replaced e).IsWorded methodNames := by
  have hworded := Expr.isWorded_of_isClear he
  cases replaced with
  | none => exact hworded
  | some old => exact hworded.replaceKey (Expr.isWorded_var has_parameter _)

theorem received_not_mentions (he : e.isClear methodNames) (n : Nat) :
    (received replaced e).mentions (localName n) = false := by
  have hnot := Expr.not_mentions_of_isClear he (has_localName (Nat.zero_le 1) n)
  cases replaced with
  | none => exact hnot
  | some old =>
    by_contra hmentions
    rcases Expr.mentions_of_replaceKey (Bool.not_eq_false _ ▸ hmentions) with hvar | hold
    · have hname : "value" = localName n := by simpa [parameterFor, Expr.mentions_var] using hvar
      have hhas := has_localName (Nat.le_refl 1) n
      rw [← hname] at hhas
      cases hhas
    · simp [hnot] at hold

/-- Written with the received expression for the parameter, an expression is as it was. -/
theorem meaning_received (he : e.isClear methodNames) :
    (received (some old) e).meaning (Semantics.assign Form.key "value" old.key) = e.key :=
  (Expr.meaning_replaceKey_var (fun n _ hkey => (Expr.meaning_key n).trans hkey)
    (Expr.not_mentions_of_isClear he has_parameter)).trans (Expr.meaning_key e)

/-- To put the received expression in the place of the parameter is to write it for the parameter. -/
theorem key_restored {s : Sharing} (h : s.Sound methodNames es) (he : e ∈ s.exprs) :
    (restored s.locals (some old) e).key =
      (Local.inline s.locals e).meaning (.naming (Function.update id "value" old.key)) := by
  have hwritten := Local.inline_written (fun l hl => h.written _ (value_mem_all hl))
    (h.written e (expr_mem_all he))
  have hworded := Local.inline_worded (fun l hl => h.worded _ (value_mem_all hl))
    (h.worded e (expr_mem_all he))
  have hvars : ∀ n ∈ (Local.inline s.locals e).nodes, n.key = "value" → n.form.isVar "value" :=
    fun n hn hkey => (hwritten.of_mem_nodes hn).isVar_of_key_eq (hworded.of_mem_nodes hn) has_parameter hkey
  rw [Expr.meaning_naming_update, ← Expr.meaning_key, ← Expr.meaning_key old]
  exact Expr.meaning_replaceKey_of_isVar hvars

theorem map_key_restored (hwritten : ∀ e ∈ es, e.Written) (hclear : ∀ e ∈ es, e.isClear methodNames) :
    (ofExprs (es.map (received replaced))).exprs.map
      (fun e => (restored (ofExprs (es.map (received replaced))).locals replaced e).key) = es.map Expr.key := by
  have hlocal := has_localName (Nat.zero_le 1)
  have hwritten' : ∀ e ∈ es.map (received replaced), e.Written :=
    List.forall_mem_map.mpr fun e he => received_written (hwritten e he)
  have hworded' : ∀ e ∈ es.map (received replaced), e.IsWorded methodNames :=
    List.forall_mem_map.mpr fun e he => received_worded (hclear e he)
  have hes' : ∀ e ∈ es.map (received replaced), ∀ n, e.mentions (localName n) = false :=
    List.forall_mem_map.mpr fun e he => received_not_mentions (hclear e he)
  cases replaced with
  | none =>
    have hkeys := meaning_inline_ofExprs hlocal hwritten' hworded' hes' (NameKind.spells_id _)
    have hkey : Expr.meaning Form.key = Expr.key := funext Expr.meaning_key
    have hreceived : es.map (received none) = es := List.map_id es
    rw [Semantics.naming_id, hkey, List.map_map, hreceived] at hkeys
    rw [hreceived]
    exact hkeys
  | some old =>
    have hsound := sound_ofExprs hlocal hwritten' hworded' hes'
    have hkeys := meaning_inline_ofExprs hlocal hwritten' hworded' hes'
      (NameKind.spells_update has_parameter old.key)
    rw [List.map_map, List.map_map] at hkeys
    calc (ofExprs (es.map (received (some old)))).exprs.map
          (fun e => (restored (ofExprs (es.map (received (some old)))).locals (some old) e).key)
        = (ofExprs (es.map (received (some old)))).exprs.map
            (Expr.meaning (.naming (Function.update id "value" old.key)) ∘
              Local.inline (ofExprs (es.map (received (some old)))).locals) :=
          List.map_congr_left fun e he => key_restored hsound he
      _ = es.map (Expr.meaning (.naming (Function.update id "value" old.key)) ∘ received (some old)) := hkeys
      _ = es.map Expr.key := by
          refine List.map_congr_left fun e he => ?_
          rw [Function.comp_apply, Expr.meaning_naming_update, meaning_received (hclear e he)]

/-- Elements that stand at the same position belong together. -/
theorem zip_of_map_eq {α β γ : Type} {f : α → γ} {g : β → γ} {as : List α} {bs : List β} {rest : List γ}
    (h : bs.map g = as.map f ++ rest) :
    (∀ x ∈ as.zip bs, g x.2 = f x.1) ∧ (bs.drop as.length).map g = rest := by
  induction as generalizing bs with
  | nil => exact ⟨by simp, by simpa using h⟩
  | cons a as ih =>
    cases bs with
    | nil => simp at h
    | cons b bs =>
      obtain ⟨hb, hbs⟩ := List.cons.inj h
      obtain ⟨hzip, hdrop⟩ := ih hbs
      exact ⟨List.forall_mem_cons.mpr ⟨hb, hzip⟩, hdrop⟩

/-- Restored, the expressions of a method are written like the values and owners that it was made for. -/
theorem ofSelection_restored {bs : List Binding} {s : Selection}
    (hwritten : ∀ e ∈ (assigned bs s).map (·.2) ++ owners s, e.Written)
    (hclear : ∀ e ∈ (assigned bs s).map (·.2) ++ owners s, e.isClear methodNames) :
    (∀ a ∈ (ofSelection bs replaced s).assignments, ∃ v, bs[a.binding]?.bind (·.value) = some v ∧
      (restored (ofSelection bs replaced s).locals replaced a.expr).key = v.key) ∧
    (∀ v ∈ (ofSelection bs replaced s).sourceCalls, ∃ g ∈ s.sources, g.index = v.source ∧
      (restored (ofSelection bs replaced s).locals replaced v.expr).key = g.owner.key) ∧
    (∀ v ∈ (ofSelection bs replaced s).propertyCalls, ∃ p ∈ s.properties, p.source.index = v.source ∧
      (restored (ofSelection bs replaced s).locals replaced v.expr).key = p.source.owner.key) ∧
    ∀ v ∈ (ofSelection bs replaced s).subscriptions, ∃ g ∈ s.subscribed, g.index = v.source ∧
      (restored (ofSelection bs replaced s).locals replaced v.expr).key = g.owner.key := by
  have hkeys : (ofExprs (((assigned bs s).map (·.2) ++ owners s).map (received replaced))).exprs.map
      (fun e => (restored (ofSelection bs replaced s).locals replaced e).key) =
      (assigned bs s).map (·.2.key) ++ (s.sources.map (·.owner.key) ++
        (s.properties.map (·.source.owner.key) ++ s.subscribed.map (·.owner.key))) :=
    (map_key_restored hwritten hclear).trans (by simp [owners, Function.comp_def])
  obtain ⟨hassigned, hkeys⟩ := zip_of_map_eq hkeys
  obtain ⟨hsources, hkeys⟩ := zip_of_map_eq hkeys
  obtain ⟨hproperties, hkeys⟩ := zip_of_map_eq hkeys
  obtain ⟨hsubscribed, -⟩ := zip_of_map_eq (hkeys.trans (List.append_nil _).symm)
  refine ⟨?_, ?_, ?_, ?_⟩
  · intro a ha
    obtain ⟨⟨⟨i, v⟩, e⟩, hx, rfl⟩ := List.mem_map.mp ha
    obtain ⟨j, -, hv⟩ := List.mem_filterMap.mp (List.of_mem_zip hx).1
    obtain ⟨w, hw, heq⟩ := Option.map_eq_some_iff.mp hv
    obtain ⟨rfl, rfl⟩ := Prod.mk.inj heq
    exact ⟨w, hw, by simpa only using hassigned _ hx⟩
  · intro v hv
    obtain ⟨⟨g, e⟩, hx, rfl⟩ := List.mem_map.mp hv
    exact ⟨g, (List.of_mem_zip hx).1, rfl, by simpa only using hsources _ hx⟩
  · intro v hv
    obtain ⟨⟨p, e⟩, hx, rfl⟩ := List.mem_map.mp hv
    exact ⟨p, (List.of_mem_zip hx).1, rfl, by simpa only using hproperties _ hx⟩
  · intro v hv
    obtain ⟨⟨g, e⟩, hx, rfl⟩ := List.mem_map.mp hv
    exact ⟨g, (List.of_mem_zip hx).1, rfl, by simpa only using hsubscribed _ hx⟩

end UpdateMethod
end DataBinding
