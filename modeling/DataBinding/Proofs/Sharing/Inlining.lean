import DataBinding.Proofs.Expr.Built
import DataBinding.Proofs.Sharing.Preservation

/-!
# Inlining of local variables

When the values of the variables take their places again, the last variable first, the shared expressions
are written as they were before. This holds as long as no name of a variable stands in the texts that the
expressions bring along, such as names of types and formats. Where one does, an expression with a variable
may be written like an expression that has nothing to do with it, and sharing takes one for the other.
-/
namespace DataBinding
open Text

/-! ## Clear expressions -/

/-- Does no name of the kind stand in the texts that the nodes bring along? -/
def Expr.isClear (names : NameKind) (e : Expr) : Bool := e.nodes.all fun n => n.form.isClear names n.type

theorem Text.not_isClear_of_has {names : NameKind} {x : String} (h : names.has x) :
    Text.isClear names x = false := by
  simp [Text.isClear, pass?_word (NameKind.isNameChar_of_has h), Region.isFree, h]

namespace Expr

variable {names : NameKind} {e : Expr} {x : String}

theorem isWorded_of_isClear (h : e.isClear names) : e.IsWorded names :=
  fun n hn => Or.inl (List.all_eq_true.mp h n hn)

theorem isClear_of_mem_nodes {n : Expr} (h : e.isClear names) (hn : n ∈ e.nodes) : n.isClear names :=
  List.all_eq_true.mpr fun o ho => List.all_eq_true.mp h o (mem_nodes_trans ho hn)

theorem not_mentions_of_isClear (h : e.isClear names) (hx : names.has x) : e.mentions x = false := by
  by_contra hmentions
  obtain ⟨n, hn, hform⟩ := mentions_iff.mp (Bool.not_eq_false _ ▸ hmentions)
  have hclear := List.all_eq_true.mp h n hn
  simp [hform, Form.isClear, not_isClear_of_has hx] at hclear

end Expr

/-! ## Written forms -/

variable {names : NameKind} {σ : String → String} {e : Expr} {ls : List Local} {s : Sharing}
  {es : List Expr}

/-- The values in the places of the variables, the last variable first. -/
def Local.inline (ls : List Local) (e : Expr) : Expr :=
  ls.foldr (fun l e => Expr.replace l.reference l.value e) e

namespace Local

variable (hnames : ∀ l ∈ ls, names.has l.name) (hwritten : ∀ l ∈ ls, l.value.Written)
  (hworded : ∀ l ∈ ls, l.value.IsWorded names) (he : e.Written) (hew : e.IsWorded names)

include hwritten he in
theorem inline_written : (inline ls e).Written := by
  induction ls with
  | nil => exact he
  | cons l ls ih =>
    obtain ⟨hl, hls⟩ := List.forall_mem_cons.mp hwritten
    exact (ih hls).replaceKey hl

include hworded hew in
theorem inline_worded : (inline ls e).IsWorded names := by
  induction ls with
  | nil => exact hew
  | cons l ls ih =>
    obtain ⟨hl, hls⟩ := List.forall_mem_cons.mp hworded
    exact (ih hls).replaceKey hl

include hnames hwritten hworded he hew in
theorem meaning_inline {α : Type} (f : Semantics α) :
    (inline ls e).meaning f = e.meaning (f.withLocals ls) := by
  induction ls generalizing f with
  | nil => rfl
  | cons l ls ih =>
    obtain ⟨hn, hnames⟩ := List.forall_mem_cons.mp hnames
    obtain ⟨hl, hwritten⟩ := List.forall_mem_cons.mp hwritten
    obtain ⟨hlw, hworded⟩ := List.forall_mem_cons.mp hworded
    have hvars : ∀ n ∈ (inline ls e).nodes, n.key = l.name → n.form.isVar l.name := fun n hm hkey =>
      ((inline_written hwritten he).of_mem_nodes hm).isVar_of_key_eq
        ((inline_worded hworded hew).of_mem_nodes hm) hn hkey
    calc (inline (l :: ls) e).meaning f
        = (inline ls e).meaning (f.assign l.name (l.value.meaning f)) :=
          Expr.meaning_replaceKey_of_isVar hvars
      _ = e.meaning (f.withLocals (l :: ls)) := ih hnames hwritten hworded _

end Local

namespace Sharing

variable (hlocal : ∀ n, names.has (localName n))

include hlocal in
/-- Inlined, the shared expressions are written as they were, with any spelling of the other names. -/
theorem meaning_inline_ofExprs (hwritten : ∀ e ∈ es, e.Written) (hworded : ∀ e ∈ es, e.IsWorded names)
    (hes : ∀ e ∈ es, ∀ n, e.mentions (localName n) = false) (hσ : names.Spells σ) :
    ((ofExprs es).exprs.map (Local.inline (ofExprs es).locals)).map (Expr.meaning (.naming σ)) =
      es.map (Expr.meaning (.naming σ)) := by
  have hdetermined : Determined (.naming σ) es := fun e he n hn e' he' n' hn' hkey =>
    ((hwritten e he).of_mem_nodes hn).meaning_naming_eq ((hwritten e' he').of_mem_nodes hn') hσ
      ((hworded e he).of_mem_nodes hn) ((hworded e' he').of_mem_nodes hn') hkey
  obtain ⟨h, -, -, hsame⟩ := preserved_ofExprs hlocal hes hwritten hworded hdetermined
  rw [← hsame, List.map_map]
  refine List.map_congr_left fun e he => ?_
  exact Local.meaning_inline (h.has_name hlocal) (fun l hl => h.written _ (value_mem_all hl))
    (fun l hl => h.worded _ (value_mem_all hl)) (h.written e (expr_mem_all he)) (h.worded e (expr_mem_all he)) _

/-! ## Names that are generated -/

/-- The names that consist of `value` and at least so many digits. -/
def generatedNames (least : Nat) : NameKind where
  has x := (after? ['v', 'a', 'l', 'u', 'e'] x.toList).any fun digits =>
    digits.all Char.isDigit && least ≤ digits.length
  spelled := by
    intro x hx
    cases hdigits : after? ['v', 'a', 'l', 'u', 'e'] x.toList with
    | none => simp [hdigits] at hx
    | some digits =>
      have hall : ∀ c ∈ digits, c.isDigit = true := by simp_all
      refine ⟨'a' :: 'l' :: 'u' :: 'e' :: digits, after?_eq_some hdigits, ?_⟩
      simp only [List.forall_mem_cons]
      exact ⟨by decide, by decide, by decide, by decide, fun c hc => isNameChar_of_isDigit (hall c hc)⟩

theorem has_localName {least : Nat} (hleast : least ≤ 1) (n : Nat) :
    (generatedNames least).has (localName n) := by
  have hall : ∀ c ∈ Nat.toDigits 10 n, c.isDigit = true := fun c hc =>
    Nat.isDigit_of_mem_toDigits (by decide) (by decide) hc
  have hlength : 1 ≤ (Nat.toDigits 10 n).length := by
    rw [Nat.toDigits_eq_if (by decide)]
    split <;> simp
  have hle : least ≤ (Nat.toDigits 10 n).length := hleast.trans hlength
  simpa [generatedNames, localName, after?] using ⟨hall, hle⟩

/-- Expressions in which no generated name stands are shared so that inlining gives them back. The variables
have different names, each value mentions only variables that are declared before it, and each variable is
mentioned by an expression or a later value. -/
theorem ofExprs_inlined (hbuilt : ∀ e ∈ es, e.Built) (hclear : ∀ e ∈ es, e.isClear (generatedNames 1)) :
    ((ofExprs es).locals.map (·.name)).Nodup ∧
    (∀ (i : Nat) (l : Local) (x : String), (ofExprs es).locals[i]? = some l → l.value.mentions x →
      (∃ e ∈ es, e.mentions x) ∨ ∃ j < i, ∃ l' : Local, (ofExprs es).locals[j]? = some l' ∧ l'.name = x) ∧
    (∀ (i : Nat) (l : Local), (ofExprs es).locals[i]? = some l →
      (∃ e ∈ (ofExprs es).exprs, e.mentions l.name) ∨
        ∃ j > i, ∃ l' : Local, (ofExprs es).locals[j]? = some l' ∧ l'.value.mentions l.name) ∧
    ((ofExprs es).exprs.map (Local.inline (ofExprs es).locals)).map Expr.key = es.map Expr.key := by
  have hlocal := has_localName (Nat.le_refl 1)
  have hwritten : ∀ e ∈ es, e.Written := fun e he => (hbuilt e he).written
  have hworded : ∀ e ∈ es, e.IsWorded (generatedNames 1) := fun e he => Expr.isWorded_of_isClear (hclear e he)
  have hes : ∀ e ∈ es, ∀ n, e.mentions (localName n) = false := fun e he n =>
    Expr.not_mentions_of_isClear (hclear e he) (hlocal n)
  have h := sound_ofExprs hlocal hwritten hworded hes
  refine ⟨h.distinct, ?_, ?_, ?_⟩
  · intro i l x hi hx
    rcases h.known l.value (value_mem_all (List.mem_of_getElem? hi)) x hx with hfound | ⟨l', hl', rfl⟩
    · exact Or.inl hfound
    · obtain ⟨j, hj⟩ := List.mem_iff_getElem?.mp hl'
      exact Or.inr ⟨j, h.ordered.lt_of_mentions hi hj hx, l', hj, rfl⟩
  · intro i l hi
    obtain ⟨e, he, hx⟩ := h.used l (List.mem_of_getElem? hi)
    rcases List.mem_append.mp he with he | he
    · exact Or.inl ⟨e, he, hx⟩
    · obtain ⟨l', hl', rfl⟩ := List.mem_map.mp he
      obtain ⟨j, hj⟩ := List.mem_iff_getElem?.mp hl'
      exact Or.inr ⟨j, h.ordered.lt_of_mentions hj hi hx, l', hj, hx⟩
  · have hkeys := meaning_inline_ofExprs hlocal hwritten hworded hes (NameKind.spells_id _)
    have hkey : Expr.meaning Form.key = Expr.key := funext Expr.meaning_key
    simpa only [Semantics.naming_id, hkey] using hkeys

end Sharing

/-! ## A page of items -/

namespace ItemPage

def item : TypeDef where
  name := "Item"
  properties := [
    { name := "P", type := .string }, { name := "Q", type := .string },
    { name := "Side", type := .named "Item" }]
  methods := [
    { name := "F", returns := .named "Item", parameters := [{ name := "a", type := .string }] },
    { name := "G", returns := .named "Item", parameters := [{ name := "a", type := .string }] }]

/-- A type whose name is that of a side of a variable's value. -/
def sides : TypeDef where
  name := "value1.Side"
  properties := [{ name := "S", type := .string, isStatic := true }]

def page : TypeDef where
  name := "Page"
  properties := [{ name := "Top", type := .named "Item" }, { name := "Low", type := .named "Item" }]

def registry : Registry := ⟨Registry.systemTypes ++ [item, sides, page]⟩

def setting : Grammar.Setting :=
  ⟨registry, Grammar.rootExpr (.named "Page") "dataRoot" false, none, []⟩

def exprs (texts : List String) : List Expr :=
  texts.filterMap fun text =>
    match Grammar.parseText setting text true with
    | .ok p => some p.expr
    | .error _ => none

theorem exprs_built (texts : List String) : ∀ e ∈ exprs texts, e.Built := by
  intro e he
  obtain ⟨text, -, hsome⟩ := List.mem_filterMap.mp he
  split at hsome
  · rename_i p hp
    cases hsome
    have hroot : setting.root = Grammar.rootExpr (.named "Page") "dataRoot" false := rfl
    exact .parsed hroot hp
  · cases hsome

end ItemPage

namespace Sharing

/-- Two sides are computed once, and inlining gives back what was written. -/
theorem sides_inlined :
    (ofExprs (ItemPage.exprs ["Top.Side.P", "Top.Side.Q"])).exprs.map Expr.key = ["value2.P", "value2.Q"] ∧
    ((ofExprs (ItemPage.exprs ["Top.Side.P", "Top.Side.Q"])).exprs.map
      (Local.inline (ofExprs (ItemPage.exprs ["Top.Side.P", "Top.Side.Q"])).locals)).map Expr.key =
        ["dataRoot.Top.Side.P", "dataRoot.Top.Side.Q"] := by
  have hclear : ∀ e ∈ ItemPage.exprs ["Top.Side.P", "Top.Side.Q"], e.isClear (generatedNames 1) := by
    decide +kernel
  refine ⟨by decide +kernel, ?_⟩
  rw [(ofExprs_inlined (ItemPage.exprs_built _) hclear).2.2.2]
  decide +kernel

/-- A static member of a type whose name starts like a variable: no node is written as the name of a
variable, but the type is taken for a side of the first variable's value. -/
theorem named_side_not_inlined :
    let es := ItemPage.exprs ["Top.Side.P", "Top.Side.Q", "value1.Side.S"]
    (∀ e ∈ es, ∀ n ∈ e.nodes, (generatedNames 1).has n.key = false) ∧
    es.map Expr.key = ["dataRoot.Top.Side.P", "dataRoot.Top.Side.Q", "value1.Side.S"] ∧
    ((ofExprs es).exprs.map (Local.inline (ofExprs es).locals)).map Expr.key =
      ["dataRoot.Top.Side.P", "dataRoot.Top.Side.Q", "dataRoot.Top.Side.S"] := by
  decide +kernel

end Sharing
end DataBinding
