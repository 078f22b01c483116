import DataBinding.Proofs.Binding.Value

/-!
# Types and static members

A type in an expression is there for its static members. Member accesses and calls see to that: what is
accessed on a type is static, and what is static is accessed on a type. Nothing else looks at whether an operand
is a type, so types are confined to static access in just those expressions that use none as a value.
-/
namespace DataBinding

/-- The property, field or method that is accessed on the first operand. -/
def Form.accessed? : Form → Option Member
  | .member m _ _ => some m
  | .call m _ => some m
  | _ => none

def Form.indexer? : Form → Option Member
  | .element indexer _ => some indexer
  | _ => none

namespace Expr

/-- Types are the targets of static members and methods, and static members and methods have no other
targets. -/
structure ConfinesTypes (e : Expr) : Prop where
  whole : e.isTypeRef = false
  type : ∀ n ∈ e.nodes, ∀ i o, n.operands[i]? = some o → o.isTypeRef = true →
    i = 0 ∧ ∃ m, n.form.accessed? = some m ∧ m.isStatic = true
  static : ∀ n ∈ e.nodes, ∀ m, n.form.accessed? = some m ∨ n.form.indexer? = some m → m.isStatic = true →
    ∃ target, n.operands.head? = some target ∧ target.isTypeRef = true

/-- The operands whose values are used: all but the target of a member access or a call. -/
def values (e : Expr) : List Expr := if e.form.accessed?.isSome then e.operands.tail else e.operands

/-- No type is used as a value, and no element is selected by a static indexer. -/
def sparesTypes (e : Expr) : Bool :=
  !e.isTypeRef && e.nodes.all fun n => n.values.all (!·.isTypeRef) && n.form.indexer?.all (!·.isStatic)

variable {e n : Expr}

theorem sparesTypes_iff : e.sparesTypes = true ↔ e.isTypeRef = false ∧ ∀ n ∈ e.nodes,
    (∀ o ∈ n.values, o.isTypeRef = false) ∧ ∀ m, n.form.indexer? = some m → m.isStatic = false := by
  simp [sparesTypes, List.all_eq_true, Option.all_eq_true]

theorem accessed?_eq_none_of_indexer? {form : Form} {m : Member} (h : form.indexer? = some m) :
    form.accessed? = none := by
  cases form with
  | element indexer marker => rfl
  | _ => cases h

theorem exists_getElem?_of_mem_values {o : Expr} (h : o ∈ n.values) :
    ∃ i, n.operands[i]? = some o ∧ (i = 0 → n.form.accessed? = none) := by
  unfold values at h
  split at h
  · obtain ⟨i, hi⟩ := List.mem_iff_getElem?.mp h
    rw [List.getElem?_tail] at hi
    exact ⟨i + 1, hi, fun hzero => by cases hzero⟩
  · rename_i hnone
    obtain ⟨i, hi⟩ := List.mem_iff_getElem?.mp h
    exact ⟨i, hi, fun _ => Option.not_isSome_iff_eq_none.mp hnone⟩

theorem mem_values_of_getElem? {i : Nat} {o : Expr} (h : n.operands[i]? = some o)
    (hi : i ≠ 0 ∨ n.form.accessed? = none) : o ∈ n.values := by
  unfold values
  split
  · rename_i hsome
    obtain ⟨j, rfl⟩ : ∃ j, i = j + 1 := by
      rcases hi with hi | hnone
      · exact ⟨i - 1, by omega⟩
      · simp [hnone] at hsome
    exact List.mem_of_getElem? (by rwa [List.getElem?_tail])
  · exact List.mem_of_getElem? h

theorem ConfinesTypes.sparesTypes (h : e.ConfinesTypes) : e.sparesTypes = true := by
  refine sparesTypes_iff.mpr ⟨h.whole, fun n hn => ⟨fun o ho => ?_, fun m hm => ?_⟩⟩
  · obtain ⟨i, hi, hzero⟩ := exists_getElem?_of_mem_values ho
    by_contra htype
    obtain ⟨hi0, m, hm, -⟩ := h.type n hn i o hi (by simpa using htype)
    simp [hzero hi0] at hm
  · -- the target of a static indexer would be a type, on which nothing is accessed
    by_contra hstatic
    obtain ⟨target, htarget, htype⟩ := h.static n hn m (.inr hm) (by simpa using hstatic)
    obtain ⟨-, m', hm', -⟩ := h.type n hn 0 target (by rwa [← List.head?_eq_getElem?]) htype
    simp [accessed?_eq_none_of_indexer? hm] at hm'

/-- Where accesses agree with their targets, no more is needed than that types are not used as values. -/
theorem confinesTypes_of_sparesTypes (hspares : e.sparesTypes = true)
    (haccess : ∀ n ∈ e.nodes, ∀ m, n.form.accessed? = some m →
      ∃ target, n.operands.head? = some target ∧ m.isStatic = target.isTypeRef) : e.ConfinesTypes := by
  obtain ⟨hwhole, hnodes⟩ := sparesTypes_iff.mp hspares
  refine ⟨hwhole, fun n hn i o hi htype => ?_, fun n hn m hm hstatic => ?_⟩
  · have hvalue : ¬ (i ≠ 0 ∨ n.form.accessed? = none) := fun h => by
      simp [(hnodes n hn).1 o (mem_values_of_getElem? hi h)] at htype
    obtain ⟨hzero, hsome⟩ := not_or.mp hvalue
    obtain rfl : i = 0 := not_not.mp hzero
    obtain ⟨m, hm⟩ := Option.ne_none_iff_exists'.mp hsome
    obtain ⟨target, htarget, hagree⟩ := haccess n hn m hm
    obtain rfl : target = o := Option.some.inj (htarget.symm.trans (List.head?_eq_getElem?.trans hi))
    exact ⟨rfl, m, hm, hagree.trans htype⟩
  · rcases hm with hm | hm
    · obtain ⟨target, htarget, hagree⟩ := haccess n hn m hm
      exact ⟨target, htarget, hagree ▸ hstatic⟩
    · simp [(hnodes n hn).2 m hm] at hstatic

end Expr

namespace Grammar

variable {s : Setting} {e : Expr}

/-- Each rule that accesses a member or method has a target that agrees with it. -/
theorem Reading.static_eq (hroot : s.root.form.accessed? = none) (h : Reading s e) {m : Member}
    (hm : e.form.accessed? = some m) :
    ∃ target, e.operands.head? = some target ∧ m.isStatic = target.isTypeRef := by
  cases h with
  | root => simp [hroot] at hm
  | member _ _ _ _ _ hstatic | call _ _ _ _ _ hstatic =>
    cases hm
    exact ⟨_, rfl, hstatic⟩
  | static _ _ _ hstatic | staticCall _ _ _ _ _ _ hstatic =>
    cases hm
    exact ⟨_, rfl, hstatic⟩
  | _ => cases hm

theorem accessed?_rootExpr (type : TypeRef) (name : String) (isStatic : Bool) :
    (rootExpr type name isStatic).form.accessed? = none := by
  cases isStatic <;> rfl

/-- In an expression that is read, what is accessed is static just where its target is a type; and types are
confined to static access if and only if none is used as a value. -/
theorem parseText_confinesTypes_iff {type : TypeRef} {name text : String} {isStatic whole : Bool} {p : Parsed}
    (hroot : s.root = rootExpr type name isStatic) (h : parseText s text whole = .ok p) :
    (∀ n ∈ p.expr.nodes, ∀ m, n.form.accessed? = some m →
      ∃ target, n.operands.head? = some target ∧ m.isStatic = target.isTypeRef) ∧
    (p.expr.ConfinesTypes ↔ p.expr.sparesTypes = true) := by
  have hnumber : startsWithNumber s.root = false := hroot ▸ startsWithNumber_rootExpr type name isStatic
  have hleaf : s.root.operands = [] := hroot ▸ operands_rootExpr type name isStatic
  have hnone : s.root.form.accessed? = none := hroot ▸ accessed?_rootExpr type name isStatic
  have hread := parseBytes_reading hnumber (mapError_eq_ok h)
  have haccess : ∀ n ∈ p.expr.nodes, ∀ m, n.form.accessed? = some m →
      ∃ target, n.operands.head? = some target ∧ m.isStatic = target.isTypeRef :=
    fun n hn _ hm => (hread.of_mem_nodes hleaf hn).static_eq hnone hm
  refine ⟨haccess, fun hconfines => hconfines.sparesTypes, fun hspares => ?_⟩
  exact Expr.confinesTypes_of_sparesTypes hspares haccess

/-! ## A page with colours -/

namespace ColourPage

def page : TypeDef where
  name := "Page"
  properties := [
    { name := "Title", type := .string },
    { name := "Limit", type := .named WellKnown.int32, isStatic := true },
    { name := "Item", type := .string, parameters := [{ name := "index", type := .named WellKnown.int32 }] }]
  methods := [
    { name := "Max", returns := .named WellKnown.int32, isStatic := true, parameters := [
        { name := "left", type := .named WellKnown.int32 }, { name := "right", type := .named WellKnown.int32 }] }]

def colour : TypeDef where
  name := "Colour"
  kind := .enumType
  fields := [{ name := "Red", type := .named "Colour", isStatic := true }]

def rows : TypeDef where
  name := "Rows"
  properties := [
    { name := "First", type := .named "Rows", isStatic := true },
    { name := "Item", type := .string, isStatic := true,
      parameters := [{ name := "index", type := .named WellKnown.int32 }] }]

/-- The page or, for its static members, its type; where a colour is expected. -/
def setting (isStatic : Bool) : Setting :=
  ⟨⟨Registry.systemTypes ++ [page, colour, rows]⟩, rootExpr (.named "Page") "dataRoot" isStatic,
    some (.named "Colour"), []⟩

/-- A text that is read, with the kind of root that it needs and whether it spares types. -/
structure Sample where
  isStatic : Bool := false
  text : String
  spares : Bool
  read : (parseText (setting isStatic) text true).toOption.any (·.expr.sparesTypes == spares) = true := by
    decide +kernel

theorem Sample.exists_parsed (sample : Sample) : ∃ p,
    parseText (setting sample.isStatic) sample.text true = .ok p ∧ p.expr.sparesTypes = sample.spares := by
  obtain ⟨p, hp, hspares⟩ := exists_ok sample.read
  exact ⟨p, hp, eq_of_beq hspares⟩

/-- Static members and methods are found on the page, on its type, in an enumeration and by the type that is
expected. -/
def choice : Sample := { text := "Max(1, Page.Limit) > Limit ? Colour.Red : Red", spares := true }

/-- Types that are used as values, and a static indexer. -/
def unconfined : List Sample :=
  [{ isStatic := true, text := "this", spares := false },
   { text := "Colour", spares := false },
   { text := "Page[0]", spares := false },
   { text := "(Page).Title", spares := false },
   { text := "Rows.First[0]", spares := false }]

end ColourPage

theorem choice_confinesTypes : ∃ p,
    parseText (ColourPage.setting false) "Max(1, Page.Limit) > Limit ? Colour.Red : Red" true = .ok p ∧
      p.expr.ConfinesTypes := by
  obtain ⟨p, hp, hspares⟩ := ColourPage.choice.exists_parsed
  have hroot : (ColourPage.setting false).root = rootExpr (.named "Page") "dataRoot" false := rfl
  exact ⟨p, hp, (parseText_confinesTypes_iff hroot hp).2.mpr hspares⟩

theorem unconfined_forall : ColourPage.unconfined.Forall fun sample => ∃ p,
    parseText (ColourPage.setting sample.isStatic) sample.text true = .ok p ∧ ¬ p.expr.ConfinesTypes := by
  have hspares : ∀ sample ∈ ColourPage.unconfined, sample.spares = false := by simp [ColourPage.unconfined]
  refine List.forall_iff_forall_mem.mpr fun sample hmem => ?_
  obtain ⟨p, hp, hused⟩ := sample.exists_parsed
  refine ⟨p, hp, fun hconfines => ?_⟩
  rw [hconfines.sparesTypes, hspares sample hmem] at hused
  cases hused

end Grammar
end DataBinding
