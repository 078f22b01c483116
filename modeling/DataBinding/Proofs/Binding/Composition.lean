import DataBinding.Proofs.Binding.DataType

/-!
# What bindings are composed of

Of the arguments under a name the last one counts. The value of a binding is its path with a layer around it
for the converter, one for the replacement of null, one for the fallback and one for the format, each if it
is given. The layer of the fallback takes a number, unless it stands around a task and is left out. Of the
path, the expression to write back, the events and the mode, a binding has as much as later steps rely on.
-/
namespace DataBinding
open Text

/-! ## The arguments that count -/

namespace Declaration

open Argument

variable {as : List Argument}

/-- What only arguments under one name have is found in the last of them. -/
theorem last?_eq_some_iff_prevails {α : Type} {f : Argument → Option α} (name : String)
    (hf : ∀ a, (f a).isSome ↔ a.slot = name) {x : α} :
    last? f as = some x ↔ ∃ a, Prevails as a ∧ f a = some x := by
  have hslot {a b : Argument} (ha : (f a).isSome) : f b = none ↔ b.slot ≠ a.slot := by
    rw [(hf a).mp ha, ne_eq, ← hf b, Option.not_isSome_iff_eq_none]
  rw [last?, List.findSome?_eq_some_iff]
  constructor
  · rintro ⟨back, a, front, has, ha, hback⟩
    refine ⟨a, ⟨front.reverse, back.reverse, ?_, fun b hb => ?_⟩, ha⟩
    · rw [← List.reverse_reverse as, has]
      simp
    · exact (hslot (by simp [ha])).mp (hback b (List.mem_reverse.mp hb))
  · rintro ⟨a, ⟨front, back, rfl, hback⟩, ha⟩
    refine ⟨back.reverse, a, front.reverse, by simp, ha, fun b hb => ?_⟩
    exact (hslot (by simp [ha])).mpr (hback b (List.mem_reverse.mp hb))

def exprOf? (role : Role) : Argument → Option Expr
  | .expression r e _ _ _ => if r = role then some e else none
  | _ => none

theorem isSome_exprOf?_iff {role : Role} {a : Argument} : (exprOf? role a).isSome ↔ a.slot = role.name := by
  cases a with
  | expression r e start namespaces resource => cases r <;> cases role <;> simp [exprOf?, slot, Role.name]
  | _ => cases role <;> simp [exprOf?, slot, Role.name]

theorem expr?_eq_last? (role : Role) (as : List Argument) : expr? role as = last? (exprOf? role) as := by
  unfold expr? placed? last?
  rw [List.map_findSome?]
  congr 1
  funext a
  cases a with
  | expression r e start namespaces resource => by_cases hr : r = role <;> simp [exprOf?, hr]
  | _ => rfl

theorem expr?_eq_some_iff {role : Role} {e : Expr} : expr? role as = some e ↔
    ∃ start namespaces resource, Prevails as (.expression role e start namespaces resource) := by
  rw [expr?_eq_last?, last?_eq_some_iff_prevails role.name fun a => isSome_exprOf?_iff]
  constructor
  · rintro ⟨a, ha, he⟩
    cases a with
    | expression r e' start namespaces resource =>
      obtain ⟨rfl, rfl⟩ : r = role ∧ e' = e := by simpa [exprOf?] using he
      exact ⟨start, namespaces, resource, ha⟩
    | _ => cases he
  · rintro ⟨start, namespaces, resource, ha⟩
    exact ⟨_, ha, by simp [exprOf?]⟩

theorem format?_eq_some_iff {text : String} : format? as = some text ↔ Prevails as (.format text) := by
  unfold format?
  rw [last?_eq_some_iff_prevails "StringFormat"]
  · constructor
    · rintro ⟨a, ha, htext⟩
      cases a with
      | format text' =>
        cases htext
        exact ha
      | _ => cases htext
    · exact fun ha => ⟨_, ha, rfl⟩
  · intro a
    cases a with
    | expression r e start namespaces resource => cases r <;> simp [slot, Role.name]
    | _ => simp [slot]

theorem mode?_eq_none (h : ∀ m, .mode m ∉ as) : mode? as = none := by
  rw [mode?, last?, List.findSome?_eq_none_iff]
  intro a ha
  cases a with
  | mode m => exact absurd (List.mem_reverse.mp ha) (h m)
  | _ => rfl

theorem isSome_expr?_iff {role : Role} : (expr? role as).isSome ↔ ∃ a ∈ as, a.slot = role.name := by
  rw [expr?_eq_last?, last?, List.findSome?_isSome_iff]
  simp only [List.mem_reverse, isSome_exprOf?_iff]

theorem impliesTwoWay_iff :
    impliesTwoWay as = true ↔ (expr? .bindBack as).isSome ∨ ∃ es, .events es ∈ as := by
  rw [impliesTwoWay, List.any_eq_true, isSome_expr?_iff]
  constructor
  · rintro ⟨a, ha, himplies⟩
    split at himplies
    · exact Or.inl ⟨_, ha, rfl⟩
    · exact Or.inr ⟨_, ha⟩
    · cases himplies
  · rintro (⟨a, ha, hslot⟩ | ⟨es, hes⟩)
    · refine ⟨a, ha, ?_⟩
      have hback := isSome_exprOf?_iff.mpr hslot
      cases a with
      | expression r e start namespaces resource =>
        obtain rfl : r = .bindBack := by simpa [exprOf?] using hback
        rfl
      | _ => cases hback
    · exact ⟨_, hes, rfl⟩

theorem events_ne_nil_iff (has : ∀ es, .events es ∈ as → es ≠ []) :
    events as ≠ [] ↔ ∃ es, .events es ∈ as := by
  constructor
  · intro hne
    obtain ⟨e, he⟩ := List.exists_mem_of_ne_nil _ hne
    obtain ⟨a, ha, hea⟩ := List.mem_flatMap.mp (mem_distinct.mp he)
    cases a with
    | events es => exact ⟨es, ha⟩
    | _ => cases hea
  · rintro ⟨es, hes⟩
    obtain ⟨e, he⟩ := List.exists_mem_of_ne_nil es (has es hes)
    exact List.ne_nil_of_mem (mem_distinct.mpr (List.mem_flatMap.mpr ⟨_, hes, he⟩))

/-! ## Steps without a fault -/

theorem value_of_no_path {c : Context} {site : Site} {number next : Nat} {v : Option Expr}
    (hpath : expr? .path as = none) (h : (value c site as).run.run number = (.ok v, next)) :
    v = none ∧ next = number := by
  unfold value at h
  rw [hpath] at h
  cases h
  exact ⟨rfl, rfl⟩

theorem mode_of_no_path {default m : BindingMode} (hpath : expr? .path as = none)
    (h : mode default as = .ok m) : (expr? .bindBack as).isSome ∧ m = .oneWayToSource := by
  unfold mode at h
  rw [hpath] at h
  split at h <;> simp_all

/-- Without a mode, arguments for writing back imply one. -/
theorem mode_of_path {default m : BindingMode} (hpath : (expr? .path as).isSome) (hmode : ∀ m, .mode m ∉ as)
    (hevents : events as ≠ [] ↔ ∃ es, .events es ∈ as) (h : mode default as = .ok m) :
    ((expr? .bindBack as).isSome ∨ events as ≠ [] → m = .twoWay) ∧
      (expr? .bindBack as = none → events as = [] → m = default) := by
  obtain ⟨path, hpath⟩ := Option.isSome_iff_exists.mp hpath
  unfold mode at h
  rw [hpath, mode?_eq_none hmode] at h
  obtain rfl : (if impliesTwoWay as then .twoWay else default) = m := Except.ok.inj h
  constructor
  · intro hgiven
    rw [hevents] at hgiven
    exact if_pos (impliesTwoWay_iff.mpr hgiven)
  · intro hback hnone
    apply if_neg
    rw [impliesTwoWay_iff, ← hevents]
    simp [hback, hnone]

theorem isSettable_of_checkSettable {m : BindingMode} {n : Nat} (hm : m.writesBack = true)
    (h : checkSettable m n as = .ok ()) :
    ∃ e, (expr? .bindBack as <|> expr? .path as) = some e ∧ e.isSettable = true := by
  unfold checkSettable at h
  simp only [hm, Bool.not_true, Bool.false_eq_true, if_false] at h
  split at h
  · rename_i back hback
    split at h
    · rename_i hsettable
      exact ⟨back, by simp [hback], hsettable⟩
    · cases h
  · rename_i path start hback hpath
    split at h
    · rename_i hsettable
      have hexpr : expr? .path as = some path := congrArg (Option.map Prod.fst) hpath
      exact ⟨path, by simp [hback, hexpr], hsettable⟩
    · cases h
  · cases h

theorem isSome_path_of_checkItemsSource (h : checkItemsSource as = .ok ())
    (hitems : isItemsSource as = true) : (expr? .path as).isSome := by
  unfold checkItemsSource at h
  split at h
  · cases h
  · rename_i hpath
    simpa [hitems, Option.isSome_iff_ne_none] using hpath

end Declaration

theorem Expr.form_of_isSettable {e : Expr} (h : e.isSettable = true) :
    (∃ m marker nullSafe, e.form = .member m marker nullSafe) ∨ (∃ m marker, e.form = .element m marker) ∨
      ∃ m nullSafe, e.form = .call m nullSafe := by
  unfold Expr.isSettable at h
  split at h
  · rename_i m marker nullSafe hform
    exact Or.inl ⟨m, marker, nullSafe, hform⟩
  · rename_i m nullSafe hform
    exact Or.inr (Or.inr ⟨m, nullSafe, hform⟩)
  · rename_i m marker hform
    exact Or.inr (Or.inl ⟨m, marker, hform⟩)
  · cases h

namespace Argument

variable {s : Setting} {pathKnown : Bool} {p next : Place}

theorem splitAt_ne_nil (mark : Char) (cs : List Char) : splitAt mark cs ≠ [] := by
  cases cs with
  | nil => simp [splitAt]
  | cons c cs =>
    unfold splitAt
    split
    · simp
    · split <;> simp

theorem ne_nil_of_mapM_eq_ok {ε α β : Type} {f : α → Except ε β} {xs : List α} {ys : List β} (hxs : xs ≠ [])
    (h : xs.mapM f = .ok ys) : ys ≠ [] := by
  obtain ⟨x, xs, rfl⟩ := List.exists_cons_of_ne_nil hxs
  rw [List.mapM_cons] at h
  obtain ⟨y, -, h⟩ := bind_eq_ok h
  obtain ⟨ys, -, h⟩ := bind_eq_ok h
  cases h
  exact List.cons_ne_nil y ys

/-- Events are given by one name at least. -/
theorem events_ne_nil_of_read {es : List Event} (h : read s pathKnown p = .ok (.events es, next)) :
    es ≠ [] := by
  obtain ⟨blanks, tail, -, -, -, h⟩ := read_eq_readNamed (by simp [slot]) h
  have hread : readNamed s pathKnown "UpdateSourceEventNames".toList p (p.moveTo (trimStart tail)) =
      readEvents s (p.moveTo (trimStart tail)) := rfl
  obtain ⟨found, hfound, hes⟩ := bind_eq_ok (hread.symm.trans h)
  cases hes
  exact ne_nil_of_mapM_eq_ok (splitAt_ne_nil '|' _) hfound

theorem events_ne_nil_of_ofText {text : List Char} {as : List Argument} (h : ofText s text = .ok as)
    {es : List Event} (hes : .events es ∈ as) : es ≠ [] := by
  obtain ⟨found, hscan, rfl⟩ := ofText_eq_ok.mp h
  obtain ⟨⟨q, a⟩, hq, rfl⟩ := List.mem_map.mp hes
  obtain ⟨-, known, place, hread⟩ := hscan.mem hq
  exact events_ne_nil_of_read hread

end Argument

/-! ## Bindings -/

namespace Binding

def expr (b : Binding) : Role → Option Expr
  | .path => b.path
  | .bindBack => b.bindBack
  | .converter => b.converter
  | .converterParameter => b.converterParameter
  | .fallback => b.fallback
  | .targetNull => b.targetNull

/-- The call of the converter, with the result as the type of the target unless that is any object. -/
inductive Converts (c : Context) (b : Binding) (e : Expr) : Expr → Prop where
  | absent (h : b.converter = none) : Converts c b e e
  | call {converter : Expr} {convert : Member} (h : b.converter = some converter)
    (hm : (c.registry.methods converter.type "Convert").head? = some convert)
    (hobject : b.site.memberType.name = WellKnown.object) :
    Converts c b e (.call converter convert
      [e, .typeOf b.site.memberType, b.converterParameter.getD .null, .null] false)
  | cast {converter : Expr} {convert : Member} (h : b.converter = some converter)
    (hm : (c.registry.methods converter.type "Convert").head? = some convert)
    (hobject : b.site.memberType.name ≠ WellKnown.object) :
    Converts c b e (.cast (.call converter convert
      [e, .typeOf b.site.memberType, b.converterParameter.getD .null, .null] false) b.site.memberType)

inductive Coalesces (b : Binding) (e : Expr) : Expr → Prop where
  | absent (h : b.targetNull = none) : Coalesces b e e
  | given {value : Expr} (h : b.targetNull = some value) :
    Coalesces b e (.coalesce e value (e.type.withNullable false))

/-- The fallback, which has the number and moves it on, unless the value is a task. -/
inductive FallsBack (c : Context) (b : Binding) (number : Nat) (e : Expr) : Expr → Nat → Prop where
  | absent (h : b.fallback = none) : FallsBack c b number e e number
  | task {value : Expr} (h : b.fallback = some value)
    (htask : c.registry.isAssignable (.named WellKnown.task) e.type = true) : FallsBack c b number e e number
  | given {value : Expr} (h : b.fallback = some value)
    (htask : c.registry.isAssignable (.named WellKnown.task) e.type = false) :
    FallsBack c b number e (.fallback e value number) (number + 1)

inductive Formats (b : Binding) (e : Expr) : Expr → Prop where
  | absent (h : b.format = none) : Formats b e e
  | given {format : String} (h : b.format = some format) :
    Formats b e (.interpolated (Format.template format) [e])

/-- The binding is composed of the arguments, with the numbers for fallbacks before and after it. -/
structure ComposedOf (c : Context) (as : List Argument) (number next : Nat) (b : Binding) : Prop where
  expr_iff : ∀ role e, b.expr role = some e ↔
    ∃ start namespaces resource, Argument.Prevails as (.expression role e start namespaces resource)
  format_iff : ∀ format, b.format = some format ↔ Argument.Prevails as (.format format)
  events_iff : b.events ≠ [] ↔ ∃ es, .events es ∈ as
  value_iff : b.value.isSome ↔ b.path.isSome
  value : ∀ path, b.path = some path → ∃ converted coalesced fallen v, b.Converts c path converted ∧
    b.Coalesces converted coalesced ∧ b.FallsBack c number coalesced fallen next ∧ b.Formats fallen v ∧
    b.value = some v
  no_path : b.path = none → b.bindBack.isSome ∧ b.mode = .oneWayToSource ∧ next = number
  settable : b.mode.writesBack = true → ∃ e, b.writeTarget = some e ∧
    ((∃ m marker nullSafe, e.form = .member m marker nullSafe) ∨ (∃ m marker, e.form = .element m marker) ∨
      ∃ m nullSafe, e.form = .call m nullSafe)
  itemsSource : b.isItemsSource = true → b.path.isSome
  implied_mode : (∀ m, .mode m ∉ as) → b.path.isSome →
    (b.bindBack.isSome ∨ b.events ≠ [] → b.mode = .twoWay) ∧
      (b.bindBack = none → b.events = [] → b.mode = c.defaultMode)

section Layers

open Declaration

variable {c : Context} {as : List Argument} {b : Binding}

theorem converts_of_converted (hconverter : b.converter = expr? .converter as)
    (hparameter : b.converterParameter = expr? .converterParameter as) {e v : Expr}
    (h : converted c b.site as e = .ok v) : b.Converts c e v := by
  unfold converted at h
  rw [← hconverter, ← hparameter] at h
  split at h
  · rename_i hnone
    cases h
    exact .absent hnone
  · rename_i converter hsome
    split at h
    · cases h
    · rename_i convert hconvert
      cases h
      split
      · rename_i hobject
        exact .call hsome hconvert (beq_iff_eq.mp hobject)
      · rename_i hobject
        exact .cast hsome hconvert (mt beq_iff_eq.mpr hobject)

theorem coalesces_withoutNull (htarget : b.targetNull = expr? .targetNull as) (e : Expr) :
    b.Coalesces e (withoutNull as e) := by
  unfold withoutNull
  rw [← htarget]
  split
  · rename_i hnone
    exact .absent hnone
  · rename_i value hsome
    exact .given hsome

theorem fallsBack_withFallback (hfallback : b.fallback = expr? .fallback as) (number : Nat) (e : Expr) :
    b.FallsBack c number e (withFallback c as number e).1 (withFallback c as number e).2 := by
  unfold withFallback
  rw [← hfallback]
  split
  · rename_i hnone
    exact .absent hnone
  · rename_i value hsome
    split
    · rename_i htask
      exact .task hsome htask
    · rename_i htask
      exact .given hsome (by simpa using htask)

theorem formats_formatted (hformat : b.format = format? as) (e : Expr) : b.Formats e (formatted as e) := by
  unfold formatted
  rw [← hformat]
  split
  · rename_i hnone
    exact .absent hnone
  · rename_i format hsome
    exact .given hsome

end Layers

/-- Every binding that is read is composed of the arguments of its declaration. -/
theorem ofSite_composedOf {c : Context} {site : Site} {number next : Nat} {b : Binding}
    (h : ofSite c site number = .ok (b, next)) :
    ∃ as, Argument.ofText ⟨c, site, b.startType c⟩ (trimEnd site.text.toList) = .ok as ∧
      b.site = site ∧ b.ComposedOf c as number next := by
  obtain ⟨-, type, as, mode, value, htype, has, hmode, hsettable, hitems, hvalue, rfl⟩ :=
    Declaration.binding_eq_ok.mp (ofSite_eq_ok.mp h)
  obtain ⟨-, -, hstart⟩ := sourceType_eq_ok htype
  have hevents : Declaration.events as ≠ [] ↔ ∃ es, .events es ∈ as :=
    Declaration.events_ne_nil_iff fun es => Argument.events_ne_nil_of_ofText has
  rw [hstart] at has
  refine ⟨as, has, rfl, ?_⟩
  constructor
  · intro role e
    rw [← Declaration.expr?_eq_some_iff]
    cases role <;> rfl
  · exact fun format => Declaration.format?_eq_some_iff
  · exact hevents
  · cases hpath : Declaration.expr? .path as with
    | none => simp [(Declaration.value_of_no_path hpath hvalue).1]
    | some path => simp [Declaration.value_isSome hpath hvalue]
  · intro path hpath
    obtain ⟨v, rfl⟩ := Option.isSome_iff_exists.mp (Declaration.value_isSome hpath hvalue)
    obtain ⟨path', e, hpath', hconverted, rfl, rfl⟩ := Declaration.value_eq_ok.mp hvalue
    obtain rfl : path' = path := Option.some.inj (hpath'.symm.trans hpath)
    exact ⟨e, _, _, _, converts_of_converted rfl rfl hconverted, coalesces_withoutNull rfl e,
      fallsBack_withFallback rfl number _, formats_formatted rfl _, rfl⟩
  · intro hpath
    obtain ⟨hback, hmode⟩ := Declaration.mode_of_no_path hpath hmode
    exact ⟨hback, hmode, (Declaration.value_of_no_path hpath hvalue).2⟩
  · intro hwrites
    obtain ⟨e, he, hsettable⟩ := Declaration.isSettable_of_checkSettable hwrites hsettable
    exact ⟨e, he, Expr.form_of_isSettable hsettable⟩
  · exact Declaration.isSome_path_of_checkItemsSource hitems
  · exact fun hexplicit hpath => Declaration.mode_of_path hpath hexplicit hevents hmode

def boxContext : Context where
  registry := ⟨Registry.systemTypes ++
    [{ name := "Page", properties := [{ name := "Title", type := .string }] },
      { name := "UI.Box", events := [{ name := "Changed" }] },
      { name := "Converter", methods := [{ name := "Convert", returns := .object }] }]⟩
  sourceType := .named "Page"
  targetType := .named "Page"
  rootName := "dataRoot"
  defaultMode := .oneTime
  converterType := some (.named "Converter")
  requireDataType := false

def boxSite : Site where
  text := "StringFormat='<\x7b0\x7d>', FallbackValue='missing', Title, UpdateSourceEventNames=Changed, " ++
    "Converter=\x7bStaticResource shorten\x7d, TargetNullValue='none'"
  object := ⟨"box", .named "UI.Box"⟩
  member := "Text"
  memberType := .string

/-- The title with all layers around it. -/
theorem box_composed : ∃ b next as, ofSite boxContext boxSite 3 = .ok (b, next) ∧
    Argument.ofText ⟨boxContext, boxSite, b.startType boxContext⟩ (trimEnd boxSite.text.toList) = .ok as ∧
    b.ComposedOf boxContext as 3 next ∧ b.converter.isSome ∧ b.targetNull.isSome ∧ b.format.isSome ∧
    b.mode = .twoWay ∧ next = 4 := by
  obtain ⟨⟨b, next⟩, hb, hbox⟩ := exists_ok
    (P := fun r => r.1.converter.isSome && r.1.targetNull.isSome && r.1.format.isSome && r.1.mode == .twoWay &&
      r.2 == 4)
    (show (ofSite boxContext boxSite 3).toOption.any _ = true by decide +kernel)
  obtain ⟨as, has, -, hcomposed⟩ := ofSite_composedOf hb
  simp only [Bool.and_eq_true, beq_iff_eq, and_assoc] at hbox
  exact ⟨b, next, as, hb, has, hcomposed, hbox⟩

end Binding

end DataBinding
