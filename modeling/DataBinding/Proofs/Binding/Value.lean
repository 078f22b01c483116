import DataBinding.Binding.Declaration
import DataBinding.Proofs.Grammar.Plain

/-!
# Values of bindings

A declaration that is read without a fault gives its target a value, unless the target is only written
back. All accesses in the value are plain: placeholders for texts stand at most around the whole of it.
-/
namespace DataBinding

theorem bind_eq_ok {ε α β : Type} {x : Except ε α} {f : α → Except ε β} {b : β}
    (h : x >>= f = .ok b) : ∃ a, x = .ok a ∧ f a = .ok b := by
  cases x with
  | error e => cases h
  | ok a => exact ⟨a, rfl, h⟩

theorem bind_eq_error {ε α β : Type} {x : Except ε α} {f : α → Except ε β} {e : ε} (h : x >>= f = .error e) :
    x = .error e ∨ ∃ a, x = .ok a ∧ f a = .error e := by
  cases x with
  | error e' =>
    cases h
    exact .inl rfl
  | ok a => exact .inr ⟨a, rfl, h⟩

theorem mapError_eq_ok {ε ε' α : Type} {x : Except ε α} {f : ε → ε'} {a : α}
    (h : x.mapError f = .ok a) : x = .ok a := by
  cases x with
  | error e => cases h
  | ok a => exact congrArg Except.ok (Except.ok.inj h)

theorem mapError_eq_error {ε ε' α : Type} {x : Except ε α} {f : ε → ε'} {e : ε'}
    (h : x.mapError f = .error e) : ∃ e', x = .error e' ∧ e = f e' := by
  cases x with
  | error e' =>
    cases h
    exact ⟨e', rfl, rfl⟩
  | ok a => cases h

theorem exists_ok {ε α : Type} {x : Except ε α} {P : α → Bool} (h : x.toOption.any P = true) :
    ∃ a, x = .ok a ∧ P a = true := by
  cases x with
  | error fault => cases h
  | ok a => exact ⟨a, rfl, h⟩

theorem exists_ok_of_decide {ε α : Type} {x : Except ε α} {P : α → Prop} [DecidablePred P]
    (h : x.toOption.any (fun a => decide (P a)) = true) : ∃ a, x = .ok a ∧ P a := by
  obtain ⟨a, hx, ha⟩ := exists_ok h
  exact ⟨a, hx, of_decide_eq_true ha⟩

theorem exists_error {ε α : Type} {x : Except ε α} {P : ε → Bool}
    (h : (match x with | .error e => P e | .ok _ => false) = true) : ∃ e, x = .error e ∧ P e = true := by
  cases x with
  | error e => exact ⟨e, rfl, h⟩
  | ok a => cases h

/-! ## Arguments -/

/-- The expression of the argument, if it has one, has the property. -/
def Argument.Holds (P : Expr → Prop) : Argument → Prop
  | .expression _ e _ _ _ => P e
  | _ => True

namespace Argument

/-- What is read in place of an expression has the property. -/
structure Setting.Reads (s : Setting) (P : Expr → Prop) : Prop where
  parsed {text : List Char} {parsed : Grammar.Parsed} (h : Grammar.parseBytes s.grammar text false = .ok parsed) :
    P parsed.expr
  resource {text name rest : List Char} (type : TypeRef) (h : Segment.resource? text = some (name, rest)) :
    P (s.resourceExpr ⟨String.ofList name, type⟩)

variable {s : Setting} {P : Expr → Prop} {argument : Argument} {next : Place}

section Reads

variable (hs : s.Reads P)
include hs

theorem readExpr_holds {role : Role} {p : Place} (h : readExpr s role p = .ok (argument, next)) :
    argument.Holds P := by
  unfold readExpr at h
  split at h
  · rename_i name rest hresource
    split at h
    · rename_i type _
      cases h
      split at hresource
      · exact hs.resource type hresource
      · cases hresource
    · cases h
  · split at h
    · rename_i parsed hparsed
      cases h
      exact hs.parsed hparsed
    · cases h

theorem readValue_holds {role : Role} {p : Place} (h : readValue s role p = .ok (argument, next)) :
    argument.Holds P := by
  obtain ⟨⟨a, q⟩, hread, h⟩ := bind_eq_ok h
  dsimp only at h
  split at h
  · cases h
    exact readExpr_holds hs hread
  · cases h

omit hs in
theorem readMode_holds {pathKnown : Bool} {p : Place} (h : readMode pathKnown p = .ok (argument, next)) :
    argument.Holds P := by
  unfold readMode at h
  dsimp only at h
  split at h
  · cases h
    trivial
  · cases h

omit hs in
theorem readItemsSource_holds {p : Place} (h : readItemsSource p = .ok (argument, next)) :
    argument.Holds P := by
  unfold readItemsSource at h
  dsimp only at h
  split at h
  · cases h
    trivial
  · cases h

omit hs in
theorem readEvents_holds {p : Place} (h : readEvents s p = .ok (argument, next)) :
    argument.Holds P := by
  obtain ⟨found, -, h⟩ := bind_eq_ok h
  cases h
  trivial

theorem readNamed_holds {pathKnown : Bool} {name : List Char} {start value : Place}
    (h : readNamed s pathKnown name start value = .ok (argument, next)) : argument.Holds P := by
  unfold readNamed at h
  split at h
  · split at h
    · cases h
    · exact readValue_holds hs h
  · exact readValue_holds hs h
  · split at h
    · obtain ⟨⟨text, place⟩, -, h⟩ := bind_eq_ok h
      cases h
      trivial
    · exact readMode_holds h
    · exact readItemsSource_holds h
    · exact readEvents_holds h
    · cases h
      trivial
    · cases h

theorem read_holds {pathKnown : Bool} {p : Place} (h : read s pathKnown p = .ok (argument, next)) :
    argument.Holds P := by
  unfold read at h
  split at h
  · exact readNamed_holds hs h
  · split at h
    · cases h
    · exact readValue_holds hs h

theorem readAll_holds {bound : Nat} {pathKnown : Bool} {p : Place} {as : List Argument}
    (h : readAll s bound pathKnown p = .ok as) : ∀ a ∈ as, a.Holds P := by
  induction bound generalizing pathKnown p as with
  | zero =>
    cases h
    simp
  | succ bound ih =>
    unfold readAll at h
    dsimp only at h
    split at h
    · cases h
      simp
    · obtain ⟨⟨a, q⟩, hread, h⟩ := bind_eq_ok h
      obtain ⟨rest, hrest, h⟩ := bind_eq_ok h
      cases h
      exact List.forall_mem_cons.mpr ⟨read_holds hs hread, ih hrest⟩

end Reads

theorem reads_plain (s : Setting) : s.Reads Expr.Plain where
  parsed h :=
    Grammar.parseBytes_plain (show _ = Grammar.rootExpr s.sourceType s.context.rootName false from rfl) h
  resource _ _ := .wrap rfl (.leaf rfl)

end Argument

/-! ## Declarations -/

namespace Declaration

variable {c : Context} {site : Site} {as : List Argument}

theorem expr?_holds {P : Expr → Prop} (has : ∀ a ∈ as, a.Holds P) {role : Role} {e : Expr}
    (h : expr? role as = some e) : P e := by
  obtain ⟨⟨e', start⟩, hplaced, rfl⟩ := Option.map_eq_some_iff.mp h
  obtain ⟨a, ha, hfound⟩ := List.exists_of_findSome?_eq_some hplaced
  have hholds := has a (List.mem_reverse.mp ha)
  cases a with
  | expression r e₁ start₁ _ _ =>
    dsimp only at hfound
    split at hfound
    · cases hfound
      exact hholds
    · cases hfound
  | _ => cases hfound

/-! ### Composition -/

/-- What a declaration makes of expressions with a property: it calls converters among them, casts to the type
of the target and puts others in the place of null. -/
inductive Composed (c : Context) (site : Site) (P : Expr → Prop) : Expr → Prop where
  | given {e : Expr} (h : P e) : Composed c site P e
  | null : Composed c site P .null
  | targetType : Composed c site P (.typeOf site.memberType)
  | convert {converter : Expr} {m : Member} {args : List Expr} (hconverter : P converter)
    (hm : (c.registry.methods converter.type "Convert").head? = some m)
    (hargs : ∀ a ∈ args, Composed c site P a) : Composed c site P (.call converter m args false)
  | cast {e : Expr} (he : Composed c site P e) : Composed c site P (.cast e site.memberType)
  | coalesce {e value : Expr} (he : Composed c site P e) (hvalue : P value) :
    Composed c site P (.coalesce e value (e.type.withNullable false))

section Composed

variable {P : Expr → Prop} (hP : ∀ role e, role ≠ .bindBack → expr? role as = some e → P e)
include hP

theorem converted_composed {e v : Expr} (he : Composed c site P e) (h : converted c site as e = .ok v) :
    Composed c site P v := by
  unfold converted at h
  split at h
  · cases h
    exact he
  · rename_i converter hconverter
    have hc := hP .converter converter (by decide) hconverter
    have hparameter : Composed c site P ((expr? .converterParameter as).getD .null) := by
      cases hp : expr? .converterParameter as with
      | none => exact .null
      | some parameter => exact .given (hP .converterParameter parameter (by decide) hp)
    split at h
    · cases h
    · rename_i convert hconvert
      have hcall : Composed c site P (.call converter convert [e, .typeOf site.memberType,
          (expr? .converterParameter as).getD .null, .null] false) := by
        apply Composed.convert hc hconvert
        simp only [List.forall_mem_cons]
        exact ⟨he, .targetType, hparameter, .null, List.forall_mem_nil _⟩
      cases h
      split
      · exact hcall
      · exact hcall.cast

theorem withoutNull_composed {e : Expr} (he : Composed c site P e) : Composed c site P (withoutNull as e) := by
  unfold withoutNull
  split
  · exact he
  · rename_i value hvalue
    exact he.coalesce (hP .targetNull value (by decide) hvalue)

end Composed

theorem Composed.plain {e : Expr} (h : Composed c site Expr.Plain e) : e.Plain := by
  induction h with
  | given h => exact h
  | null | targetType => exact .leaf rfl
  | convert hconverter _ _ ihargs => exact .node (Nat.succ_pos _) (List.forall_mem_cons.mpr ⟨hconverter, ihargs⟩)
  | cast _ ih => exact .wrap rfl ih
  | coalesce _ hvalue ih => exact .pair rfl ih hvalue

/-- A fallback, if there is one, takes the number. -/
theorem withFallback_cases (c : Context) (as : List Argument) (number : Nat) (e : Expr) :
    withFallback c as number e = (e, number) ∨ ∃ value, expr? .fallback as = some value ∧
      withFallback c as number e = (.fallback e value number, number + 1) := by
  unfold withFallback
  split
  · exact Or.inl rfl
  · rename_i value hvalue
    split
    · exact Or.inl rfl
    · exact Or.inr ⟨value, hvalue, rfl⟩

theorem formatted_cases (as : List Argument) (e : Expr) :
    formatted as e = e ∨ ∃ format, formatted as e = .interpolated (Format.template format) [e] := by
  unfold formatted
  split
  · exact Or.inl rfl
  · exact Or.inr ⟨_, rfl⟩

/-! ### Runs with a counter -/

theorem run_lift_bind {α β : Type} (x : Except Fault α) (f : α → NumberM β) (number : Nat) :
    ((liftM x : NumberM α) >>= f).run.run number = match x with
      | .ok a => (f a).run.run number
      | .error fault => (.error fault, number) := by
  cases x <;> rfl

theorem run_lift_bind_eq_ok {α β : Type} {x : Except Fault α} {f : α → NumberM β} {number next : Nat} {b : β} :
    ((liftM x : NumberM α) >>= f).run.run number = (.ok b, next) ↔
      ∃ a, x = .ok a ∧ (f a).run.run number = (.ok b, next) := by
  rw [run_lift_bind]
  cases x with
  | error fault =>
    constructor
    · intro h
      cases h
    · rintro ⟨a, h, -⟩
      cases h
  | ok a => simp

theorem run_lift_bind_eq_error {α β : Type} {x : Except Fault α} {f : α → NumberM β} {number next : Nat}
    {fault : Fault} (h : ((liftM x : NumberM α) >>= f).run.run number = (.error fault, next)) :
    x = .error fault ∨ ∃ a, x = .ok a ∧ (f a).run.run number = (.error fault, next) := by
  rw [run_lift_bind] at h
  cases x with
  | error raised =>
    cases h
    exact .inl rfl
  | ok a => exact .inr ⟨a, rfl, h⟩

/-- The value is that of the path, converted, without null, with a fallback and formatted. -/
theorem value_eq_ok {number next : Nat} {v : Expr} :
    (value c site as).run.run number = (.ok (some v), next) ↔ ∃ path e, expr? .path as = some path ∧
      converted c site as path = .ok e ∧
      v = formatted as (withFallback c as number (withoutNull as e)).1 ∧
      next = (withFallback c as number (withoutNull as e)).2 := by
  unfold value
  cases expr? .path as with
  | none =>
    constructor
    · intro h
      cases h
    · rintro ⟨path, e, h, -⟩
      cases h
  | some path =>
    constructor
    · intro h
      obtain ⟨e, he, h⟩ := run_lift_bind_eq_ok.mp h
      cases h
      exact ⟨path, e, rfl, he, rfl, rfl⟩
    · rintro ⟨path', e, hpath, he, rfl, rfl⟩
      cases hpath
      exact run_lift_bind_eq_ok.mpr ⟨e, he, rfl⟩

theorem value_composed {P : Expr → Prop} (hP : ∀ role e, role ≠ .bindBack → expr? role as = some e → P e)
    {number next : Nat} {v : Expr} (h : (value c site as).run.run number = (.ok (some v), next)) :
    ∃ e, Composed c site P e ∧ v = formatted as (withFallback c as number e).1 ∧
      next = (withFallback c as number e).2 := by
  obtain ⟨path, e, hpath, he, hv, hnext⟩ := value_eq_ok.mp h
  have hgiven : Composed c site P path := .given (hP .path path (by decide) hpath)
  exact ⟨_, withoutNull_composed hP (converted_composed hP hgiven he), hv, hnext⟩

theorem value_plain (has : ∀ a ∈ as, a.Holds Expr.Plain) {number next : Nat} {v : Expr}
    (h : (value c site as).run.run number = (.ok (some v), next)) :
    ∃ e : Expr, e.Plain ∧ v = formatted as e := by
  obtain ⟨e, he, rfl, -⟩ := value_composed (fun _ _ _ => expr?_holds has) h
  refine ⟨_, ?_, rfl⟩
  rcases withFallback_cases c as number e with heq | ⟨value, hvalue, heq⟩ <;> rw [heq]
  · exact he.plain
  · exact .pair rfl he.plain (expr?_holds has hvalue)

theorem value_isSome {number next : Nat} {v : Option Expr} {path : Expr}
    (hp : expr? .path as = some path) (h : (value c site as).run.run number = (.ok v, next)) : v.isSome := by
  unfold value at h
  rw [hp] at h
  obtain ⟨e, -, h⟩ := run_lift_bind_eq_ok.mp h
  cases h
  rfl

/-- Without a path nothing but writing back is possible. -/
theorem path_isSome_of_mode {default m : BindingMode} (h : mode default as = .ok m)
    (hm : m ≠ .oneWayToSource) : (expr? .path as).isSome := by
  unfold mode at h
  split at h <;> simp_all

theorem mem_nodes_formatted {e n : Expr} (hn : n ∈ (formatted as e).nodes) (ha : n.access?.isSome) :
    n ∈ e.nodes := by
  rcases formatted_cases as e with heq | ⟨format, heq⟩ <;> rw [heq] at hn
  · exact hn
  · rcases Expr.mem_nodes.mp hn with rfl | ⟨o, ho, hno⟩
    · cases ha
    · obtain rfl := List.mem_singleton.mp ho
      exact hno

theorem binding_eq_ok {number next : Nat} {t : List Char} {b : Binding} :
    (binding c site t).run.run number = (.ok b, next) ↔ t ≠ [] ∧ ∃ found as mode value,
      sourceType c site t = .ok found ∧ Argument.ofText ⟨c, site, found.2.2⟩ t = .ok as ∧
      Declaration.mode c.defaultMode as = .ok mode ∧ checkSettable mode (Text.byteLength t) as = .ok () ∧
      checkItemsSource as = .ok () ∧ (Declaration.value c site as).run.run number = (.ok value, next) ∧
      b = {
        site, dataType := found.1, dataTypeSet := found.2.1, mode, value,
        path := expr? .path as, bindBack := expr? .bindBack as, converter := expr? .converter as,
        converterParameter := expr? .converterParameter as, fallback := expr? .fallback as,
        targetNull := expr? .targetNull as, format := format? as, isItemsSource := isItemsSource as,
        events := events as, resources := resources as, namespaces := namespaces as } := by
  unfold binding
  constructor
  · intro h
    split at h
    · cases h
    · rename_i hne
      obtain ⟨found, hfound, h⟩ := run_lift_bind_eq_ok.mp h
      obtain ⟨as, has, h⟩ := run_lift_bind_eq_ok.mp h
      obtain ⟨mode, hmode, h⟩ := run_lift_bind_eq_ok.mp h
      obtain ⟨⟨⟩, hsettable, h⟩ := run_lift_bind_eq_ok.mp h
      obtain ⟨⟨⟩, hitems, h⟩ := run_lift_bind_eq_ok.mp h
      obtain ⟨value, k, hvalue, h⟩ := Grammar.run_bind_eq_ok.mp h
      cases h
      exact ⟨by simpa using hne, found, as, mode, value, hfound, has, hmode, hsettable, hitems, hvalue, rfl⟩
  · rintro ⟨hne, found, as, mode, value, hfound, has, hmode, hsettable, hitems, hvalue, rfl⟩
    rw [if_neg (by simpa using hne)]
    refine run_lift_bind_eq_ok.mpr ⟨found, hfound, run_lift_bind_eq_ok.mpr ⟨as, has, ?_⟩⟩
    refine run_lift_bind_eq_ok.mpr ⟨mode, hmode, run_lift_bind_eq_ok.mpr ⟨(), hsettable, ?_⟩⟩
    refine run_lift_bind_eq_ok.mpr ⟨(), hitems, Grammar.run_bind_eq_ok.mpr ⟨value, next, hvalue, rfl⟩⟩

end Declaration

/-- What holds of the binding of every declaration. -/
structure Binding.WellFormed (b : Binding) : Prop where
  /-- There is a value to assign, unless nothing is assigned. -/
  value_isSome : b.mode ≠ .oneWayToSource → b.value.isSome
  access_plain : ∀ v, b.value = some v → ∀ n ∈ v.nodes, n.access?.isSome → n.Plain

theorem Declaration.binding_wellFormed {c : Context} {site : Site} {number next : Nat}
    {text : List Char} {b : Binding} (h : (binding c site text).run.run number = (.ok b, next)) :
    b.WellFormed := by
  obtain ⟨-, found, as, mode, value, -, has, hmode, -, -, hvalue, rfl⟩ := binding_eq_ok.mp h
  have hplain := Argument.readAll_holds (Argument.reads_plain _) has
  constructor
  · intro hm
    obtain ⟨path, hpath⟩ := Option.isSome_iff_exists.mp (path_isSome_of_mode hmode hm)
    exact value_isSome hpath hvalue
  · intro v hv n hn ha
    obtain rfl : value = some v := hv
    obtain ⟨e, he, rfl⟩ := value_plain hplain hvalue
    exact he.of_mem_nodes (mem_nodes_formatted hn ha)

namespace Binding

variable {c : Context} {site : Site} {number next : Nat} {b : Binding}

theorem read_eq_ok : read c site number = (.ok b, next) ↔
    (Declaration.binding c site (Text.trimEnd site.text.toList)).run.run number = (.ok b, next) := by
  unfold read
  dsimp only
  rcases (Declaration.binding c site (Text.trimEnd site.text.toList)).run.run number with ⟨fault | b', k⟩
  · constructor <;> intro h <;> cases h
  · exact Iff.rfl

theorem ofSite_eq_ok : ofSite c site number = .ok (b, next) ↔
    (Declaration.binding c site (Text.trimEnd site.text.toList)).run.run number = (.ok b, next) := by
  rw [← read_eq_ok, ofSite]
  rcases read c site number with ⟨fault | b', k⟩ <;> simp [Except.map]

theorem ofSite_wellFormed (h : ofSite c site number = .ok (b, next)) : b.WellFormed :=
  Declaration.binding_wellFormed (ofSite_eq_ok.mp h)

end Binding

end DataBinding
