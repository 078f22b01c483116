import DataBinding.Proofs.Binding.Value
import DataBinding.Proofs.Metadata.Assignability
import Mathlib.Data.List.Forall2

/-!
# Expressions that are read are well typed

Operators take operands of the types that they are made for, conditionals and replacements of null have
types that accept what they can give, and arguments are assignable to their parameters. This holds of every
node of an expression that is read, unless a value type is registered under the name that the type of the
null literal has.
-/
namespace DataBinding

/-! ## Typing rules -/

/-- The operator is made for operands of the types. -/
def BinaryOp.Accepts (r : Registry) (left right : TypeRef) : BinaryOp → Prop
  | .and | .or => left.is WellKnown.boolean ∧ right.is WellKnown.boolean
  | .sub | .mul | .mod | .lt | .le | .gt | .ge => left.isNumeric ∧ right.isNumeric
  | .add => left.is WellKnown.string ∨ right.is WellKnown.string ∨ left.isNumeric ∧ right.isNumeric
  | .eq | .ne => left.isNumeric ∧ right.isNumeric ∨ r.isAssignable left right ∨ r.isAssignable right left

/-- Each parameter gets an argument that is assignable to it. -/
def Registry.Supplied (r : Registry) (parameters : List Parameter) (args : List Expr) : Prop :=
  List.Forall₂ (fun p a => r.isAssignable p.type a.type) parameters args

/-- The node has operands of the types that its form demands. -/
def Expr.ObeysTyping (r : Registry) (e : Expr) : Prop :=
  match e.form, e.operands with
  | .constant _, [] | .var _, [] | .typeRef, [] | .typeOf _, [] | .default, [] => True
  | .cast, [_] | .paren, [_] => True
  | .create, _ => True
  | .unary .not, [operand] => operand.type.is WellKnown.boolean
  | .unary .negate, [operand] => operand.type.isNumeric
  | .binary op, [left, right] => op.Accepts r left.type right.type
  | .conditional, [test, ifTrue, ifFalse] =>
    test.type.is WellKnown.boolean ∧ r.isAssignable e.type ifTrue.type ∧ r.isAssignable e.type ifFalse.type
  | .coalesce, [left, right] =>
    (r.isValueType left.type → left.type.nullable) ∧ r.isAssignable e.type right.type ∧
      r.isAssignable e.type (left.type.withNullable false)
  | .member _ _ nullSafe, [_] => nullSafe → e.type.nullable
  | .element indexer _, _ :: args => r.Supplied indexer.parameters args
  | .call method nullSafe, _ :: args =>
    method.requiredParameters ≤ args.length ∧ args.length ≤ method.parameters.length ∧
      r.Supplied (method.parameters.take args.length) args ∧ (nullSafe → e.type.nullable)
  | _, _ => False

/-! ## Types of operators -/

section Operators

variable {r : Registry} {left right type : TypeRef}

theorem BinaryOp.accepts_of_resultType? {op : BinaryOp} (h : op.resultType? r left right = some type) :
    op.Accepts r left right := by
  cases op with
  | add =>
    simp only [resultType?] at h
    split at h
    · rename_i hstring
      rcases Bool.or_eq_true_iff.mp hstring with hstring | hstring
      · exact Or.inl hstring
      · exact Or.inr (Or.inl hstring)
    · obtain ⟨hnumeric, -⟩ := Option.ite_none_right_eq_some.mp h
      exact Or.inr (Or.inr (Bool.and_eq_true_iff.mp hnumeric))
  | sub | mul | mod | lt | le | gt | ge | and | or =>
    obtain ⟨hboth, -⟩ := Option.ite_none_right_eq_some.mp h
    exact Bool.and_eq_true_iff.mp hboth
  | eq | ne =>
    obtain ⟨heither, -⟩ := Option.ite_none_right_eq_some.mp h
    simpa [Accepts, or_assoc] using heither

variable (hnull : r.isValueType .null = false)
include hnull

theorem conditionalType?_accepts (h : conditionalType? r left right = some type) :
    r.isAssignable type left ∧ r.isAssignable type right := by
  have hself {t : TypeRef} : r.isAssignable t t := Registry.isAssignable_of_name_eq hnull rfl id
  have hnullable {t : TypeRef} : r.isAssignable (t.withNullable true) t :=
    Registry.isAssignable_of_name_eq hnull rfl fun _ => rfl
  unfold conditionalType? at h
  split at h
  · rename_i hname
    obtain rfl := Option.some.inj h
    have hname : left.name = right.name := eq_of_beq hname
    constructor
    · exact Registry.isAssignable_of_name_eq hnull rfl fun hn => by simp [TypeRef.withNullable, hn]
    · exact Registry.isAssignable_of_name_eq hnull hname fun hn => by simp [TypeRef.withNullable, hn]
  · split at h
    · rename_i hleft
      obtain rfl := Option.some.inj h
      exact ⟨Registry.isAssignable_of_isNull hleft (Or.inr rfl), hnullable⟩
    · split at h
      · rename_i hright
        obtain rfl := Option.some.inj h
        exact ⟨hnullable, Registry.isAssignable_of_isNull hright (Or.inr rfl)⟩
      · split at h
        · rename_i haccepts
          obtain rfl := Option.some.inj h
          exact ⟨hself, haccepts⟩
        · obtain ⟨haccepts, hsome⟩ := Option.ite_none_right_eq_some.mp h
          obtain rfl := Option.some.inj hsome
          exact ⟨haccepts, hself⟩

theorem coalesceType?_accepts (h : coalesceType? r left right = some type) :
    (r.isValueType left → left.nullable) ∧ r.isAssignable type right ∧
      r.isAssignable type (left.withNullable false) := by
  unfold coalesceType? at h
  split at h
  · cases h
  · rename_i hvalue
    have hleft : r.isValueType left → left.nullable := by
      intro hl
      by_contra hn
      exact hvalue (by simp [hl, hn])
    refine ⟨hleft, ?_⟩
    split at h
    · rename_i hright
      obtain rfl := Option.some.inj h
      refine ⟨Registry.isAssignable_of_isNull hright ?_, Registry.isAssignable_of_name_eq hnull rfl nofun⟩
      cases hl : r.isValueType left with
      | false => exact Or.inl rfl
      | true => exact Or.inr (hleft hl)
    · split at h
      · rename_i haccepts
        obtain rfl := Option.some.inj h
        exact ⟨Registry.isAssignable_of_withNullable _ haccepts, Registry.isAssignable_of_name_eq hnull rfl nofun⟩
      · obtain ⟨haccepts, hsome⟩ := Option.ite_none_right_eq_some.mp h
        obtain rfl := Option.some.inj hsome
        exact ⟨Registry.isAssignable_of_name_eq hnull rfl id, haccepts⟩

end Operators

/-! ## Arguments -/

theorem Registry.supplied_of_fits {r : Registry} {parameters : List Parameter} {args : List Expr}
    (hcount : args.length ≤ parameters.length) (h : r.fits parameters (args.map (·.type))) :
    r.Supplied (parameters.take args.length) args := by
  induction args generalizing parameters with
  | nil => exact List.Forall₂.nil
  | cons a args ih =>
    cases parameters with
    | nil => simp at hcount
    | cons p parameters =>
      obtain ⟨hfirst, hrest⟩ := Bool.and_eq_true_iff.mp h
      exact List.Forall₂.cons hfirst (ih (Nat.le_of_succ_le_succ hcount) hrest)

theorem Registry.accepts_of_method? {r : Registry} {t : TypeRef} {name : String} {args : List TypeRef}
    {m : Member} (h : r.method? t name args = some m) : r.accepts m args := by
  have haccepts := List.find?_some h
  exact haccepts

/-! ## Expressions -/

namespace Grammar

variable {s : Setting} {e : Expr}

theorem obeysTyping_call {t : TypeRef} {m : Member} {args : List Expr}
    (h : s.registry.method? t m.name (args.map (·.type)) = some m) (receiver : Expr) (nullSafe : Bool) :
    (Expr.call receiver m args nullSafe).ObeysTyping s.registry := by
  have haccepts := Registry.accepts_of_method? h
  simp only [Registry.accepts, Bool.and_eq_true, decide_eq_true_eq, List.length_map] at haccepts
  obtain ⟨⟨hrequired, hcount⟩, hfits⟩ := haccepts
  refine ⟨hrequired, hcount, Registry.supplied_of_fits hcount hfits, ?_⟩
  rintro rfl
  rfl

/-- Each rule of reading gives a node that obeys its typing rule. -/
theorem Reading.obeysTyping (hroot : s.root.ObeysTyping s.registry) (hnull : s.registry.isValueType .null = false)
    (h : Reading s e) : e.ObeysTyping s.registry := by
  cases h with
  | root => exact hroot
  | null | bool _ | number _ | negative _ | text _ | type _ | typeOf _ | default _ => trivial
  | create _ _ | cast _ _ | paren _ => trivial
  | member _ nullSafe _ _ _ _ =>
    rintro rfl
    rfl
  | static _ _ _ _ => exact nofun
  | element _ _ _ _ hcount hfits =>
    have hsupplied := Registry.supplied_of_fits (Nat.le_of_eq hcount) hfits
    rwa [hcount, List.take_length] at hsupplied
  | call nullSafe _ _ _ hmethod _ | staticCall nullSafe _ _ _ _ hmethod _ =>
    exact obeysTyping_call hmethod _ nullSafe
  | not _ hbool => exact hbool
  | negate _ hnumeric _ => exact hnumeric
  | binary _ _ htype => exact BinaryOp.accepts_of_resultType? htype
  | conditional _ _ _ hbool htype => exact ⟨hbool, conditionalType?_accepts hnull htype⟩
  | coalesce _ _ htype => exact coalesceType?_accepts hnull htype

/-- Every node of an expression that is read obeys its typing rule, unless a value type has the name of the
type of the null literal. -/
theorem parseText_wellTyped {type : TypeRef} {name text : String} {isStatic whole : Bool} {p : Parsed}
    (hroot : s.root = rootExpr type name isStatic) (hnull : s.registry.isValueType .null = false)
    (h : parseText s text whole = .ok p) : ∀ n ∈ p.expr.nodes, n.ObeysTyping s.registry := by
  have hnumber : startsWithNumber s.root = false := hroot ▸ startsWithNumber_rootExpr type name isStatic
  have hleaf : s.root.operands = [] := hroot ▸ operands_rootExpr type name isStatic
  have hobeys : s.root.ObeysTyping s.registry := by
    rw [hroot]
    cases isStatic <;> trivial
  intro n hn
  have hread := parseBytes_reading hnumber (mapError_eq_ok h)
  exact (hread.of_mem_nodes hleaf hn).obeysTyping hobeys hnull

/-! ## A page of rows -/

namespace RowPage

def page : TypeDef where
  name := "Page"
  properties := [
    { name := "Count", type := .named WellKnown.int32 }, { name := "Title", type := .string },
    { name := "Rows", type := TypeRef.string.array }, { name := "Next", type := .named "Page" }]
  methods := [
    { name := "Find", returns := .named "Page", parameters := [
        { name := "index", type := .named WellKnown.int64 },
        { name := "title", type := .string, optional := true }] }]

def setting (further : List TypeDef) : Setting :=
  ⟨⟨Registry.systemTypes ++ page :: further⟩, rootExpr (.named "Page") "dataRoot" false, none, []⟩

end RowPage

/-- An argument is widened, another one is left out, an element is compared with null, a text is joined with a
number. -/
theorem title_wellTyped :
    let text := "Next?.Find(Count)?.Title ?? (Rows[Count] == null ? null : 'row' + -Count)"
    ∃ p, parseText (RowPage.setting []) text true = .ok p ∧ p.expr.nodes.length = 22 ∧
      ∀ n ∈ p.expr.nodes, n.ObeysTyping (RowPage.setting []).registry := by
  intro text
  obtain ⟨p, hp, hlength⟩ := exists_ok (x := parseText (RowPage.setting []) text true)
    (P := fun p => p.expr.nodes.length == 22) (by decide +kernel)
  have hroot : (RowPage.setting []).root = rootExpr (.named "Page") "dataRoot" false := rfl
  exact ⟨p, hp, eq_of_beq hlength, parseText_wellTyped hroot (by decide +kernel) hp⟩

/-- Is the first value of a conditional of a type that the conditional cannot take? -/
def RowPage.misfits (r : Registry) : Expr → Bool
  | ⟨.conditional, type, [_, ifTrue, _]⟩ => !r.isAssignable type ifTrue.type
  | _ => false

/-- A structure with the name of the type of the null literal takes no null. -/
theorem nulls_not_wellTyped : ∃ p,
    parseText (RowPage.setting [{ name := WellKnown.null, kind := .structType }]) "true ? null : null" true = .ok p ∧
    ¬ p.expr.ObeysTyping (RowPage.setting [{ name := WellKnown.null, kind := .structType }]).registry := by
  obtain ⟨p, hp, hrefused⟩ := exists_ok
    (x := parseText (RowPage.setting [{ name := WellKnown.null, kind := .structType }]) "true ? null : null" true)
    (P := fun p => RowPage.misfits
      (RowPage.setting [{ name := WellKnown.null, kind := .structType }]).registry p.expr) (by decide +kernel)
  refine ⟨p, hp, fun hobeys => ?_⟩
  generalize p.expr = e at hrefused hobeys
  unfold RowPage.misfits at hrefused
  split at hrefused
  · simp [hobeys.2.1] at hrefused
  · cases hrefused

end Grammar
end DataBinding
