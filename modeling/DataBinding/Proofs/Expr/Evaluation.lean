import DataBinding.Proofs.Expr.Wording

/-!
# Values of expressions

An interpretation says what members, methods and operators do, and an environment what the variables stand
for. Expressions get values from the leaves up. An evaluation may fail: it fails with any of the operands
that are always evaluated, except that a null-safe call on null gives null before it comes to its arguments.
-/
namespace DataBinding

/-- What the parts of expressions do with values, where they may fail. -/
structure Interpretation (V : Type) where
  null : V
  constant : Constant → TypeRef → V
  type : TypeRef → V
  default : TypeRef → V
  typeOf : TypeRef → V
  member : Member → V → Option V
  element : Member → V → List V → Option V
  call : Member → V → List V → Option V
  convert : TypeRef → V → Option V
  unary : UnaryOp → V → Option V
  binary : BinaryOp → V → V → Option V
  create : TypeRef → List V → Option V
  format : String → List V → Option V
  isTrue : V → Bool

namespace Interpretation

variable {V : Type} [DecidableEq V] {I : Interpretation V} {env : String → V} {form : Form}
  {type : TypeRef} {as : List (Option V)}

/-- The value of a form that is no variable, given the outcomes of its operands. Operands that are not needed
may fail. -/
def apply (I : Interpretation V) : Semantics (Option V)
  | .constant value, type, _ => some (I.constant value type)
  | .typeRef, type, _ => some (I.type type)
  | .default, type, _ => some (I.default type)
  | .typeOf operand, _, _ => some (I.typeOf operand)
  | .member m _ nullSafe, _, [target] => do
    let owner ← target
    if owner = I.null then (if nullSafe then some I.null else none) else I.member m owner
  | .element m _, _, target :: args => do
    let owner ← target
    let args ← args.mapM id
    if owner = I.null then none else I.element m owner args
  | .call m nullSafe, _, target :: args => do
    let owner ← target
    if nullSafe ∧ owner = I.null then some I.null
    else do
      let args ← args.mapM id
      if owner = I.null then none else I.call m owner args
  | .cast, type, [e] => do I.convert type (← e)
  | .paren, _, [e] => e
  | .unary op, _, [e] => do I.unary op (← e)
  | .binary op, _, [left, right] => do
    let first ← left
    match op with
    | .and => if I.isTrue first then right else some first
    | .or => if I.isTrue first then some first else right
    | op => do I.binary op first (← right)
  | .conditional, _, [test, ifTrue, ifFalse] => do if I.isTrue (← test) then ifTrue else ifFalse
  | .coalesce, _, [left, right] => do
    let first ← left
    if first = I.null then right else some first
  | .create, type, args => do I.create type (← args.mapM id)
  | .interpolated template, _, args => do I.format template (← args.mapM id)
  | .fallback _, _, [e, value] => e <|> value
  | _, _, _ => none

def semantics (I : Interpretation V) (env : String → V) : Semantics (Option V)
  | .var x, _, _ => some (env x)
  | form, type, as => I.apply form type as

theorem semantics_update (env : String → V) (x : String) (v : V) :
    I.semantics (Function.update env x v) = (I.semantics env).assign x (some v) := by
  funext form type as
  cases form with
  | var y => by_cases h : y = x <;> simp [semantics, Semantics.assign, Form.isVar, h]
  | _ => rfl

omit [DecidableEq V] in
theorem isSome_of_mapM (h : (as.mapM id).isSome) : ∀ a ∈ as, a.isSome := by
  induction as with
  | nil => simp
  | cons a as ih =>
    rw [List.mapM_cons] at h
    cases a with
    | none => cases h
    | some v =>
      cases hvs : as.mapM id with
      | none => simp [hvs] at h
      | some vs => exact List.forall_mem_cons.mpr ⟨rfl, ih (by simp [hvs])⟩

/-- An operand that is always evaluated does not fail when the form has a value. The arguments of a
null-safe call on null are the exception. -/
theorem isSome_of_semantics (hfits : form.Fits as.length) (h : (I.semantics env form type as).isSome)
    (hcall : ∀ m args, form = .call m true → as = some I.null :: args → ∀ a ∈ args, a.isSome) :
    ∀ a ∈ as.take (form.eagerCount as.length), a.isSome := by
  cases form with
  | constant | var | typeRef | typeOf | default =>
    obtain rfl := List.eq_nil_of_length_eq_zero hfits
    simp
  | member | cast | unary =>
    obtain ⟨a, rfl⟩ := List.length_eq_one_iff.mp hfits
    simpa [Form.eagerCount] using Option.isSome_of_isSome_bind h
  | paren =>
    obtain ⟨a, rfl⟩ := List.length_eq_one_iff.mp hfits
    simpa [Form.eagerCount, semantics, apply] using h
  | coalesce =>
    obtain ⟨a, b, rfl⟩ := List.length_eq_two.mp hfits
    simpa [Form.eagerCount] using Option.isSome_of_isSome_bind h
  | conditional =>
    obtain ⟨a, b, c, rfl⟩ := List.length_eq_three.mp hfits
    simpa [Form.eagerCount] using Option.isSome_of_isSome_bind h
  | fallback => simp [Form.eagerCount]
  | create | interpolated =>
    intro a ha
    exact isSome_of_mapM (Option.isSome_of_isSome_bind h) a (List.mem_of_mem_take ha)
  | binary op =>
    obtain ⟨a, b, rfl⟩ := List.length_eq_two.mp hfits
    cases a with
    | none => cases h
    | some first =>
      -- the second operand counts for the operators that always use it
      cases op with
      | and | or => simp [Form.eagerCount, BinaryOp.isShortCircuit]
      | _ => simpa [Form.eagerCount, BinaryOp.isShortCircuit] using Option.isSome_of_isSome_bind h
  | element m marker =>
    obtain ⟨target, args, rfl⟩ := List.exists_cons_of_length_pos hfits
    cases target with
    | none => cases h
    | some owner =>
      have hall : ∀ a ∈ some owner :: args, a.isSome :=
        List.forall_mem_cons.mpr ⟨rfl, isSome_of_mapM (Option.isSome_of_isSome_bind h)⟩
      exact fun a ha => hall a (List.mem_of_mem_take ha)
  | call m nullSafe =>
    obtain ⟨target, args, rfl⟩ := List.exists_cons_of_length_pos hfits
    cases target with
    | none => cases h
    | some owner =>
      have hargs : ∀ a ∈ args, a.isSome := by
        by_cases hnull : nullSafe ∧ owner = I.null
        · obtain ⟨rfl, rfl⟩ := hnull
          exact hcall m args rfl rfl
        · simp only [semantics, apply, Option.bind_eq_bind, Option.bind_some, if_neg hnull] at h
          exact isSome_of_mapM (Option.isSome_of_isSome_bind h)
      have hall : ∀ a ∈ some owner :: args, a.isSome := List.forall_mem_cons.mpr ⟨rfl, hargs⟩
      exact fun a ha => hall a (List.mem_of_mem_take ha)

end Interpretation

namespace Expr

variable {V : Type} [DecidableEq V] {I : Interpretation V} {env : String → V} {e : Expr}

def eval (I : Interpretation V) (env : String → V) (e : Expr) : Option V := e.meaning (I.semantics env)

/-- If the expression is a null-safe call on null: have its arguments values all the same? -/
def argumentsEvaluate (I : Interpretation V) (env : String → V) : Expr → Bool
  | ⟨.call _ true, _, target :: args⟩ =>
    target.eval I env != some I.null || args.all fun a => (a.eval I env).isSome
  | _ => true

theorem isSome_of_eagerOperands (he : e.Written) (heval : (e.eval I env).isSome)
    (hargs : e.argumentsEvaluate I env) : ∀ o ∈ e.eagerOperands, (o.eval I env).isSome := by
  cases he with
  | @node form type operands hfits _ =>
    rw [eval, meaning_eq] at heval
    have hvalues : ∀ a ∈ (operands.map (eval I env)).take
        (form.eagerCount (operands.map (eval I env)).length), a.isSome := by
      refine Interpretation.isSome_of_semantics (by rwa [List.length_map]) heval ?_
      rintro m args rfl heq
      obtain ⟨target, rest, rfl, htarget, rfl⟩ := List.map_eq_cons_iff.mp heq
      simpa [argumentsEvaluate, htarget] using hargs
    rw [List.length_map, ← List.map_take] at hvalues
    exact List.forall_mem_map.mp hvalues

/-- All that is always evaluated has a value when the expression has one, as long as the arguments of
null-safe calls have values. -/
theorem isSome_of_eagerNodes (he : e.Written) (heval : (e.eval I env).isSome)
    (hargs : ∀ n ∈ e.eagerNodes, n.argumentsEvaluate I env) : ∀ n ∈ e.eagerNodes, (n.eval I env).isSome := by
  induction e using induction with
  | node form type operands ih =>
    intro n hn
    have hoperands := isSome_of_eagerOperands he heval (hargs _ (isWalk_eagerNodes.self_mem _))
    rcases isWalk_eagerNodes.mem_iff.mp hn with rfl | ⟨o, ho, hno⟩
    · exact heval
    · have hmem := List.mem_of_mem_take ho
      have hwritten := he.of_mem_nodes (operand_nodes_subset hmem o (self_mem_nodes o))
      refine ih o hmem hwritten (hoperands o ho) ?_ n hno
      exact fun m hm => hargs m (isWalk_eagerNodes.mem_iff.mpr (Or.inr ⟨o, ho, hm⟩))

end Expr
end DataBinding
