import DataBinding.Proofs.Expr.Evaluation
import DataBinding.Proofs.Sharing.Inlining

/-!
# Values of shared expressions

Shared expressions have the values that they had before, once the local variables have theirs. This rests
on keys: what is written alike has to have one value. The variables stand for what is always evaluated, so
that none of them fails when no expression does. But the arguments of a null-safe call are counted as always
evaluated. On null the call gives null without them, while a variable that stands for an argument may fail.
-/
namespace DataBinding
open Text

/-! ## Values of variables -/

namespace Interpretation

variable {V : Type} [DecidableEq V] {I : Interpretation V} {env env' : String → V} {ls : List Local}

/-- The environment with the variables, whose values are computed in order of declaration. -/
def declare (I : Interpretation V) (env : String → V) : List Local → Option (String → V)
  | [] => some env
  | l :: ls => do I.declare (Function.update env l.name (← l.value.eval I env)) ls

theorem semantics_declare (h : I.declare env ls = some env') :
    I.semantics env' = (I.semantics env).withLocals ls := by
  induction ls generalizing env with
  | nil =>
    cases h
    rfl
  | cons l ls ih =>
    obtain ⟨v, hv, h⟩ := Option.bind_eq_some_iff.mp h
    rw [ih h, semantics_update, ← hv]
    rfl

theorem exists_declare (hscoped : Local.Scoped ls)
    (h : ∀ l ∈ ls, (l.value.meaning ((I.semantics env).withLocals ls)).isSome) :
    ∃ env', I.declare env ls = some env' := by
  induction ls generalizing env with
  | nil => exact ⟨env, rfl⟩
  | cons l ls ih =>
    obtain ⟨hl, hls⟩ := List.forall_mem_cons.mp h
    rw [Expr.meaning_withLocals hscoped.head] at hl
    obtain ⟨v, hv⟩ := Option.isSome_iff_exists.mp hl
    have hrest : ∀ l' ∈ ls, (l'.value.meaning
        ((I.semantics (Function.update env l.name v)).withLocals ls)).isSome := by
      rw [semantics_update, ← hv]
      exact hls
    obtain ⟨env', henv'⟩ := ih hscoped.tail hrest
    exact ⟨env', Option.bind_eq_some_iff.mpr ⟨v, hv, henv'⟩⟩

end Interpretation

namespace Sharing

variable {V : Type} [DecidableEq V] {I : Interpretation V} {env : String → V} {es : List Expr}

/-- Shared expressions in which no generated name stands, and whose keys determine the values, have the values
that they had as soon as the variables have theirs. The variables have values when all expressions have
some, unless an argument fails that a null-safe call on null does not evaluate. -/
theorem ofExprs_evaluated (hwritten : ∀ e ∈ es, e.Written) (hclear : ∀ e ∈ es, e.isClear (generatedNames 1))
    (hkeys : ∀ e ∈ es, ∀ n ∈ e.nodes, ∀ e' ∈ es, ∀ n' ∈ e'.nodes, n.key = n'.key →
      n.eval I env = n'.eval I env) :
    (∀ env', I.declare env (ofExprs es).locals = some env' →
      (ofExprs es).exprs.map (Expr.eval I env') = es.map (Expr.eval I env)) ∧
    ((∀ e ∈ es, (e.eval I env).isSome) → (∀ e ∈ es, ∀ n ∈ e.eagerNodes, n.argumentsEvaluate I env) →
      ∃ env', I.declare env (ofExprs es).locals = some env') := by
  have hlocal := has_localName (Nat.le_refl 1)
  have h := preserved_ofExprs hlocal
    (fun e he n => Expr.not_mentions_of_isClear (hclear e he) (hlocal n)) hwritten
    (fun e he => Expr.isWorded_of_isClear (hclear e he)) hkeys
  constructor
  · intro env' henv'
    have hsame := h.same
    rw [← Interpretation.semantics_declare henv'] at hsame
    exact hsame
  · intro heval hargs
    apply Interpretation.exists_declare h.sound.ordered
    intro l hl
    obtain ⟨e, he, n, hn, -, hmeaning⟩ :=
      h.eager l.value (value_mem_all hl) l.value (Expr.isWalk_eagerNodes.self_mem _)
    rw [hmeaning]
    exact Expr.isSome_of_eagerNodes (hwritten e he) (heval e he) (hargs e he) n hn

end Sharing

/-- The values are the paths that lead to them, and some paths lead to null. -/
def ItemPage.paths (nulls : List String) : Interpretation String :=
  let reached (path : String) : Option String := some (if nulls.contains path then "null" else path)
  { null := "null"
    constant := fun value _ => value.key
    type := (·.name)
    default := fun _ => "null"
    typeOf := (·.name)
    member := fun m owner => reached (owner ++ "." ++ m.name)
    element := fun _ _ _ => none
    call := fun m owner _ => reached (owner ++ "." ++ m.name)
    convert := fun _ value => some value
    unary := fun _ value => some value
    binary := fun _ value _ => some value
    create := fun type _ => some type.name
    format := fun template _ => some template
    isTrue := (· == "true") }

namespace Sharing

/-- Two null-safe calls on null have their argument computed before them, which does no harm as long as it
has a value. -/
theorem null_calls_evaluated :
    let es := ItemPage.exprs ["Top?.F(Low.P)", "Top?.G(Low.P)"]
    let I := ItemPage.paths ["dataRoot.Top"]
    (ofExprs es).exprs.map Expr.key = ["value2?.F(value3)", "value2?.G(value3)"] ∧
    (∀ e ∈ es, (e.eval I id).isSome) ∧
    ∃ env, I.declare id (ofExprs es).locals = some env ∧
      (ofExprs es).exprs.map (Expr.eval I env) = [some "null", some "null"] := by
  intro es I
  have hclear : ∀ e ∈ es, e.isClear (generatedNames 1) := by decide +kernel
  have hkeys : ∀ e ∈ es, ∀ n ∈ e.nodes, ∀ e' ∈ es, ∀ n' ∈ e'.nodes, n.key = n'.key →
      n.eval I id = n'.eval I id := by
    decide +kernel
  have heval : ∀ e ∈ es, (e.eval I id).isSome := by decide +kernel
  obtain ⟨hsame, hdeclared⟩ :=
    ofExprs_evaluated (fun e he => (ItemPage.exprs_built _ e he).written) hclear hkeys
  obtain ⟨env, henv⟩ := hdeclared heval (by decide +kernel)
  refine ⟨by decide +kernel, heval, env, henv, (hsame env henv).trans ?_⟩
  decide +kernel

/-- With an argument that fails, the calls give null as before, but its variable fails. -/
theorem null_calls_fail :
    let es := ItemPage.exprs ["Top?.F(Low.P)", "Top?.G(Low.P)"]
    let I := ItemPage.paths ["dataRoot.Top", "dataRoot.Low"]
    (∀ e ∈ es, ∀ n ∈ e.nodes, (generatedNames 1).has n.key = false) ∧
    es.map (Expr.eval I id) = [some "null", some "null"] ∧
    (I.declare id (ofExprs es).locals).isNone := by
  decide +kernel

end Sharing
end DataBinding
