import DataBinding.Proofs.Expr.Meaning
import DataBinding.Proofs.Grammar.Readings

/-!
# Nodes of expressions that are read

Everything in an expression that is read can be read itself. Every rule builds its expression by a form with
the operands that it takes, so expressions that are read are plain.
-/
namespace DataBinding.Grammar

variable {s : Setting} {e : Expr}

theorem operands_rootExpr (type : TypeRef) (name : String) (isStatic : Bool) :
    (rootExpr type name isStatic).operands = [] := by
  cases isStatic <;> rfl

theorem rootExpr_plain (type : TypeRef) (name : String) (isStatic : Bool) :
    (rootExpr type name isStatic).Plain := by
  cases isStatic <;> exact .leaf rfl

theorem Reading.plain (hroot : s.root.Plain) (h : Reading s e) : e.Plain := by
  induction h with
  | root => exact hroot
  | null | bool _ | number _ | negative _ | text _ | type _ | typeOf _ | default _ => exact .leaf rfl
  | member marker nullSafe _ _ _ _ ih => exact .wrap rfl ih
  | static _ _ _ _ ih => exact .wrap rfl ih
  | element marker _ _ _ _ _ ih ihargs => exact .node (Nat.succ_pos _) (List.forall_mem_cons.mpr ⟨ih, ihargs⟩)
  | call nullSafe _ _ _ _ _ ih ihargs => exact .node (Nat.succ_pos _) (List.forall_mem_cons.mpr ⟨ih, ihargs⟩)
  | staticCall nullSafe _ _ _ _ _ _ _ ih ihargs =>
    exact .node (Nat.succ_pos _) (List.forall_mem_cons.mpr ⟨ih, ihargs⟩)
  | create _ _ ihargs => exact .node trivial ihargs
  | cast _ _ ih | paren _ ih | not _ _ ih | negate _ _ _ ih => exact .wrap rfl ih
  | binary _ _ _ ihleft ihright | coalesce _ _ _ ihleft ihright => exact .pair rfl ihleft ihright
  | conditional _ _ _ _ _ ihtest ihtrue ihfalse => exact .node rfl (by simpa using ⟨ihtest, ihtrue, ihfalse⟩)

theorem Reading.operands (hroot : s.root.operands = []) (h : Reading s e) : ∀ o ∈ e.operands, Reading s o := by
  cases h with
  | root => simp [hroot]
  | null | bool _ | number _ | negative _ | text _ | type _ | typeOf _ | default _ => exact nofun
  | member _ _ htarget _ _ _ | static htarget _ _ _ => simpa [Expr.member] using htarget
  | element _ htarget hargs _ _ _ | call _ htarget hargs _ _ _ | staticCall _ _ htarget hargs _ _ _ =>
    exact List.forall_mem_cons.mpr ⟨htarget, hargs⟩
  | create _ hargs => exact hargs
  | cast he _ | paren he | not he _ | negate he _ _ => exact List.forall_mem_singleton.mpr he
  | binary hleft hright _ | coalesce hleft hright _ =>
    exact List.forall_mem_cons.mpr ⟨hleft, List.forall_mem_singleton.mpr hright⟩
  | conditional htest htrue hfalse _ _ =>
    exact List.forall_mem_cons.mpr ⟨htest, List.forall_mem_cons.mpr ⟨htrue, List.forall_mem_singleton.mpr hfalse⟩⟩

theorem Reading.of_mem_nodes (hroot : s.root.operands = []) {n : Expr} (h : Reading s e) (hn : n ∈ e.nodes) :
    Reading s n := by
  induction e using Expr.induction with
  | node form type operands ih =>
    rcases Expr.mem_nodes.mp hn with rfl | ⟨o, ho, hno⟩
    · exact h
    · exact ih o ho (h.operands hroot o ho) hno

theorem parseBytes_plain {type : TypeRef} {name : String} {isStatic : Bool}
    (hroot : s.root = rootExpr type name isStatic) {text : List Char} {whole : Bool} {parsed : Parsed}
    (h : parseBytes s text whole = .ok parsed) : parsed.expr.Plain := by
  have hnumber : startsWithNumber s.root = false := hroot ▸ startsWithNumber_rootExpr type name isStatic
  have hplain : s.root.Plain := hroot ▸ rootExpr_plain type name isStatic
  exact (parseBytes_reading hnumber h).plain hplain

end DataBinding.Grammar
