import DataBinding.Expr.Tree
import Mathlib.Data.List.Basic

/-!
# Shapes of expressions

A plain expression has the operands that its forms take and no text with placeholders in it. Its key
writes out all its nodes, so no node has a longer key than the expression, and an access has a longer one
than its owner.
-/
namespace DataBinding

/-- Can the form have so many operands? A text with placeholders is not counted among the forms, since
its written form need not contain those of its operands. -/
def Form.Takes : Form → Nat → Prop
  | .constant _, n | .var _, n | .typeRef, n | .typeOf _, n | .default, n => n = 0
  | .member _ _ _, n | .cast, n | .paren, n | .unary _, n => n = 1
  | .binary _, n | .coalesce, n | .fallback _, n => n = 2
  | .conditional, n => n = 3
  | .element _ _, n | .call _ _, n => 0 < n
  | .create, _ => True
  | .interpolated _, _ => False

theorem length_le_intercalate (separator : String) {k : String} {keys : List String} (hk : k ∈ keys) :
    k.length ≤ (separator.intercalate keys).length := by
  induction keys with
  | nil => cases hk
  | cons a keys ih =>
    cases keys with
    | nil =>
      obtain rfl := List.mem_singleton.mp hk
      exact Nat.le_of_eq (by rw [String.intercalate_singleton])
    | cons b keys =>
      rw [String.intercalate_cons_cons, String.length_append, String.length_append]
      rcases List.mem_cons.mp hk with rfl | hk
      · omega
      · have := ih hk
        omega

namespace Form

variable {form : Form} {type : TypeRef} {keys : List String}

/-- The written form of the whole adds to that of each operand. -/
theorem length_lt_key (h : form.Takes keys.length) {k : String} (hk : k ∈ keys) :
    k.length < (form.key type keys).length := by
  have hopen : "(".length = 1 := rfl
  have hclose : ")".length = 1 := rfl
  cases form with
  | constant _ | var _ | typeRef | typeOf _ | default =>
    obtain rfl := List.length_eq_zero_iff.mp h
    cases hk
  | member _ _ nullSafe =>
    obtain ⟨a, rfl⟩ := List.length_eq_one_iff.mp h
    obtain rfl := List.mem_singleton.mp hk
    have hpoint : 0 < (if nullSafe then "?." else ".").length := by cases nullSafe <;> decide
    simp only [key, List.getD_cons_zero, String.length_append]
    omega
  | cast | paren =>
    obtain ⟨a, rfl⟩ := List.length_eq_one_iff.mp h
    obtain rfl := List.mem_singleton.mp hk
    simp only [key, List.getD_cons_zero, String.length_append]
    omega
  | unary op =>
    obtain ⟨a, rfl⟩ := List.length_eq_one_iff.mp h
    obtain rfl := List.mem_singleton.mp hk
    cases op <;> simp only [key, List.getD_cons_zero, String.length_append] <;> omega
  | binary _ | coalesce | fallback _ =>
    obtain ⟨a, b, rfl⟩ := List.length_eq_two.mp h
    rcases List.mem_pair.mp hk with rfl | rfl <;>
      simp only [key, List.getD_cons_zero, List.getD_cons_succ, String.length_append] <;> omega
  | conditional =>
    obtain ⟨a, b, c, rfl⟩ := List.length_eq_three.mp h
    simp only [List.mem_cons, List.not_mem_nil, or_false] at hk
    rcases hk with rfl | rfl | rfl <;>
      simp only [key, List.getD_cons_zero, List.getD_cons_succ, String.length_append] <;> omega
  | element _ _ | call _ _ =>
    have hbracket : "[".length = 1 := rfl
    obtain ⟨a, args, rfl⟩ := List.exists_cons_of_length_pos h
    rcases List.mem_cons.mp hk with rfl | hk
    · simp only [key, List.getD_cons_zero, String.length_append]
      omega
    · have := length_le_intercalate ", " hk
      simp only [key, List.drop_one, List.tail_cons, String.length_append]
      omega
  | create =>
    have := length_le_intercalate ", " hk
    simp only [key, String.length_append]
    omega
  | interpolated _ => exact h.elim

end Form

namespace Expr

theorem key_eq (form : Form) (type : TypeRef) (operands : List Expr) :
    key ⟨form, type, operands⟩ = form.key type (operands.map key) := by
  rw [key, keys_eq_map]

theorem mem_nodes {n e : Expr} : n ∈ e.nodes ↔ n = e ∨ ∃ o ∈ e.operands, n ∈ o.nodes := by
  obtain ⟨form, type, operands⟩ := e
  rw [nodes, nodesAll_eq_flatMap]
  simp

theorem self_mem_nodes (e : Expr) : e ∈ e.nodes := mem_nodes.mpr (Or.inl rfl)

theorem stripped_mem_nodes (e : Expr) : e.stripped ∈ e.nodes := by
  fun_induction stripped e with
  | case1 type e ih | case2 type e ih => exact mem_nodes.mpr (Or.inr ⟨e, List.mem_singleton_self e, ih⟩)
  | case3 e => exact self_mem_nodes e

/-- The accesses in an expression are not lost with the parentheses and casts around it. -/
theorem mem_nodes_stripped {n e : Expr} (hn : n ∈ e.nodes) (ha : n.access?.isSome) :
    n ∈ e.stripped.nodes := by
  fun_induction stripped e with
  | case1 type e ih | case2 type e ih =>
    rcases mem_nodes.mp hn with rfl | ⟨o, ho, hno⟩
    · cases ha
    · obtain rfl := List.mem_singleton.mp ho
      exact ih hno
  | case3 e => exact hn

theorem owner_mem_nodes {e owner : Expr} {m : Member} {marker : Option Marker}
    (ha : e.access? = some (owner, m, marker)) : owner ∈ e.nodes := by
  obtain ⟨form, type, operands⟩ := e
  have hmem : owner ∈ operands := by
    unfold access? at ha
    split at ha <;> simp_all
  exact mem_nodes.mpr (Or.inr ⟨owner, hmem, self_mem_nodes owner⟩)

/-- The written form of an access adds to that of the owner. -/
theorem key_of_access? {e owner : Expr} {m : Member} {marker : Option Marker}
    (ha : e.access? = some (owner, m, marker)) : ∃ rest, e.key = owner.key ++ rest ∧ 0 < rest.length := by
  obtain ⟨form, type, operands⟩ := e
  rw [key_eq]
  cases operands with
  | nil => simp [access?] at ha
  | cons o os =>
    cases form with
    | member m' _ nullSafe =>
      obtain ⟨rfl, -⟩ := Prod.mk.inj (Option.some.inj ha)
      have hpoint : 0 < (if nullSafe then "?." else ".").length := by cases nullSafe <;> decide
      refine ⟨(if nullSafe then "?." else ".") ++ m'.name, ?_, ?_⟩
      · simp only [Form.key, List.map_cons, List.getD_cons_zero, String.append_assoc]
      · rw [String.length_append]
        omega
    | element _ _ =>
      obtain ⟨rfl, -⟩ := Prod.mk.inj (Option.some.inj ha)
      have hbracket : 0 < "[".length := by decide
      refine ⟨"[" ++ (", ".intercalate (os.map key) ++ "]"), ?_, ?_⟩
      · simp [Form.key, String.append_assoc]
      · rw [String.length_append]
        omega
    | _ => cases ha

theorem length_owner_lt {e owner : Expr} {m : Member} {marker : Option Marker}
    (ha : e.access? = some (owner, m, marker)) : owner.key.length < e.key.length := by
  obtain ⟨rest, hkey, hrest⟩ := key_of_access? ha
  rw [hkey, String.length_append]
  omega

/-- Every node has the operands that its form takes, and none is a text with placeholders. -/
inductive Plain : Expr → Prop where
  | node {form : Form} {type : TypeRef} {operands : List Expr} (takes : form.Takes operands.length)
      (operands_plain : ∀ e ∈ operands, Plain e) : Plain ⟨form, type, operands⟩

namespace Plain

theorem leaf {form : Form} {type : TypeRef} (h : form.Takes 0) : Plain ⟨form, type, []⟩ :=
  .node h (by simp)

theorem wrap {form : Form} {type : TypeRef} {e : Expr} (h : form.Takes 1) (he : e.Plain) :
    Plain ⟨form, type, [e]⟩ :=
  .node h (by simpa using he)

theorem pair {form : Form} {type : TypeRef} {left right : Expr} (h : form.Takes 2) (hl : left.Plain)
    (hr : right.Plain) : Plain ⟨form, type, [left, right]⟩ :=
  .node h (by simpa using ⟨hl, hr⟩)

theorem of_mem_nodes {e n : Expr} (h : e.Plain) (hn : n ∈ e.nodes) : n.Plain := by
  induction h with
  | node takes operands_plain ih =>
    rcases mem_nodes.mp hn with rfl | ⟨o, ho, hn⟩
    · exact .node takes operands_plain
    · exact ih o ho hn

theorem length_key_le {e n : Expr} (h : e.Plain) (hn : n ∈ e.nodes) :
    n.key.length ≤ e.key.length := by
  induction h with
  | @node form type operands takes _ ih =>
    rcases mem_nodes.mp hn with rfl | ⟨o, ho, hn⟩
    · exact Nat.le_refl _
    · calc n.key.length ≤ o.key.length := ih o ho hn
        _ ≤ (form.key type (operands.map key)).length :=
          Nat.le_of_lt (Form.length_lt_key (by rwa [List.length_map]) (List.mem_map_of_mem ho))
        _ = (key ⟨form, type, operands⟩).length := by rw [key_eq]

end Plain
end Expr
end DataBinding
