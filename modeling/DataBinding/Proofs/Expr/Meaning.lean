import DataBinding.Proofs.Expr.Shape
import Mathlib.Logic.Function.Basic

/-!
# Meanings of expressions

A meaning is given to expressions from the leaves up: a semantics says what a form means when the meanings
of its operands are known. The written form is one meaning, a value another. To replace a variable by an
expression is to assign the expression's meaning to it, and a variable may stand in the place of all
expressions with one meaning when that meaning is assigned to it.
-/
namespace DataBinding

def Form.isVar (form : Form) (x : String) : Bool :=
  match form with
  | .var name => name == x
  | _ => false

theorem Form.isVar_iff {form : Form} {x : String} : form.isVar x = true ↔ form = .var x := by
  cases form <;> simp [isVar]

/-- What a form means, given the meanings of the operands. -/
abbrev Semantics (α : Type) := Form → TypeRef → List α → α

namespace Semantics

variable {α : Type} {x y : String}

def assign (f : Semantics α) (x : String) (a : α) : Semantics α :=
  fun form type as => if form.isVar x then a else f form type as

theorem assign_comm (f : Semantics α) (h : x ≠ y) (a b : α) :
    (f.assign x a).assign y b = (f.assign y b).assign x a := by
  funext form type as
  by_cases hx : form = .var x
  · simp [assign, hx, Form.isVar, h]
  · simp [assign, Form.isVar_iff, hx]

/-- Written forms in which each variable is spelled as the function says. -/
def naming (σ : String → String) : Semantics String
  | .var x, _, _ => σ x
  | form, type, keys => form.key type keys

theorem naming_id : naming id = Form.key := by
  funext form type keys
  cases form <;> rfl

theorem naming_of_not_var {σ : String → String} {form : Form} (h : ∀ x, form ≠ .var x)
    (type : TypeRef) (keys : List String) : naming σ form type keys = form.key type keys := by
  cases form with
  | var x => exact absurd rfl (h x)
  | _ => rfl

theorem assign_naming (σ : String → String) (x text : String) :
    (naming σ).assign x text = naming (Function.update σ x text) := by
  funext form type keys
  cases form with
  | var y => by_cases h : y = x <;> simp [assign, naming, Form.isVar, h]
  | _ => rfl

end Semantics

namespace Expr

variable {α : Type} {f g : Semantics α} {e v n : Expr} {k x y : String} {t : TypeRef} {a : α}

@[elab_as_elim]
theorem induction {P : Expr → Prop}
    (node : ∀ form type operands, (∀ o ∈ operands, P o) → P ⟨form, type, operands⟩) (e : Expr) : P e := by
  apply @Expr.rec P (fun es => ∀ o ∈ es, P o)
  · exact node
  · simp
  · intro e es he hes
    exact List.forall_mem_cons.mpr ⟨he, hes⟩

mutual

def meaning (f : Semantics α) : Expr → α
  | ⟨form, type, operands⟩ => f form type (meanings f operands)

def meanings (f : Semantics α) : List Expr → List α
  | [] => []
  | e :: es => e.meaning f :: meanings f es

end

theorem meanings_eq_map (f : Semantics α) (es : List Expr) : meanings f es = es.map (meaning f) := by
  induction es with
  | nil => rfl
  | cons e es ih => simp [meanings, ih]

theorem meaning_eq (f : Semantics α) (form : Form) (type : TypeRef) (operands : List Expr) :
    meaning f ⟨form, type, operands⟩ = f form type (operands.map (meaning f)) := by
  rw [meaning, meanings_eq_map]

theorem meaning_key (e : Expr) : e.meaning Form.key = e.key := by
  induction e using induction with
  | node form type operands ih => rw [meaning_eq, key_eq, List.map_congr_left ih]

theorem operand_nodes_subset {form : Form} {type : TypeRef} {operands : List Expr} {o : Expr}
    (ho : o ∈ operands) : ∀ n ∈ o.nodes, n ∈ nodes ⟨form, type, operands⟩ :=
  fun _ hn => mem_nodes.mpr (Or.inr ⟨o, ho, hn⟩)

/-- A walk lists an expression and then goes on with so many of its operands, from the left. -/
structure IsWalk (walk : Expr → List Expr) (count : Form → Nat → Nat) : Prop where
  mem_iff : ∀ {e n}, n ∈ walk e ↔ n = e ∨ ∃ o ∈ e.operands.take (count e.form e.operands.length), n ∈ walk o

theorem isWalk_nodes : IsWalk nodes fun _ n => n where
  mem_iff := by
    intro e n
    rw [mem_nodes, List.take_length]

theorem isWalk_eagerNodes : IsWalk eagerNodes Form.eagerCount where
  mem_iff := by
    intro e n
    obtain ⟨form, type, operands⟩ := e
    rw [eagerNodes, eagerNodesOf_eq_flatMap, List.mem_cons, List.mem_flatMap]

namespace IsWalk

variable {walk : Expr → List Expr} {count : Form → Nat → Nat} (h : IsWalk walk count)
include h

theorem self_mem (e : Expr) : e ∈ walk e := h.mem_iff.mpr (Or.inl rfl)

theorem mem_nodes (hn : n ∈ walk e) : n ∈ e.nodes := by
  induction e using induction with
  | node form type operands ih =>
    rcases h.mem_iff.mp hn with rfl | ⟨o, ho, hno⟩
    · exact self_mem_nodes _
    · have hmem := List.mem_of_mem_take ho
      exact operand_nodes_subset hmem n (ih o hmem hno)

theorem trans {m : Expr} (hm : m ∈ walk n) (hn : n ∈ walk e) : m ∈ walk e := by
  induction e using induction with
  | node form type operands ih =>
    rcases h.mem_iff.mp hn with rfl | ⟨o, ho, hno⟩
    · exact hm
    · exact h.mem_iff.mpr (Or.inr ⟨o, ho, ih o (List.mem_of_mem_take ho) hno⟩)

end IsWalk

theorem mem_nodes_trans {m : Expr} (hm : m ∈ n.nodes) (hn : n ∈ e.nodes) : m ∈ e.nodes :=
  isWalk_nodes.trans hm hn

/-- Only the forms of the nodes count. -/
theorem meaning_congr (h : ∀ n ∈ e.nodes, ∀ as, f n.form n.type as = g n.form n.type as) :
    e.meaning f = e.meaning g := by
  induction e using induction with
  | node form type operands ih =>
    have hoperands : operands.map (meaning f) = operands.map (meaning g) :=
      List.map_congr_left fun o ho => ih o ho fun n hn => h n (operand_nodes_subset ho n hn)
    rw [meaning_eq, meaning_eq, hoperands]
    exact h _ (self_mem_nodes _) _

/-! ## Mentioned variables -/

def mentions (e : Expr) (x : String) : Bool := e.nodes.any (·.form.isVar x)

theorem mentions_iff : e.mentions x = true ↔ ∃ n ∈ e.nodes, n.form = .var x := by
  simp [mentions, Form.isVar_iff]

theorem isVar_of_not_mentions (h : e.mentions x = false) (hn : n ∈ e.nodes) :
    n.form.isVar x = false := by
  simp only [mentions, List.any_eq_false] at h
  simpa using h n hn

theorem mentions_of_mem_nodes (hn : n ∈ e.nodes) (h : n.mentions x) : e.mentions x := by
  obtain ⟨m, hm, hx⟩ := mentions_iff.mp h
  exact mentions_iff.mpr ⟨m, mem_nodes_trans hm hn, hx⟩

theorem not_mentions_of_mem_nodes (hn : n ∈ e.nodes) (h : e.mentions x = false) :
    n.mentions x = false := by
  by_contra hx
  simp [mentions_of_mem_nodes hn (Bool.not_eq_false _ ▸ hx)] at h

theorem mentions_var : (var x t).mentions y = (x == y) := by
  simp [mentions, var, nodes, nodesAll, Form.isVar]

theorem meaning_assign (h : e.mentions x = false) : e.meaning (f.assign x a) = e.meaning f := by
  apply meaning_congr
  intro n hn as
  simp [Semantics.assign, isVar_of_not_mentions h hn]

/-! ## Replacement -/

theorem replaceKey_eq (k : String) (v : Expr) (form : Form) (type : TypeRef) (operands : List Expr) :
    replaceKey k v ⟨form, type, operands⟩ =
      if key ⟨form, type, operands⟩ = k then v else ⟨form, type, operands.map (replaceKey k v)⟩ := by
  rw [replaceKey, replaceKeyAll_eq_map, key]

theorem replaceKey_of_key_eq (h : e.key = k) : replaceKey k v e = v := by
  obtain ⟨form, type, operands⟩ := e
  rw [replaceKey_eq, if_pos h]

theorem replaceKey_of_key_ne (h : e.key ≠ k) :
    replaceKey k v e = ⟨e.form, e.type, e.operands.map (replaceKey k v)⟩ := by
  obtain ⟨form, type, operands⟩ := e
  rw [replaceKey_eq, if_neg h]

theorem replaceKey_of_forall_ne (h : ∀ n ∈ e.nodes, n.key ≠ k) : replaceKey k v e = e := by
  induction e using induction with
  | node form type operands ih =>
    have hoperands : operands.map (replaceKey k v) = operands.map id :=
      List.map_congr_left fun o ho => ih o ho fun n hn => h n (operand_nodes_subset ho n hn)
    rw [replaceKey_eq, if_neg (h _ (self_mem_nodes _)), hoperands, List.map_id]

/-- What stands in the place of the replaced nodes is in the result. -/
theorem nodes_subset_replaceKey (hn : n ∈ e.nodes) (hk : n.key = k) :
    ∀ m ∈ v.nodes, m ∈ (replaceKey k v e).nodes := by
  induction e using induction with
  | node form type operands ih =>
    intro m hm
    rw [replaceKey_eq]
    split
    · exact hm
    · rename_i hkey
      rcases mem_nodes.mp hn with rfl | ⟨o, ho, hno⟩
      · exact absurd hk hkey
      · exact operand_nodes_subset (List.mem_map_of_mem ho) m (ih o ho hno m hm)

theorem containsKey_iff : e.containsKey k = true ↔ ∃ n ∈ e.nodes, n.key = k := by
  simp [containsKey]

/-- What a walk finds in the result is found in the new expression or has become of something that it finds
and that is not replaced. -/
theorem IsWalk.mem_replaceKey {walk : Expr → List Expr} {count : Form → Nat → Nat} (h : IsWalk walk count)
    {m : Expr} (hm : m ∈ walk (replaceKey k v e)) :
    m ∈ walk v ∨ ∃ n ∈ walk e, n.key ≠ k ∧ m = replaceKey k v n := by
  induction e using induction with
  | node form type operands ih =>
    by_cases hkey : key ⟨form, type, operands⟩ = k
    · rw [replaceKey_of_key_eq hkey] at hm
      exact Or.inl hm
    · rw [replaceKey_eq, if_neg hkey] at hm
      rcases h.mem_iff.mp hm with rfl | ⟨o', ho', hmo⟩
      · exact Or.inr ⟨_, h.self_mem _, hkey, (replaceKey_of_key_ne hkey).symm⟩
      · rw [List.length_map, ← List.map_take] at ho'
        obtain ⟨o, ho, rfl⟩ := List.mem_map.mp ho'
        rcases ih o (List.mem_of_mem_take ho) hmo with hv | ⟨n, hn, hne, rfl⟩
        · exact Or.inl hv
        · exact Or.inr ⟨n, h.mem_iff.mpr (Or.inr ⟨o, ho, hn⟩), hne, rfl⟩

theorem mem_nodes_replaceKey {m : Expr} (hm : m ∈ (replaceKey k v e).nodes) :
    m ∈ v.nodes ∨ ∃ n ∈ e.nodes, n.key ≠ k ∧ m = replaceKey k v n :=
  isWalk_nodes.mem_replaceKey hm

/-- A property of the forms and types in two expressions passes on to what replacement makes of them. -/
theorem forall_nodes_replaceKey {P : Form → TypeRef → Prop} (he : ∀ n ∈ e.nodes, P n.form n.type)
    (hv : ∀ n ∈ v.nodes, P n.form n.type) : ∀ n ∈ (replaceKey k v e).nodes, P n.form n.type := by
  intro m hm
  rcases mem_nodes_replaceKey hm with hm | ⟨n, hn, hne, rfl⟩
  · exact hv m hm
  · rw [replaceKey_of_key_ne hne]
    exact he n hn

theorem mentions_of_replaceKey (h : (replaceKey k v e).mentions x) : v.mentions x ∨ e.mentions x := by
  obtain ⟨m, hm, hx⟩ := mentions_iff.mp h
  rcases mem_nodes_replaceKey hm with hm | ⟨n, hn, hne, rfl⟩
  · exact Or.inl (mentions_iff.mpr ⟨m, hm, hx⟩)
  · rw [replaceKey_of_key_ne hne] at hx
    exact Or.inr (mentions_iff.mpr ⟨n, hn, hx⟩)

/-- A variable disappears only with the nodes that are replaced. -/
theorem mentions_replaceKey (h : e.mentions x) :
    (replaceKey k v e).mentions x ∨ ∃ n ∈ e.nodes, n.key = k ∧ n.mentions x := by
  induction e using induction with
  | node form type operands ih =>
    by_cases hkey : key ⟨form, type, operands⟩ = k
    · exact Or.inr ⟨_, self_mem_nodes _, hkey, h⟩
    · rw [replaceKey_eq, if_neg hkey]
      obtain ⟨m, hm, hx⟩ := mentions_iff.mp h
      rcases mem_nodes.mp hm with rfl | ⟨o, ho, hmo⟩
      · exact Or.inl (mentions_iff.mpr ⟨_, self_mem_nodes _, hx⟩)
      · rcases ih o ho (mentions_iff.mpr ⟨m, hmo, hx⟩) with hleft | ⟨n, hn, hnk, hnx⟩
        · have hself := self_mem_nodes (replaceKey k v o)
          exact Or.inl (mentions_of_mem_nodes (operand_nodes_subset (List.mem_map_of_mem ho) _ hself) hleft)
        · exact Or.inr ⟨n, operand_nodes_subset ho n hn, hnk, hnx⟩

/-- An expression in the place of a variable: the variable has the meaning of the expression. -/
theorem meaning_replaceKey_of_isVar (h : ∀ n ∈ e.nodes, n.key = x → n.form.isVar x) :
    (replaceKey x v e).meaning f = e.meaning (f.assign x (v.meaning f)) := by
  induction e using induction with
  | node form type operands ih =>
    have hself := h _ (self_mem_nodes ⟨form, type, operands⟩)
    rw [replaceKey_eq, meaning_eq, Semantics.assign]
    by_cases hkey : key ⟨form, type, operands⟩ = x
    · rw [if_pos hkey, if_pos (hself hkey)]
    · have hform : ¬ form.isVar x := by
        intro hx
        obtain rfl := Form.isVar_iff.mp hx
        exact hkey (key_eq _ _ _)
      have hoperands : (operands.map (replaceKey x v)).map (meaning f) =
          operands.map (meaning (f.assign x (v.meaning f))) := by
        rw [List.map_map]
        exact List.map_congr_left fun o ho => ih o ho fun n hn => h n (operand_nodes_subset ho n hn)
      rw [if_neg hkey, if_neg hform, meaning_eq, hoperands]

/-- A variable in the place of expressions with one meaning, which is assigned to it. -/
theorem meaning_replaceKey_var (h : ∀ n ∈ e.nodes, n.key = k → n.meaning f = a)
    (hx : e.mentions x = false) :
    (replaceKey k (var x t) e).meaning (f.assign x a) = e.meaning f := by
  induction e using induction with
  | node form type operands ih =>
    have hself := h _ (self_mem_nodes ⟨form, type, operands⟩)
    rw [replaceKey_eq]
    by_cases hkey : key ⟨form, type, operands⟩ = k
    · rw [if_pos hkey, hself hkey, var, meaning_eq, Semantics.assign, if_pos (Form.isVar_iff.mpr rfl)]
    · have hform : form.isVar x = false := isVar_of_not_mentions hx (self_mem_nodes _)
      have hoperands : (operands.map (replaceKey k (var x t))).map (meaning (f.assign x a)) =
          operands.map (meaning f) := by
        rw [List.map_map]
        refine List.map_congr_left fun o ho => ih o ho (fun n hn => h n (operand_nodes_subset ho n hn)) ?_
        exact not_mentions_of_mem_nodes (operand_nodes_subset ho o (self_mem_nodes o)) hx
      rw [if_neg hkey, meaning_eq, meaning_eq, hoperands, Semantics.assign, hform, if_neg Bool.false_ne_true]

end Expr
end DataBinding
