import DataBinding.Proofs.Sharing.Completeness

/-!
# Sharing comes to an end

Sharing goes on in rounds until nothing is left to share. A round may leave as many nodes as there were,
since the value of the new variable is kept and looked through again. What falls is the number of nodes
that are always evaluated and worth a variable: the new variable takes the places of two of them at least,
and its value brings back one. A round declares one variable, so there are never more variables than nodes
that were worth one.
-/
namespace DataBinding

theorem Expr.eagerNodes_sublist (e : Expr) : e.eagerNodes.Sublist e.nodes := by
  induction e using induction with
  | node form type operands ih =>
    rw [eagerNodes, nodes, eagerNodesOf_eq_flatMap, nodesAll_eq_flatMap]
    apply List.Sublist.cons_cons
    apply List.Sublist.trans (List.Sublist.flatMap_right _ fun o ho => ih o (List.mem_of_mem_take ho))
    exact (List.take_sublist _ _).flatMap nodes

namespace Sharing

variable {s t : Sharing} {es : List Expr}

/-- One round: what is to be shared next gets a variable. -/
def Round (s t : Sharing) : Prop := ∃ o, candidate? s.nodes = some o ∧ s.hoist o = t

theorem Round.spec (h : Round s t) (hwritten : ∀ e ∈ s.all, e.Written) :
    (∀ e ∈ t.all, e.Written) ∧ t.locals.length = s.locals.length + 1 ∧ t.nodes.length < s.nodes.length := by
  obtain ⟨o, ho, rfl⟩ := h
  exact ⟨written_hoist (occurs_of_candidate? ho) hwritten, length_locals_hoist, length_nodes_hoist hwritten ho⟩

theorem acc_round (hwritten : ∀ e ∈ s.all, e.Written) : Acc (flip Round) s := by
  induction hn : s.nodes.length using Nat.strong_induction_on generalizing s with
  | h n ih =>
    subst hn
    constructor
    intro t hround
    obtain ⟨ht, -, hlt⟩ := Round.spec hround hwritten
    exact ih t.nodes.length hlt ht rfl

theorem hoistAll_rounds (bound : Nat) (s : Sharing) : Relation.ReflTransGen Round s (hoistAll bound s) := by
  induction bound generalizing s with
  | zero => exact .refl
  | succ bound ih =>
    unfold hoistAll
    split
    · exact .refl
    · rename_i o ho
      exact .head ⟨o, ho, rfl⟩ (ih (s.hoist o))

/-- However many rounds have been made, the variables have taken the places of as many nodes. -/
theorem length_locals_add_length_nodes_le (h : Relation.ReflTransGen Round s t)
    (hwritten : ∀ e ∈ s.all, e.Written) :
    t.locals.length + t.nodes.length ≤ s.locals.length + s.nodes.length := by
  induction h using Relation.ReflTransGen.head_induction_on with
  | refl => exact Nat.le_refl _
  | head hround _ ih =>
    obtain ⟨hnext, hlocals, hnodes⟩ := Round.spec hround hwritten
    have := ih hnext
    omega

/-- The rounds come to an end, which is what sharing gives, and there are at most as many variables as
nodes that are worth one. -/
theorem ofExprs_ends (hbuilt : ∀ e ∈ es, e.Built) :
    Acc (flip Round) ⟨[], es⟩ ∧
    Relation.ReflTransGen Round ⟨[], es⟩ (ofExprs es) ∧ (∀ t, ¬ Round (ofExprs es) t) ∧
    (ofExprs es).locals.length ≤ (es.flatMap Expr.nodes).countP (!·.isTrivial) := by
  have hwritten : ∀ e ∈ (⟨[], es⟩ : Sharing).all, e.Written := by
    intro e he
    exact (hbuilt e (by simpa [all] using he)).written
  have hrounds : Relation.ReflTransGen Round ⟨[], es⟩ (ofExprs es) := hoistAll_rounds _ _
  refine ⟨acc_round hwritten, hrounds, ?_, ?_⟩
  · rintro t ⟨o, ho, -⟩
    have hnone : candidate? (ofExprs es).nodes = none := candidate?_hoistAll hwritten (Nat.le_refl _)
    rw [hnone] at ho
    cases ho
  · have hle := length_locals_add_length_nodes_le hrounds hwritten
    have hsublist : ((es.flatMap Expr.eagerNodes).filter (!·.isTrivial)).Sublist
        ((es.flatMap Expr.nodes).filter (!·.isTrivial)) := by
      apply List.Sublist.filter
      exact List.Sublist.flatMap_right _ fun e _ => e.eagerNodes_sublist
    have hnodes : (⟨[], es⟩ : Sharing).nodes.length ≤ (es.flatMap Expr.nodes).countP (!·.isTrivial) := by
      rw [List.countP_eq_length_filter]
      simpa [nodes] using hsublist.length_le
    have hlocals : (⟨[], es⟩ : Sharing).locals.length = 0 := rfl
    omega

/-- The only round leaves six nodes as there were before, and one variable where four nodes are worth one. -/
theorem top_ends :
    let es := ItemPage.exprs ["Top.P", "Top.Q"]
    let s := ofExprs es
    (es.map Expr.size).sum = 6 ∧ (s.all.map Expr.size).sum = 6 ∧
    s.locals.length = 1 ∧ (es.flatMap Expr.nodes).countP (!·.isTrivial) = 4 ∧
    Acc (flip Round) ⟨[], es⟩ ∧ (∀ t, ¬ Round s t) ∧
    s.locals.length ≤ (es.flatMap Expr.nodes).countP (!·.isTrivial) := by
  intro es s
  obtain ⟨hacc, -, hlast, hle⟩ := ofExprs_ends (ItemPage.exprs_built ["Top.P", "Top.Q"])
  exact ⟨by decide +kernel, by decide +kernel, by decide +kernel, by decide +kernel, hacc, hlast, hle⟩

end Sharing
end DataBinding
