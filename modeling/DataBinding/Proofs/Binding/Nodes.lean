import DataBinding.Proofs.Binding.Value
import DataBinding.Proofs.Text.Paths

/-!
# Nodes of values

Every node in the value of a target is read, belongs to the access to a resource, or is one of those that a
declaration puts around its expressions.
-/
namespace DataBinding
open Text

theorem Segment.isWord_of_resource? {text name rest : List Char} (h : resource? text = some (name, rest)) :
    IsWord (String.ofList name) := by
  unfold resource? at h
  simp only [Option.bind_eq_bind, Option.bind_eq_some_iff] at h
  obtain ⟨inner, -, inner', -, rest', -, h⟩ := h
  split at h
  · rename_i hblank
    cases h
    constructor
    · intro hnil
      simp_all
    · intro c hc
      rw [String.toList_ofList] at hc
      exact List.all_eq_true.mp List.all_takeWhile c hc
  · cases h

/-- The nodes of the expressions that arguments can have. -/
inductive Argument.Setting.Node (s : Setting) : Expr → Prop where
  | read {e : Expr} (h : Grammar.Reading s.grammar e) : s.Node e
  | targetRoot : s.Node (.var "_targetRoot" s.context.targetType)
  | resource {name : String} (type : TypeRef) (h : IsWord name) : s.Node (s.resourceExpr ⟨name, type⟩)

namespace Argument

variable {s : Setting} {e : Expr}

theorem Setting.Node.operands (h : s.Node e) : ∀ o ∈ e.operands, s.Node o := by
  cases h with
  | read h => exact fun o ho => .read (h.operands (show _ = [] from rfl) o ho)
  | targetRoot => exact nofun
  | resource type h => exact List.forall_mem_singleton.mpr .targetRoot

theorem reads_node (s : Setting) : s.Reads s.Node where
  parsed h := .read (Grammar.parseBytes_reading (show _ = false from rfl) h)
  resource type h := .resource type (Segment.isWord_of_resource? h)

end Argument

namespace Declaration

/-- The nodes of what is made of expressions with a property. -/
inductive Node (c : Context) (site : Site) (P : Expr → Prop) : Expr → Prop where
  | composed {e : Expr} (h : Composed c site P e) : Node c site P e
  | fallback {e value : Expr} (number : Nat) (he : Composed c site P e) (hvalue : P value) :
    Node c site P (.fallback e value number)
  | interpolated (template : String) (e : Expr) : Node c site P (.interpolated template [e])

variable {c : Context} {site : Site} {as : List Argument} {P : Expr → Prop}
  (hclosed : ∀ e, P e → ∀ o ∈ e.operands, P o)
include hclosed

theorem Composed.operands {e : Expr} (h : Composed c site P e) : ∀ o ∈ e.operands, Composed c site P o := by
  cases h with
  | given h => exact fun o ho => .given (hclosed e h o ho)
  | null | targetType => exact nofun
  | convert hconverter _ hargs => exact List.forall_mem_cons.mpr ⟨.given hconverter, hargs⟩
  | cast he => exact List.forall_mem_singleton.mpr he
  | coalesce he hvalue => exact List.forall_mem_cons.mpr ⟨he, List.forall_mem_singleton.mpr (.given hvalue)⟩

theorem Composed.of_mem_nodes {e n : Expr} (h : Composed c site P e) (hn : n ∈ e.nodes) :
    Composed c site P n := by
  induction e using Expr.induction with
  | node form type operands ih =>
    rcases Expr.mem_nodes.mp hn with rfl | ⟨o, ho, hno⟩
    · exact h
    · exact ih o ho (h.operands hclosed o ho) hno

theorem value_node (hP : ∀ role e, role ≠ .bindBack → expr? role as = some e → P e) {number next : Nat}
    {v n : Expr} (h : (value c site as).run.run number = (.ok (some v), next)) (hn : n ∈ v.nodes) :
    Node c site P n := by
  obtain ⟨e, he, rfl, -⟩ := value_composed hP h
  have hfallback : ∀ n ∈ (withFallback c as number e).1.nodes, Node c site P n := by
    intro n hn
    rcases withFallback_cases c as number e with heq | ⟨value, hvalue, heq⟩ <;> rw [heq] at hn
    · exact .composed (he.of_mem_nodes hclosed hn)
    · have hvalue := hP .fallback value (by decide) hvalue
      rcases Expr.mem_nodes.mp hn with rfl | ⟨o, ho, hno⟩
      · exact .fallback number he hvalue
      · simp only [Expr.fallback, List.mem_cons, List.not_mem_nil, or_false] at ho
        rcases ho with rfl | rfl
        · exact .composed (he.of_mem_nodes hclosed hno)
        · exact .composed ((Composed.given hvalue).of_mem_nodes hclosed hno)
  rcases formatted_cases as (withFallback c as number e).1 with heq | ⟨format, heq⟩ <;> rw [heq] at hn
  · exact hfallback n hn
  · rcases Expr.mem_nodes.mp hn with rfl | ⟨o, ho, hno⟩
    · exact .interpolated _ _
    · obtain rfl := List.mem_singleton.mp ho
      exact hfallback n hno

end Declaration

/-- The nodes of the value are those of a declaration at the site, read with some type of the source. -/
theorem Binding.ofSite_node {c : Context} {site : Site} {number next : Nat} {b : Binding}
    (h : ofSite c site number = .ok (b, next)) :
    ∃ type, ∀ v, b.value = some v → ∀ n ∈ v.nodes,
      Declaration.Node c b.site (Argument.Setting.Node ⟨c, b.site, type⟩) n := by
  obtain ⟨-, found, as, mode, value, -, has, -, -, -, hvalue, rfl⟩ :=
    Declaration.binding_eq_ok.mp (ofSite_eq_ok.mp h)
  refine ⟨found.2.2, ?_⟩
  rintro v rfl n hn
  have hnodes := Argument.readAll_holds (Argument.reads_node _) has
  exact Declaration.value_node (fun e he => he.operands)
    (fun role e _ he => Declaration.expr?_holds hnodes he) hvalue hn

end DataBinding
