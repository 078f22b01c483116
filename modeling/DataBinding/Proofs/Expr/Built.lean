import DataBinding.Proofs.Binding.Value
import DataBinding.Proofs.Expr.Wording
import DataBinding.Proofs.Text.Paths

/-!
# Expressions that are built

Expressions come from reading texts and declarations, and from replacing parts of them. Whichever way they
are built, every node has the operands that its form takes.
-/
namespace DataBinding
open Text

/-! ## Formats -/

namespace Format

theorem suffix_of_afterLast? {pattern cs rest : List Char} (h : afterLast? pattern cs = some rest) :
    pattern ++ rest <:+ cs := by
  induction cs with
  | nil => cases h
  | cons c cs ih =>
    rw [afterLast?, Option.orElse_eq_orElse, Option.orElse_eq_or, Option.or_eq_some_iff] at h
    rcases h with h | ⟨-, h⟩
    · exact (ih h).trans (List.suffix_cons c cs)
    · exact (after?_eq_some h).symm ▸ List.suffix_refl _

/-- Every template has a placeholder that is closed or goes on with a specification. -/
theorem slot_template (format : String) :
    ∃ c ∈ ['\x7d', ':'], ['\x7b', '0', c] <:+: (template format).toList := by
  unfold template
  split
  · rename_i h
    unfold hasPlaceholder at h
    split at h
    · cases h
    · rename_i rest hrest
      split at h
      · cases h
      · rename_i specification back hcut
        have hlast := (suffix_of_afterLast? hrest).isInfix
        rw [cutAt?_eq_some hcut] at hlast
        cases specification with
        | nil => exact ⟨'\x7d', by simp, List.IsInfix.trans ⟨[], back, rfl⟩ hlast⟩
        | cons c specification =>
          obtain rfl : c = ':' := by simpa using h
          exact ⟨':', by simp, List.IsInfix.trans ⟨[], specification ++ '\x7d' :: back, rfl⟩ hlast⟩
  · exact ⟨':', by simp, [], format.toList ++ ['\x7d'], by simp⟩

theorem placeholder_template (format : String) : ['\x7b', '0'] <:+: (template format).toList := by
  obtain ⟨c, -, hslot⟩ := slot_template format
  exact List.IsInfix.trans ⟨[], [c], rfl⟩ hslot

end Format

/-! ## Shapes -/

namespace Expr

theorem Plain.written {e : Expr} (h : e.Plain) : e.Written := by
  induction h with
  | @node form type operands takes _ ih =>
    refine .node ?_ ih
    cases form with
    | interpolated => exact takes.elim
    | _ => exact takes

end Expr

theorem Declaration.formatted_written {as : List Argument} {e : Expr} (h : e.Plain) :
    (formatted as e).Written := by
  unfold formatted
  split
  · exact h.written
  · rename_i format _
    refine .node ⟨rfl, Format.placeholder_template format⟩ ?_
    simpa using h.written

def Binding.exprs (b : Binding) : List Expr :=
  [b.path, b.bindBack, b.converter, b.converterParameter, b.fallback, b.targetNull, b.value].filterMap id

theorem Declaration.binding_written {c : Context} {site : Site} {number next : Nat} {text : List Char}
    {b : Binding} (h : (binding c site text).run.run number = (.ok b, next)) : ∀ e ∈ b.exprs, e.Written := by
  obtain ⟨-, found, as, mode, value, -, has, -, -, -, hvalue, rfl⟩ := binding_eq_ok.mp h
  have hplain := Argument.readAll_holds (Argument.reads_plain _) has
  have hexpr : ∀ role e, expr? role as = some e → e.Written := fun role e he =>
    (expr?_holds hplain he).written
  intro e he
  obtain ⟨held, hheld, hsome⟩ := List.mem_filterMap.mp he
  obtain rfl : held = some e := hsome
  simp only [List.mem_cons, List.not_mem_nil, or_false] at hheld
  rcases hheld with h | h | h | h | h | h | rfl
  iterate 6 exact hexpr _ e h.symm
  obtain ⟨e', he', rfl⟩ := value_plain hplain hvalue
  exact formatted_written he'

namespace Expr

/-- An expression that is read from a text or a declaration, or made of such expressions. -/
inductive Built : Expr → Prop where
  | parsed {s : Grammar.Setting} {type : TypeRef} {name text : String} {isStatic whole : Bool}
      {p : Grammar.Parsed} (hroot : s.root = Grammar.rootExpr type name isStatic)
      (h : Grammar.parseText s text whole = .ok p) : Built p.expr
  | bound {c : Context} {site : Site} {number next : Nat} {b : Binding} {e : Expr}
      (h : Binding.ofSite c site number = .ok (b, next)) (he : e ∈ b.exprs) : Built e
  | var (name : String) (type : TypeRef) : Built (.var name type)
  | part {e n : Expr} (h : Built e) (hn : n ∈ e.nodes) : Built n
  | replaced {e new : Expr} (old : Expr) (h : Built e) (hnew : Built new) : Built (replace old new e)

theorem Built.written {e : Expr} (h : e.Built) : e.Written := by
  induction h with
  | @parsed s type name text isStatic whole p hroot h =>
    exact (Grammar.parseBytes_plain hroot (mapError_eq_ok h)).written
  | bound h he => exact Declaration.binding_written (Binding.ofSite_eq_ok.mp h) _ he
  | var name type => exact .var name type
  | part _ hn ih => exact ih.of_mem_nodes hn
  | replaced old _ _ ih ihnew => exact ih.replaceKey ihnew

end Expr

end DataBinding
