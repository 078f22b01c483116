import DataBinding.Proofs.Binding.Nodes
import DataBinding.Proofs.Scope.Faithfulness

/-!
# Names in methods

The names of parameters and local variables are generated without regard to the names in the values. A node of
a value can be written as one of them only if the data root or a registered type is called so.
-/
namespace DataBinding
open Text

/-! ## Nodes that are written as names -/

/-- Nothing but constants, variables and types is written without brackets, quotes and points. -/
theorem Expr.leaf_of_key {n : Expr} (h : ∀ c ∈ n.key.toList, isNameChar c = true) :
    (∃ value, n.form = .constant value) ∨ (∃ x, n.form = .var x) ∨ n.form = .typeRef := by
  obtain ⟨form, type, operands⟩ := n
  rw [key_eq] at h
  have hmark (c : Char) (hc : isNameChar c = false) : c ∉ (form.key type (operands.map key)).toList := by
    intro hmem
    simp [h c hmem] at hc
  cases form with
  | constant value => exact Or.inl ⟨value, rfl⟩
  | var x => exact Or.inr (Or.inl ⟨x, rfl⟩)
  | typeRef => exact Or.inr (Or.inr rfl)
  | member m marker nullSafe => exact absurd (by cases nullSafe <;> simp [Form.key]) (hmark '.' (by decide))
  | element m marker => exact absurd (by simp [Form.key]) (hmark '[' (by decide))
  | interpolated template => exact absurd (by simp [Form.key]) (hmark '"' (by decide))
  | unary op => exact absurd (by cases op <;> simp [Form.key]) (hmark '(' (by decide))
  | _ => exact absurd (by simp [Form.key]) (hmark '(' (by decide))

variable {s : Argument.Setting} {n : Expr}

theorem not_has_abbreviation : ∀ name ∈ WellKnown.abbreviations.map (·.2), methodNames.has name = false := by
  decide

theorem isPath_of_has {x : String} (h : methodNames.has x) : IsPath x := by
  obtain ⟨tail, htail, hchars⟩ := methodNames.spelled x h
  constructor
  · exact ⟨'v', by simp [htail], by decide, by decide⟩
  · exact fun c hc => Or.inl (methodNames.isNameChar_of_has h c hc)

theorem Grammar.Setting.exists_ref_of_names {s : Setting} {t : TypeRef} (h : s.Names t)
    (hname : methodNames.has t.name) : ∃ d ∈ s.registry.types, d.ref.name = t.name := by
  rcases h with (⟨d, hd, rfl⟩ | ⟨name, hmem, rfl⟩) | ⟨expected, -, henum, rfl⟩
  · exact ⟨d, hd, rfl⟩
  · have hnot : methodNames.has name = false := not_has_abbreviation name hmem
    exact absurd hname (by simp [TypeRef.named, hnot])
  · obtain ⟨d, hd, -⟩ := (Option.any_eq_true _ _).mp henum
    obtain ⟨hd, hdname⟩ := Registry.typeDef?_eq_some hd
    have hpath : IsPath d.name := hdname ▸ isPath_of_has hname
    exact ⟨d, hd, (congrArg TypeRef.name hpath.parse_eq).trans hdname⟩

/-- Of what is read, only the root and types are written as generated names. -/
theorem Grammar.Reading.captured {s : Setting} {type : TypeRef} {name : String}
    (hroot : s.root = rootExpr type name false) (h : Reading s n) (hname : methodNames.has n.key) :
    n.key = name ∨ ∃ d ∈ s.registry.types, d.ref.name = n.key := by
  have hhead : n.key.toList.head? = some 'v' := by
    by_contra hne
    simp [NameKind.not_has_of_head hne] at hname
  have hleaf := Expr.leaf_of_key (methodNames.isNameChar_of_has hname)
  cases h with
  | root =>
    rw [hroot]
    exact Or.inl rfl
  | null => cases hhead
  | bool value => cases value <;> cases hhead
  | @number text htext =>
    obtain ⟨c, hc, hdigit⟩ := htext.head
    obtain rfl : c = 'v' := Option.some.inj (hc.symm.trans hhead)
    cases hdigit
  | @negative text htext =>
    change ("-" ++ text).toList.head? = _ at hhead
    simp at hhead
  | text value =>
    change (quoted value).toList.head? = _ at hhead
    simp [quoted] at hhead
  | type ht => exact Or.inr (Setting.exists_ref_of_names ht hname)
  | _ => rcases hleaf with ⟨_, hform⟩ | ⟨_, hform⟩ | hform <;> cases hform

theorem Argument.Setting.Node.captured (h : s.Node n) (hname : methodNames.has n.key) :
    n.key = s.context.rootName ∨ ∃ d ∈ s.context.registry.types, d.ref.name = n.key := by
  cases h with
  | read h => exact h.captured (s := s.grammar) rfl hname
  | targetRoot => exact absurd (show methodNames.has "_targetRoot" = true from hname) (by decide)
  | resource type h =>
    rcases Expr.leaf_of_key (methodNames.isNameChar_of_has hname) with ⟨_, hform⟩ | ⟨_, hform⟩ | hform <;>
      cases hform

/-- Nothing that a declaration puts around its expressions is written as a generated name. -/
theorem Declaration.Node.captured {site : Site} (h : Node s.context site s.Node n) (hname : methodNames.has n.key) :
    n.key = s.context.rootName ∨ ∃ d ∈ s.context.registry.types, d.ref.name = n.key := by
  have hleaf := Expr.leaf_of_key (methodNames.isNameChar_of_has hname)
  cases h with
  | composed h =>
    cases h with
    | given h => exact h.captured hname
    | null => cases hname
    | _ => rcases hleaf with ⟨_, hform⟩ | ⟨_, hform⟩ | hform <;> cases hform
  | _ => rcases hleaf with ⟨_, hform⟩ | ⟨_, hform⟩ | hform <;> cases hform

/-! ## Names of a method -/

theorem Sharing.has_local (es : List Expr) : ∀ l ∈ (ofExprs es).locals, methodNames.has l.name := by
  refine hoistAll_induction (P := fun s => ∀ l ∈ s.locals, methodNames.has l.name) ?_ _ (by simp)
  intro s o h ho l hl
  rcases mem_locals_hoist.mp hl with rfl | ⟨l', hl', rfl⟩
  · exact has_localName (Nat.zero_le 1) _
  · exact h l' hl'

namespace UpdateMethod

def names (m : UpdateMethod) : List String := m.parameter.toList.map Expr.key ++ m.locals.map (·.name)

theorem has_names {bs : List Binding} {replaced : Option Expr} {selection : Selection} :
    ∀ x ∈ (ofSelection bs replaced selection).names, methodNames.has x := by
  intro x hx
  rcases List.mem_append.mp hx with hx | hx
  · cases replaced with
    | none => cases hx
    | some old =>
      obtain rfl : x = "value" := List.mem_singleton.mp hx
      exact has_parameter
  · obtain ⟨l, hl, rfl⟩ := List.mem_map.mp hx
    exact Sharing.has_local _ l hl

end UpdateMethod

namespace Scope

variable {r : Registry} {dataType targetType : String} {options : Options} {sites : List Site} {s : Scope}

/-- No name is captured: what is written as a parameter or a local variable of a method does not occur in the
values, unless the data root or a registered type has the name. -/
theorem compile_uncaptured (hs : ofSites r dataType targetType options sites = .ok s) {z : MethodRef}
    {m : UpdateMethod} (hm : s.compile.method? z = some m) {x : String} (hx : x ∈ m.names)
    (hroot : options.dataRoot ≠ x) (htypes : ∀ d ∈ r.types, d.ref.name ≠ x) {b : Binding} (hb : b ∈ s.bindings) {v n : Expr}
    (hv : b.value = some v) (hn : n ∈ v.nodes) : n.key ≠ x := by
  have hover : s.compile.Over s.registry
      (Source.network s.registry s.dependencyType s.compile.bindings) :=
    Compiled.ofBindings_over (ofSites_wellFormed hs)
  obtain ⟨f, hf⟩ := hover.exists_task (hm ▸ rfl : (s.compile.method? z).isSome)
  obtain rfl : _ = m := Option.some.inj ((hover.method?_of_task hf).symm.trans hm)
  rintro rfl
  obtain ⟨hregistry, hname⟩ := ofSites_context hs
  obtain ⟨site, number, next, hsite⟩ := ofSites_bound hs b hb
  obtain ⟨type, hnodes⟩ := Binding.ofSite_node hsite
  rcases Declaration.Node.captured (s := ⟨s.context, b.site, type⟩) (hnodes v hv n hn)
    (UpdateMethod.has_names _ hx) with hkey | ⟨d, hd, hkey⟩
  · exact hroot (hname ▸ hkey.symm)
  · exact htypes d (hregistry ▸ hd) hkey

/-- On a page that follows two neighbours of a node, neither the parameter nor the variable of the method for a
new neighbour occurs in the values. -/
theorem neighbour_uncaptured : ∃ s m, NodePage.scope ["Top.Next.Text", "Top.Side.Text"] = .ok s ∧
    s.compile.method? (.property 0 0) = some m ∧ m.names = ["value", "value1"] ∧
    ∀ b ∈ s.bindings, ∀ v, b.value = some v → ∀ n ∈ v.nodes, n.key ≠ "value" ∧ n.key ≠ "value1" := by
  obtain ⟨s, hs, hpage⟩ := NodePage.exists_scope ["Top.Next.Text", "Top.Side.Text"]
    (fun s => (s.compile.method? (.property 0 0)).any (·.names == ["value", "value1"])) (by decide +kernel)
  obtain ⟨m, hm, hnames⟩ := (Option.any_eq_true _ _).mp hpage
  have hnames := eq_of_beq hnames
  have htypes : ∀ d ∈ NodePage.registry.types, d.ref.name ≠ "value" ∧ d.ref.name ≠ "value1" := by decide +kernel
  refine ⟨s, m, hs, hm, hnames, fun b hb v hv n hn => ⟨?_, ?_⟩⟩
  · exact compile_uncaptured hs hm (by simp [hnames]) (by decide) (fun d hd => (htypes d hd).1) hb hv hn
  · exact compile_uncaptured hs hm (by simp [hnames]) (by decide) (fun d hd => (htypes d hd).2) hb hv hn

def nodePair : TypeDef where
  name := "Pair"
  properties := [{ name := "Top", type := .named "Node" }, { name := "Low", type := .named "Node" }]

/-- A label for the texts of two nodes, with a data root that has the name of the parameter. -/
def pairPage : Except ScopeFault Scope :=
  ofSites ⟨Registry.systemTypes ++ [NodePage.node, nodePair]⟩ "Pair" "Pair" { dataRoot := "value" }
    [NodePage.site "Top.Text + Low.Text"]

/-- The method for the text of the lower node receives this node and takes it for the root too. -/
theorem root_captured : ∃ s m, pairPage = .ok s ∧
    s.compile.method? (.property 0 0) = some m ∧ "value" ∈ m.names ∧
    (∃ b ∈ s.bindings, ∃ v, b.value = some v ∧ ∃ n ∈ v.nodes, n.key = "value") ∧
    m.assignments.map (·.expr.key) = ["(value.Top.Text + value.Text)"] := by
  obtain ⟨s, hs, hpage⟩ := exists_ok (x := pairPage)
    (P := fun s => (s.compile.method? (.property 0 0)).any (fun m => m.names.contains "value" &&
        m.assignments.map (·.expr.key) == ["(value.Top.Text + value.Text)"]) &&
      s.bindings.any fun b => b.value.any (·.nodes.any (·.key == "value"))) (by decide +kernel)
  simp only [Bool.and_eq_true, List.any_eq_true, Option.any_eq_true, beq_iff_eq, List.contains_iff_mem] at hpage
  obtain ⟨⟨m, hm, hnames, hassigned⟩, b, hb, v, hv, n, hn, hkey⟩ := hpage
  exact ⟨s, m, hs, hm, hnames, ⟨b, hb, v, hv, n, hn, hkey⟩, hassigned⟩

end Scope

end DataBinding
