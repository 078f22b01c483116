import DataBinding.Proofs.Binding.Nodes
import DataBinding.Proofs.Grammar.Keys
import DataBinding.Proofs.Observation.Sources
import DataBinding.Proofs.Scope.Acceptance

/-!
# Types of nodes

Nodes in the values of a scope that have the same key count as the same expression. They have the same type
if this is so of the entries, from which all other expressions start: the root variable, which has the type
that a declaration gives its source, and the resources, which have the types that they are used with. Names
have to be told apart, and what declarations put around their expressions has to have the type that it would
have where it is written.
-/
namespace DataBinding
open Text

/-! ## Entries -/

namespace Expr

/-- Is this a variable, or a field of the root of the markup? -/
def isEntry (n : Expr) : Bool :=
  match n.form, n.operands with
  | .var _, _ => true
  | .member _ _ _, [owner] => owner.form.isVar "_targetRoot"
  | _, _ => false

/-- Has the node the type that it would have where it is written, as far as this is not checked? -/
def isRegular (r : Registry) (n : Expr) : Bool :=
  match n.form, n.operands with
  | .call m _, target :: args => (r.called? target.type m.name (args.map (·.type))).any (·.type == m.type)
  | .coalesce, [left, right] => coalescedType r left.type right.type == n.type
  | .cast, _ => n.type.isLegible
  | .typeOf t, _ => t.isLegible
  | _, _ => true

theorem key_of_var {n : Expr} {x : String} (h : n.form = .var x) : n.key = x := by
  obtain ⟨form, type, operands⟩ := n
  obtain rfl : form = .var x := h
  rfl

end Expr

theorem Registry.called?_name {r : Registry} {t : TypeRef} {name : String} {args : List TypeRef} {m : Member}
    (h : r.called? t name args = some m) : m.name = name := by
  have hmem : m ∈ r.methods t name := by
    rcases Option.or_eq_some_iff.mp h with h | ⟨-, h⟩
    · exact List.mem_of_find?_eq_some h
    · exact List.mem_of_head? h
  obtain ⟨d, -, hd⟩ := List.mem_flatMap.mp hmem
  exact (mem_ownMethods hd).1

/-! ## Rules for the nodes of values -/

namespace Context

variable (c : Context)

/-- What words mean where the root variable has the type. -/
def vocabulary (type : TypeRef) : Grammar.Vocabulary where
  registry := c.registry
  root := c.rootName
  type

/-- The words can be told apart from each other and from the root of the markup. -/
structure Unambiguous : Prop where
  words : (c.vocabulary c.sourceType).Unambiguous
  targetRoot : ∀ name ∈ c.rootName :: (c.vocabulary c.sourceType).typeNames, ¬ Extends name "_targetRoot"

/-- The fields of the root of the markup that occur among the nodes. -/
def IsField (ns : List Expr) (m : Member) : Prop :=
  ∃ resource : Resource, IsWord resource.name ∧
    m = { name := resource.name, kind := .field, declaringType := c.targetType, type := resource.type } ∧
    .member (.var "_targetRoot" c.targetType) m none false ∈ ns

/-- Expressions over the root variable of the type and over the resources that occur among the nodes. -/
def rules (type : TypeRef) (ns : List Expr) : Rules :=
  (c.vocabulary type).rules.withVariable "_targetRoot" c.targetType (c.IsField ns)

variable {c} {type : TypeRef} {ns : List Expr}

theorem Unambiguous.words_of_type (h : c.Unambiguous) (type : TypeRef) : (c.vocabulary type).Unambiguous :=
  ⟨h.words.path, h.words.literal, h.words.root, h.words.static, h.words.layered⟩

theorem Unambiguous.apart (h : c.Unambiguous) :
    ∀ e, (c.vocabulary type).rules.leaf e → ¬ Extends e.key "_targetRoot" := by
  have hhead (text : String) {d : Char} (hd : text.toList.head? = some d) (hne : d ≠ '_') :
      ¬ Extends text "_targetRoot" := by
    intro hext
    obtain ⟨rest, hrest⟩ := hext.prefix
    rw [← hrest] at hd
    exact hne (Option.some.inj hd).symm
  intro e he
  cases he with
  | null => exact hhead "null" rfl (by decide)
  | bool value =>
    cases value
    · exact hhead "false" rfl (by decide)
    · exact hhead "true" rfl (by decide)
  | number htext =>
    obtain ⟨d, hd, hdigit⟩ := htext.head
    refine hhead _ hd ?_
    rintro rfl
    cases hdigit
  | @negative text htext => exact hhead ("-" ++ text) (d := '-') (by simp) (by decide)
  | root => exact h.targetRoot _ List.mem_cons_self
  | type hname => exact h.targetRoot _ (List.mem_cons_of_mem _ hname)

theorem separated_rules (h : c.Unambiguous)
    (hentries : ∀ n ∈ ns, ∀ n' ∈ ns, n.isEntry → n'.isEntry → n.key = n'.key → n.type = n'.type) :
    (c.rules type ns).Separated := by
  refine Rules.separated_withVariable (Grammar.Vocabulary.separated_rules (h.words_of_type type))
    ⟨by decide, by decide⟩ h.apart ?_ ?_
  · rintro m ⟨resource, hword, rfl, -⟩
    exact hword
  · rintro m m' ⟨resource, -, rfl, hmem⟩ ⟨resource', -, rfl, hmem'⟩ hname
    obtain ⟨name, type⟩ := resource
    obtain ⟨name', type'⟩ := resource'
    obtain rfl : name = name' := hname
    obtain rfl : type = type' := hentries _ hmem _ hmem' rfl rfl rfl
    rfl

end Context

/-! ## Nodes of values are well-formed -/

variable {c : Context} {type : TypeRef} {ns : List Expr}

theorem Argument.Setting.Node.formed (hc : c.Unambiguous)
    (hroot : ∀ n ∈ ns, n.form = .var c.rootName → n.type = type) {site : Site} {source : TypeRef} {n : Expr}
    (h : Node ⟨c, site, source⟩ n) (hn : n.nodes ⊆ ns) : n.Formed (c.rules type ns) := by
  cases h with
  | read h =>
    have hcovers : Grammar.Covers (c.vocabulary source).rules (grammar ⟨c, site, source⟩) :=
      Grammar.Vocabulary.covers_rules (hc.words_of_type source) rfl (Or.inl rfl)
    have hregistry : (c.vocabulary source).rules.registry = (c.vocabulary type).rules.registry := rfl
    have hformed : n.Formed (c.vocabulary type).rules := by
      refine (h.formed hcovers).transfer hregistry fun o ho => ⟨fun hleaf => ?_, fun m _ hm => hm⟩
      cases hleaf with
      | root =>
        obtain rfl : source = type := hroot _ (hn ho) rfl
        exact .root
      | null => exact .null
      | bool value => exact .bool value
      | number htext => exact .number htext
      | negative htext => exact .negative htext
      | type hname => exact .type hname
    have hregistry : (c.vocabulary type).rules.registry = (c.rules type ns).registry := rfl
    exact hformed.transfer hregistry fun o _ => Rules.transfers_withVariable hc.apart o
  | targetRoot => exact .leaf (Or.inr rfl)
  | resource t hword =>
    exact .member none false (.leaf (Or.inr rfl))
      (Or.inr ⟨rfl, ⟨_, t⟩, hword, rfl, hn (Expr.self_mem_nodes _)⟩)

/-- A well-formed expression of the same type is written like the expression. -/
def Expr.Stands (ρ : Rules) (n : Expr) : Prop := ∃ n' : Expr, n'.Formed ρ ∧ n'.key = n.key ∧ n'.type = n.type

theorem Expr.exists_stands {ρ : Rules} {args : List Expr} (h : ∀ a ∈ args, a.Stands ρ) :
    ∃ args' : List Expr, (∀ a ∈ args', a.Formed ρ) ∧ args'.map key = args.map key ∧
      args'.map (·.type) = args.map (·.type) := by
  induction args with
  | nil => exact ⟨[], by simp, rfl, rfl⟩
  | cons a args ih =>
    obtain ⟨⟨a', ha', hkey, htype⟩, hargs⟩ := List.forall_mem_cons.mp h
    obtain ⟨args', hargs', hkeys, htypes⟩ := ih hargs
    exact ⟨a' :: args', List.forall_mem_cons.mpr ⟨ha', hargs'⟩, by simp [hkey, hkeys], by simp [htype, htypes]⟩

namespace Declaration

section Stands

variable (hc : c.Unambiguous) (hroot : ∀ n ∈ ns, n.form = .var c.rootName → n.type = type)
  (hregular : ∀ n ∈ ns, n.isRegular c.registry)
include hc hroot hregular

theorem Composed.stands {site : Site} {source : TypeRef} {e : Expr}
    (h : Composed c site (Argument.Setting.Node ⟨c, site, source⟩) e) (hn : e.nodes ⊆ ns) :
    e.Stands (c.rules type ns) := by
  have hoperand {e o : Expr} (ho : o ∈ e.operands) (hn : e.nodes ⊆ ns) : o.nodes ⊆ ns :=
    fun n hno => hn (Expr.mem_nodes.mpr (Or.inr ⟨o, ho, hno⟩))
  induction h with
  | @given e h => exact ⟨e, h.formed hc hroot hn, rfl, rfl⟩
  | null => exact ⟨.null, .leaf (Or.inl .null), rfl, rfl⟩
  | targetType =>
    have hlegible : site.memberType.isLegible = true := hregular _ (hn (Expr.self_mem_nodes _))
    exact ⟨.typeOf (.named site.memberType.name), .typeOf (Bool.and_eq_true_iff.mp hlegible).1, rfl, rfl⟩
  | @convert converter m args hconverter hm hargs ihargs =>
    have htarget := hconverter.formed hc hroot (hoperand List.mem_cons_self hn)
    obtain ⟨args', hformed, hkeys, htypes⟩ :=
      Expr.exists_stands fun a ha => ihargs a ha (hoperand (List.mem_cons_of_mem _ ha) hn)
    -- the method that is meant may be another one of the same type
    have hcalled := hregular _ (hn (Expr.self_mem_nodes _))
    obtain ⟨m', hm', htype⟩ := (Option.any_eq_true _ _).mp hcalled
    have hname : m'.name = m.name := Registry.called?_name hm'
    have hmname : m.name = "Convert" := by
      obtain ⟨d, -, hd⟩ := List.mem_flatMap.mp (List.mem_of_head? hm)
      exact (Registry.mem_ownMethods hd).1
    refine ⟨.call converter m' args' false, .call false htarget hformed ?_ ?_, ?_, ?_⟩
    · rw [hname, hmname]
      exact ⟨by decide, by decide⟩
    · rw [hname, htypes]
      exact hm'
    · simp [Expr.call, Expr.key_eq, Form.key, hkeys, hname]
    · exact eq_of_beq htype
  | @cast e he ih =>
    obtain ⟨e', hformed, hkey, -⟩ := ih (hoperand (List.mem_singleton_self _) hn)
    have hlegible : site.memberType.isLegible = true := hregular _ (hn (Expr.self_mem_nodes _))
    exact ⟨.cast e' site.memberType, .cast hformed hlegible, by simp [Expr.cast, Expr.key_eq, hkey], rfl⟩
  | @coalesce e value he hvalue ih =>
    obtain ⟨e', hformed, hkey, htype⟩ := ih (hoperand List.mem_cons_self hn)
    have hright := hvalue.formed hc hroot (hoperand (List.mem_cons_of_mem _ (List.mem_singleton_self _)) hn)
    have hresult : coalescedType c.registry e.type value.type = e.type.withNullable false :=
      eq_of_beq (hregular _ (hn (Expr.self_mem_nodes _)))
    refine ⟨.coalesce e' value (e.type.withNullable false), .coalesce hformed hright ?_, ?_, rfl⟩
    · rw [htype]
      exact hresult
    · simp [Expr.coalesce, Expr.key_eq, hkey]

/-- Only a text with braces does not stand for a well-formed expression. -/
theorem Node.stands {site : Site} {source : TypeRef} {n : Expr}
    (h : Node c site (Argument.Setting.Node ⟨c, site, source⟩) n) (hn : n.nodes ⊆ ns) :
    n.Stands (c.rules type ns) ∨ ∃ template e, n = .interpolated template [e] := by
  have hoperand {o : Expr} (ho : o ∈ n.operands) : o.nodes ⊆ ns :=
    fun m hmo => hn (Expr.mem_nodes.mpr (Or.inr ⟨o, ho, hmo⟩))
  cases h with
  | composed h => exact Or.inl (h.stands hc hroot hregular hn)
  | @fallback e value number he hvalue =>
    obtain ⟨e', hformed, hkey, htype⟩ := he.stands hc hroot hregular (hoperand List.mem_cons_self)
    have hright := hvalue.formed hc hroot (hoperand (List.mem_cons_of_mem _ (List.mem_singleton_self _)))
    exact Or.inl ⟨.fallback e' value number, .fallback number hformed hright,
      by simp [Expr.fallback, Expr.key_eq, hkey, htype], htype⟩
  | interpolated template e => exact Or.inr ⟨template, e, rfl⟩

end Stands

end Declaration

/-- No well-formed expression is written like a text with braces. -/
theorem Expr.Formed.key_ne_interpolated {ρ : Rules} (hρ : ρ.Separated) {e : Expr} (h : e.Formed ρ) (template : String)
    (args : List Expr) : e.key ≠ (interpolated template args).key := by
  intro hkey
  have hdollar : (Piece.writeAll e.pieces).head? = some '$' := by
    rw [← h.toList_key hρ, hkey]
    simp [interpolated, Expr.key_eq, Form.key]
  have hfirst {p : Piece} {ps : List Piece} (hpieces : e.pieces = p :: ps) : p.first = '$' := by
    obtain ⟨cs, hcs⟩ := p.write_eq
    rw [hpieces, Piece.writeAll, hcs] at hdollar
    exact Option.some.inj hdollar
  have hopens := (h.tidy hρ).opens
  generalize e.pieces = pieces at hopens hfirst
  cases hopens with
  | @name c _ hc =>
    obtain rfl : c = '$' := hfirst rfl
    revert hc
    decide
  | _ => cases hfirst rfl

/-! ## Scopes -/

namespace Scope

def nodes (s : Scope) : List Expr := s.bindings.flatMap fun b => b.value.toList.flatMap Expr.nodes

variable {r : Registry} {dataType targetType : String} {options : Options} {sites : List Site} {s : Scope}

theorem mem_nodes {n : Expr} : n ∈ s.nodes ↔ ∃ b ∈ s.bindings, ∃ v, b.value = some v ∧ n ∈ v.nodes := by
  simp [nodes]

theorem nodes_subset {n : Expr} (hn : n ∈ s.nodes) : n.nodes ⊆ s.nodes := by
  obtain ⟨b, hb, v, hv, hnv⟩ := mem_nodes.mp hn
  exact fun o ho => mem_nodes.mpr ⟨b, hb, v, hv, Expr.mem_nodes_trans ho hnv⟩

theorem owner_mem_nodes {o : Observation} (ho : o ∈ Observation.all s.registry s.dependencyType s.bindings) :
    o.owner ∈ s.nodes := by
  obtain ⟨b, e, hb, -, hvalue, hmem, hnode⟩ := Observation.mem_all_iff.mp ho
  obtain ⟨-, -, ⟨marker, haccess⟩, -⟩ := Observation.ofNode?_eq_some_iff.mp hnode
  exact mem_nodes.mpr ⟨b, List.mem_of_getElem? hb, e, hvalue,
    Expr.mem_nodes_trans (Expr.owner_mem_nodes haccess) hmem⟩

/-- A key has one type in a scope, if it is so of the root variable and of the resources. So the accesses that
are gathered into a source are accesses to one type, that of the owner of the source. -/
theorem types_eq_of_entries (hs : ofSites r dataType targetType options sites = .ok s)
    (hnames : (Grammar.Vocabulary.ofRoot r dataType options.dataRoot false).Unambiguous)
    (htarget : ∀ name ∈ options.dataRoot :: (Grammar.Vocabulary.ofRoot r dataType options.dataRoot false).typeNames,
      ¬ Extends name "_targetRoot")
    (hregular : ∀ n ∈ s.nodes, n.isRegular r)
    (hentries : ∀ n ∈ s.nodes, ∀ n' ∈ s.nodes, n.isEntry → n'.isEntry → n.key = n'.key → n.type = n'.type) :
    (∀ n ∈ s.nodes, ∀ n' ∈ s.nodes, n.key = n'.key → n.type = n'.type) ∧
    ∀ g ∈ Source.ofBindings s.registry s.dependencyType s.bindings,
      ∀ o ∈ Observation.all s.registry s.dependencyType s.bindings,
        o.owner.key = g.owner.key → o.owner.type = g.owner.type := by
  obtain ⟨rfl, hrootName⟩ := ofSites_context hs
  rw [← hrootName] at hnames htarget
  have hc : s.context.Unambiguous :=
    ⟨⟨hnames.path, hnames.literal, hnames.root, hnames.static, hnames.layered⟩, htarget⟩
  obtain ⟨type, hroot⟩ : ∃ type, ∀ n ∈ s.nodes, n.form = .var s.context.rootName → n.type = type := by
    by_cases h : ∃ n ∈ s.nodes, n.form = .var s.context.rootName
    · obtain ⟨n, hn, hform⟩ := h
      refine ⟨n.type, fun n' hn' hform' => hentries n' hn' n hn ?_ ?_ ?_⟩
      · simp [Expr.isEntry, hform']
      · simp [Expr.isEntry, hform]
      · rw [Expr.key_of_var hform, Expr.key_of_var hform']
    · exact ⟨s.dataType, fun n hn hform => absurd ⟨n, hn, hform⟩ h⟩
  have hseparated : (s.context.rules type s.nodes).Separated := Context.separated_rules hc hentries
  have hstands : ∀ n ∈ s.nodes, n.Stands (s.context.rules type s.nodes) ∨
      ∃ template e, n = .interpolated template [e] := by
    intro n hn
    obtain ⟨b, hb, v, hv, hnv⟩ := mem_nodes.mp hn
    obtain ⟨site, number, next, hsite⟩ := ofSites_bound hs b hb
    obtain ⟨source, hnodes⟩ := Binding.ofSite_node hsite
    exact (hnodes v hv n hnv).stands hc hroot hregular (nodes_subset hn)
  have htypes : ∀ n ∈ s.nodes, ∀ n' ∈ s.nodes, n.key = n'.key → n.type = n'.type := by
    intro n hn n' hn' hkey
    rcases hstands n hn with ⟨m, hm, hmkey, hmtype⟩ | ⟨template, e, rfl⟩ <;>
      rcases hstands n' hn' with ⟨m', hm', hmkey', hmtype'⟩ | ⟨template', e', rfl⟩
    · have hkeys : m.key = m'.key := by rw [hmkey, hkey, hmkey']
      rw [← hmtype, ← hmtype']
      exact Expr.type_eq_of_unmarked (Expr.unmarked_eq_of_key hseparated hm hm' hkeys)
    · exact absurd (hmkey.trans hkey) (hm.key_ne_interpolated hseparated template' [e'])
    · exact absurd (hmkey'.trans hkey.symm) (hm'.key_ne_interpolated hseparated template [e])
    · rfl
  refine ⟨htypes, fun g hg o ho hkey => ?_⟩
  obtain ⟨o', ho', howner⟩ := Source.exists_owner hg
  rw [howner] at hkey ⊢
  exact htypes _ (owner_mem_nodes ho) _ (owner_mem_nodes ho') hkey

def converterRegistry : Registry where
  types := Registry.systemTypes ++ [NodePage.node, NodePage.page, {
    name := "Converter"
    methods := [{
      name := "Convert", returns := .named WellKnown.object
      parameters := [
        { name := "value", type := .named WellKnown.object }, { name := "type", type := .named WellKnown.type },
        { name := "parameter", type := .named WellKnown.object }, { name := "culture", type := .string }] }] }]

def converterPage : Except ScopeFault Scope :=
  ofSites converterRegistry "Page" "Page" { converterType := some "Converter" }
    (["Top.Next, Converter=\x7bStaticResource shorten\x7d, FallbackValue=\x7bStaticResource missing\x7d",
      "Top.Next.Text, TargetNullValue='none'", "Top.Next.Text ?? 'none', StringFormat='<\x7b0\x7d>'"].map NodePage.site)

/-- A replacement for null that a declaration gives has the key of one that is written, and the same type. -/
theorem converterPage_types : ∃ s, converterPage = .ok s ∧ s.bindings.map (fun b => b.value.map Expr.key) =
      [some ("fallback0(((System.String)_targetRoot.shorten.Convert(dataRoot.Top.Next, " ++
        "typeof(System.String), null, null)), _targetRoot.missing)"),
      some "(dataRoot.Top.Next.Text ?? \"none\")", some "$\"<\x7b(dataRoot.Top.Next.Text ?? \"none\")\x7d>\""] ∧
    (∀ n ∈ s.nodes, ∀ n' ∈ s.nodes, n.key = n'.key → n.type = n'.type) ∧
    ∀ g ∈ Source.ofBindings s.registry s.dependencyType s.bindings,
      ∀ o ∈ Observation.all s.registry s.dependencyType s.bindings,
        o.owner.key = g.owner.key → o.owner.type = g.owner.type := by
  have hnames : (Grammar.Vocabulary.ofRoot converterRegistry "Page" "dataRoot" false).Unambiguous :=
    ⟨by decide +kernel, by decide +kernel, by decide +kernel, by decide +kernel,
      ⟨by decide +kernel, by decide +kernel⟩⟩
  obtain ⟨s, hs, hpage⟩ := exists_ok (x := converterPage)
    (P := fun s => s.bindings.map (fun b => b.value.map Expr.key) ==
        [some ("fallback0(((System.String)_targetRoot.shorten.Convert(dataRoot.Top.Next, " ++
          "typeof(System.String), null, null)), _targetRoot.missing)"),
        some "(dataRoot.Top.Next.Text ?? \"none\")", some "$\"<\x7b(dataRoot.Top.Next.Text ?? \"none\")\x7d>\""] &&
      s.nodes.all (·.isRegular converterRegistry) &&
      s.nodes.all fun n => s.nodes.all fun n' =>
        !(n.isEntry && n'.isEntry && n.key == n'.key) || n.type == n'.type) (by decide +kernel)
  simp only [Bool.and_eq_true, beq_iff_eq, List.all_eq_true, Bool.or_eq_true, Bool.not_eq_true',
    Bool.and_eq_false_iff, beq_eq_false_iff_ne] at hpage
  obtain ⟨⟨hvalues, hregular⟩, hentries⟩ := hpage
  refine ⟨s, hs, hvalues, types_eq_of_entries hs hnames (by decide +kernel) hregular ?_⟩
  intro n hn n' hn' hentry hentry' hkey
  rcases hentries n hn n' hn' with ((h | h) | h) | h
  · simp [hentry] at h
  · simp [hentry'] at h
  · exact absurd hkey h
  · exact h

/-- A type that tells of changes of its title. -/
def titled (name : String) (title : TypeRef) : TypeDef where
  name
  interfaces := [.named WellKnown.notifyPropertyChanged]
  properties := [{ name := "Title", type := title }]

/-- Labels for titles of different types, which start from different types too. -/
def anchorPage : Except ScopeFault Scope :=
  ofSites ⟨Registry.systemTypes ++ [titled "A" .string, titled "B" (.named WellKnown.int32)]⟩ "A" "A" {}
    (["Title, DataType=A", "Title, DataType=B"].map NodePage.site)

/-- The paths of the two declarations have the same key, and what they access is gathered into one source, which
has the type that comes first. -/
theorem anchors_types_ne : ∃ s, anchorPage = .ok s ∧
    (s.nodes.map fun n => (n.key, n.type.name)) =
      [("dataRoot.Title", "System.String"), ("dataRoot", "A"), ("dataRoot.Title", "System.Int32"), ("dataRoot", "B")] ∧
    ((Source.ofBindings s.registry s.dependencyType s.bindings).map fun g => (g.owner.key, g.owner.type.name)) =
      [("dataRoot", "A")] ∧
    ((Observation.all s.registry s.dependencyType s.bindings).map fun o => (o.owner.key, o.owner.type.name)) =
      [("dataRoot", "A"), ("dataRoot", "B")] := by
  apply exists_ok_of_decide
  decide +kernel

end Scope

end DataBinding
