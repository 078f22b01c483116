import DataBinding.Proofs.Expr.Templates
import DataBinding.Proofs.Grammar.Plain

/-!
# Formatted values

The keys of expressions that are read are balanced, as far as the names in their scope are. So values that are read
and formatted are written in different ways if their formats or their keys differ, unless a format spells out the key
of the other value in braces.
-/
namespace DataBinding
open Text Nesting

/-! ## Balanced keys -/

namespace Form

/-- The texts that the form brings along are balanced. -/
def IsBalanced (form : Form) (type : TypeRef) : Prop :=
  match form with
  | .constant (.number text) => Balanced text.toList
  | .var name => Balanced name.toList
  | .typeRef | .create => Balanced type.name.toList
  | .cast | .default => Balanced type.display.toList
  | .typeOf operand => Balanced operand.name.toList
  | .member m _ _ | .call m _ => Balanced m.name.toList
  | _ => True

theorem balanced_key {form : Form} {type : TypeRef} {keys : List String} (htakes : form.Takes keys.length)
    (hkeys : ∀ k ∈ keys, Balanced k.toList) (hform : form.IsBalanced type) :
    Balanced (form.key type keys).toList := by
  have hpoint (nullSafe : Bool) : Leads (code 0) (if nullSafe then "?." else ".") (code 0) := by
    cases nullSafe <;> rfl
  have hopen : Leads (code 0) "(" (code 1) := rfl
  have hclose : Leads (code 1) ")" (code 0) := rfl
  cases form with
  | constant value =>
    cases value with
    | null => exact (by decide : Balanced "null".toList)
    | bool value =>
      cases value with
      | false => exact (by decide : Balanced "false".toList)
      | true => exact (by decide : Balanced "true".toList)
    | number text => exact hform
    | string value => exact balanced_quoted value
  | var name => exact hform
  | typeRef => exact hform
  | typeOf operand =>
    have hname := Balanced.leads hform 1
    have htypeof : Leads (code 0) "typeof(" (code 1) := rfl
    exact (htypeof.append hname).append hclose
  | default =>
    have hname := Balanced.leads hform 1
    have hdefault : Leads (code 0) "default(" (code 1) := rfl
    exact (hdefault.append hname).append hclose
  | member m marker nullSafe =>
    obtain ⟨a, rfl⟩ := List.length_eq_one_iff.mp htakes
    have ha := (hkeys a (by simp)).leads 0
    exact (ha.append (hpoint nullSafe)).append (Balanced.leads hform 0)
  | element indexer marker =>
    obtain ⟨a, args, rfl⟩ := List.exists_cons_of_length_pos htakes
    obtain ⟨ha, hargs⟩ := List.forall_mem_cons.mp hkeys
    have hlist := (Balanced.intercalate hargs).leads 1
    have hsquare : Leads (code 0) "[" (code 1) := rfl
    have hsquare' : Leads (code 1) "]" (code 0) := rfl
    exact (((ha.leads 0).append hsquare).append hlist).append hsquare'
  | call m nullSafe =>
    obtain ⟨a, args, rfl⟩ := List.exists_cons_of_length_pos htakes
    obtain ⟨ha, hargs⟩ := List.forall_mem_cons.mp hkeys
    have hname := Balanced.leads hform 0
    have hlist := (Balanced.intercalate hargs).leads 1
    exact (((((ha.leads 0).append (hpoint nullSafe)).append hname).append hopen).append hlist).append hclose
  | cast =>
    obtain ⟨a, rfl⟩ := List.length_eq_one_iff.mp htakes
    have ha := (hkeys a (by simp)).leads 1
    have hname := Balanced.leads hform 2
    have hopens : Leads (code 0) "((" (code 2) := rfl
    have hinner : Leads (code 2) ")" (code 1) := rfl
    exact (((hopens.append hname).append hinner).append ha).append hclose
  | paren =>
    obtain ⟨a, rfl⟩ := List.length_eq_one_iff.mp htakes
    have ha := (hkeys a (by simp)).leads 1
    exact (hopen.append ha).append hclose
  | unary op =>
    obtain ⟨a, rfl⟩ := List.length_eq_one_iff.mp htakes
    have ha := (hkeys a (by simp)).leads 1
    have hnot : Leads (code 0) "(!" (code 1) := rfl
    have hminus : Leads (code 0) "(-" (code 1) := rfl
    cases op with
    | not => exact (hnot.append ha).append hclose
    | negate => exact (hminus.append ha).append hclose
  | binary op =>
    obtain ⟨a, b, rfl⟩ := List.length_eq_two.mp htakes
    have ha := (hkeys a (by simp)).leads 1
    have hb := (hkeys b (by simp)).leads 1
    have hop : Leads (code 1) op.symbol (code 1) := by cases op <;> rfl
    have hblank : Leads (code 1) " " (code 1) := rfl
    exact (((((hopen.append ha).append hblank).append hop).append hblank).append hb).append hclose
  | conditional =>
    obtain ⟨a, b, c, rfl⟩ := List.length_eq_three.mp htakes
    have ha := (hkeys a (by simp)).leads 1
    have hb := (hkeys b (by simp)).leads 1
    have hc := (hkeys c (by simp)).leads 1
    have hquestion : Leads (code 1) " ? " (code 1) := rfl
    have hcolon : Leads (code 1) " : " (code 1) := rfl
    exact (((((hopen.append ha).append hquestion).append hb).append hcolon).append hc).append hclose
  | coalesce =>
    obtain ⟨a, b, rfl⟩ := List.length_eq_two.mp htakes
    have ha := (hkeys a (by simp)).leads 1
    have hb := (hkeys b (by simp)).leads 1
    have hquestions : Leads (code 1) " ?? " (code 1) := rfl
    exact (((hopen.append ha).append hquestions).append hb).append hclose
  | create =>
    have hname := Balanced.leads hform 0
    have hlist := (Balanced.intercalate hkeys).leads 1
    have hnew : Leads (code 0) "new " (code 0) := rfl
    exact (((hnew.append hname).append hopen).append hlist).append hclose
  | interpolated template => exact htakes.elim
  | fallback index =>
    obtain ⟨a, b, rfl⟩ := List.length_eq_two.mp htakes
    have ha := (hkeys a (by simp)).leads 1
    have hb := (hkeys b (by simp)).leads 1
    have hword : Leads (code 0) "fallback" (code 0) := rfl
    have hcomma : Leads (code 1) ", " (code 1) := rfl
    have hindex : Balanced (toString index).toList :=
      .of_forall fun c hc => not_mem_reserved_of_isNameChar (Or.inl (isNameChar_toString index c hc))
    exact (((((hword.append (hindex.leads 0)).append hopen).append ha).append hcomma).append hb).append hclose

end Form

theorem Expr.Plain.balanced_key {e : Expr} (h : e.Plain) (hnodes : ∀ n ∈ e.nodes, n.form.IsBalanced n.type) :
    Balanced e.key.toList := by
  induction h with
  | @node form type operands takes _ ih =>
    rw [key_eq]
    refine Form.balanced_key (by rwa [List.length_map]) ?_ (hnodes _ (self_mem_nodes _))
    simp only [List.forall_mem_map]
    exact fun o ho => ih o ho fun n hn => hnodes n (mem_nodes.mpr (Or.inr ⟨o, ho, hn⟩))

/-! ## Expressions that are read -/

theorem IsWord.balanced {name : String} (h : IsWord name) : Balanced name.toList :=
  .of_forall fun c hc => not_mem_reserved_of_isNameChar (Or.inl (h.chars c hc))

theorem IsNumber.balanced {text : String} (h : IsNumber text) : Balanced text.toList :=
  .of_forall fun c hc => not_mem_reserved_of_isNameChar (h.chars c hc)

namespace TypeRef

/-- Blanks around the name and a sign for null at its end do not count. -/
theorem balanced_parse {text : String} (h : Balanced text.toList) : Balanced (parse text).name.toList := by
  obtain ⟨front, back, htrim, hfront, hback⟩ := Lexer.exists_trim_eq text.toList
  rw [htrim] at h
  have hname : Balanced (trim text.toList) :=
    ((Balanced.of_forall fun c hc => not_mem_reserved_of_isBlank (hfront c hc)).of_append h).of_append_idle
      fun c hc => not_mem_reserved_of_isBlank (hback c hc)
  simp only [parse]
  split
  · rename_i bare hbare
    rw [before?_eq_some hbare] at hname
    rw [String.toList_ofList]
    exact hname.of_append_idle (by decide)
  · rwa [String.toList_ofList]

theorem balanced_display {t : TypeRef} (h : Balanced t.name.toList) : Balanced t.display.toList := by
  unfold display
  split
  · rw [String.toList_append]
    exact h.append (by decide)
  · exact h

end TypeRef

namespace Grammar

structure Setting.Balanced (s : Setting) : Prop where
  rooted : ∃ type name isStatic, s.root = rootExpr type name isStatic
  root : Text.Balanced s.root.key.toList
  types : ∀ d ∈ s.registry.types, Text.Balanced d.name.toList

variable {s : Setting} (hs : s.Balanced)
include hs

theorem Setting.Balanced.denotes {t : TypeRef} (h : s.registry.Denotes t) : Text.Balanced t.name.toList := by
  rcases h with ⟨d, hd, rfl⟩ | ⟨name, hname, rfl⟩
  · exact TypeRef.balanced_parse (hs.types d hd)
  · have hall : ∀ name ∈ WellKnown.abbreviations.map (·.2), Text.Balanced name.toList := by decide
    exact hall name hname

theorem Setting.Balanced.names {t : TypeRef} (h : s.Names t) : Text.Balanced t.name.toList := by
  rcases h with h | ⟨expected, -, henum, rfl⟩
  · exact hs.denotes h
  · obtain ⟨d, hd, -⟩ := (Option.any_eq_true _ _).mp henum
    obtain ⟨hd, hname⟩ := Registry.typeDef?_eq_some hd
    exact hname ▸ hs.types d hd

theorem Reading.isBalanced {e : Expr} (h : Reading s e) : e.form.IsBalanced e.type := by
  obtain ⟨type, name, isStatic, hroot⟩ := hs.rooted
  cases h with
  | root =>
    have hkey := hs.root
    rw [hroot] at hkey ⊢
    cases isStatic <;> exact hkey
  | null | bool _ | text _ | element _ _ _ _ _ _ | paren _ | not _ _ | negate _ _ _ | binary _ _ _
    | conditional _ _ _ _ _ | coalesce _ _ _ => trivial
  | number h => exact h.balanced
  | @negative text h =>
    have hminus : Text.Balanced ("-" ++ text).toList := by
      rw [String.toList_append]
      exact Text.Balanced.append (by decide) h.balanced
    exact hminus
  | type h => exact hs.names h
  | member _ _ _ hname _ _ | static _ hname _ _ | call _ _ _ hname _ _ | staticCall _ _ _ _ hname _ _ =>
    exact hname.toIsWord.balanced
  | cast _ h | default h => exact TypeRef.balanced_display (hs.denotes h)
  | create h _ | typeOf h => exact hs.denotes h

theorem balanced_of_parseText {text : String} {whole : Bool} {p : Parsed} (h : parseText s text whole = .ok p) :
    Text.Balanced p.expr.key.toList := by
  obtain ⟨type, name, isStatic, hroot⟩ := hs.rooted
  have hnumber : startsWithNumber s.root = false := hroot ▸ startsWithNumber_rootExpr type name isStatic
  have hleaf : s.root.operands = [] := hroot ▸ operands_rootExpr type name isStatic
  have hread := parseBytes_reading hnumber (mapError_eq_ok h)
  exact (parseBytes_plain hroot (mapError_eq_ok h)).balanced_key fun n hn => (hread.of_mem_nodes hleaf hn).isBalanced hs

omit hs

/-! ## Formats -/

/-- The format of the first value spells out the key of the second one in braces. -/
def SpellsOut (format : String) (e other : Expr) : Prop :=
  Template.Mimics e.key.toList other.key.toList (Template.escaped (Format.template format))

/-- With one format, values are written in the same way exactly if they have one key. With two formats they are so
exactly if the formats mean the same too, as long as neither format spells out the key of the other value. -/
theorem format_key_eq_iff (format format' : String) :
    (∀ e e' : Expr,
      (Expr.interpolated (Format.template format) [e]).key = (Expr.interpolated (Format.template format) [e']).key ↔
        e.key = e'.key) ∧
    ∀ s s' : Setting, s.Balanced → s'.Balanced → ∀ (text text' : String) (whole whole' : Bool) (p p' : Parsed),
      parseText s text whole = .ok p → parseText s' text' whole' = .ok p' →
      ¬ SpellsOut format p.expr p'.expr → ¬ SpellsOut format' p'.expr p.expr →
        ((Expr.interpolated (Format.template format) [p.expr]).key =
            (Expr.interpolated (Format.template format') [p'.expr]).key ↔
          Format.template format = Format.template format' ∧ p.expr.key = p'.expr.key) := by
  constructor
  · intro e e'
    rw [Expr.interpolated_key_eq_iff]
    constructor
    · intro h
      have hslot := (Template.hasSlot_escaped format).placeholder
      exact String.toList_inj.mp (Template.key_eq_of_fill_eq h hslot)
    · intro h
      rw [h]
  · intro s s' hs hs' text text' whole whole' p p' hp hp' hformat hformat'
    rw [Expr.interpolated_key_eq_iff]
    constructor
    · intro h
      obtain ⟨htemplate, hkey⟩ := Template.eq_and_eq_of_fill_eq (balanced_of_parseText hs hp)
        (balanced_of_parseText hs' hp') h hformat hformat' (Template.guarded_escaped _) (Template.guarded_escaped _)
        (Template.hasSlot_escaped format) (Template.hasSlot_escaped format')
      exact ⟨Template.escaped_injective htemplate, String.toList_inj.mp hkey⟩
    · rintro ⟨htemplate, hkey⟩
      rw [htemplate, hkey]

def notesSetting (root : String) : Setting where
  registry := ⟨Registry.systemTypes ++ [{
    name := "Page"
    fields := [{ name := "Next", type := .named "Page" }, { name := "Title", type := .string },
      { name := "Note", type := .string }] }]⟩
  root := rootExpr (.named "Page") root false
  expected := none
  namespaces := []

/-- The first format goes on behind its placeholder like the key of the other value. -/
theorem format_key_ne_of_page :
    (notesSetting "dataRoot").Balanced ∧
    ∃ p p', parseText (notesSetting "dataRoot") "Next" true = .ok p ∧
      parseText (notesSetting "dataRoot") "Next.Note" true = .ok p' ∧
      ¬ SpellsOut "\x7b0.Note\x7d\x7b0\x7d" p.expr p'.expr ∧ ¬ SpellsOut "\x7b0\x7d\x7b0\x7d" p'.expr p.expr ∧
      (Expr.interpolated (Format.template "\x7b0.Note\x7d\x7b0\x7d") [p.expr]).key ≠
        (Expr.interpolated (Format.template "\x7b0\x7d\x7b0\x7d") [p'.expr]).key := by
  have hs : (notesSetting "dataRoot").Balanced :=
    ⟨⟨.named "Page", "dataRoot", false, rfl⟩, by decide +kernel, by decide +kernel⟩
  obtain ⟨p, hp, hkey⟩ := exists_ok (x := parseText (notesSetting "dataRoot") "Next" true)
    (P := fun p => p.expr.key == "dataRoot.Next") (by decide +kernel)
  obtain ⟨p', hp', hkey'⟩ := exists_ok (x := parseText (notesSetting "dataRoot") "Next.Note" true)
    (P := fun p => p.expr.key == "dataRoot.Next.Note") (by decide +kernel)
  have hformat : ¬ SpellsOut "\x7b0.Note\x7d\x7b0\x7d" p.expr p'.expr := by
    rw [SpellsOut, eq_of_beq hkey, eq_of_beq hkey']
    decide +kernel
  have hformat' : ¬ SpellsOut "\x7b0\x7d\x7b0\x7d" p'.expr p.expr := by
    rw [SpellsOut, eq_of_beq hkey, eq_of_beq hkey']
    decide +kernel
  refine ⟨hs, p, p', hp, hp', hformat, hformat', fun h => ?_⟩
  have hkeys := (((format_key_eq_iff _ _).2 _ _ hs hs _ _ _ _ p p' hp hp' hformat hformat').mp h).2
  rw [eq_of_beq hkey, eq_of_beq hkey'] at hkeys
  revert hkeys
  decide +kernel

/-- Two values of a page and their formats. -/
structure FormatPair where
  root : String := "dataRoot"
  text : String
  format : String
  text' : String
  format' : String

/-- The values are written in the same way, but differ in their keys or formats. -/
def FormatPair.Confused (c : FormatPair) : Prop :=
  ∃ p p', parseText (notesSetting c.root) c.text true = .ok p ∧ parseText (notesSetting c.root) c.text' true = .ok p' ∧
    (Expr.interpolated (Format.template c.format) [p.expr]).key =
      (Expr.interpolated (Format.template c.format') [p'.expr]).key ∧
    ¬ (Format.template c.format = Format.template c.format' ∧ p.expr.key = p'.expr.key)

/-- Both formats spell out the key of the other value; only the second one does, with one value and with two; the
root has a name with braces. -/
def confusedFormats : List FormatPair := [
  { text := "Note", format := "\x7bdataRoot.Title\x7d\x7b0\x7d",
    text' := "Title", format' := "\x7b0\x7d\x7bdataRoot.Note\x7d" },
  { text := "Title", format := "\x7b0\x7d\x7b0\x7d",
    text' := "Title", format' := "\x7bdataRoot.Title\x7d\x7b0\x7d" },
  { text := "Next", format := "\x7b0.Note\x7d\x7b0\x7d",
    text' := "Next.Note", format' := "\x7b0\x7d\x7bdataRoot.Next\x7d" },
  { root := "Page\x7d\x7bPage", text := "this", format := "\x7b0\x7d",
    text' := "Page", format' := "\x7b0\x7d\x7b0\x7d" }]

theorem confusedFormats_forall : confusedFormats.Forall FormatPair.Confused := by
  have hall : confusedFormats.all (fun c =>
      (parseText (notesSetting c.root) c.text true).toOption.any fun p =>
        (parseText (notesSetting c.root) c.text' true).toOption.any fun p' =>
          (Expr.interpolated (Format.template c.format) [p.expr]).key ==
            (Expr.interpolated (Format.template c.format') [p'.expr]).key &&
          !(Format.template c.format == Format.template c.format' && p.expr.key == p'.expr.key)) = true := by
    decide +kernel
  refine List.forall_iff_forall_mem.mpr fun c hc => ?_
  obtain ⟨p, hp, hpair⟩ := exists_ok (List.all_eq_true.mp hall c hc)
  obtain ⟨p', hp', hpair⟩ := exists_ok hpair
  simp only [Bool.and_eq_true, Bool.not_eq_true', beq_iff_eq, Bool.and_eq_false_iff, beq_eq_false_iff_ne] at hpair
  exact ⟨p, p', hp, hp', hpair.1, fun h => hpair.2.elim (· h.1) (· h.2)⟩

-- A specification on its own is put behind the value; a text with a placeholder stays as it is.
example : (["N2", "\x7b0\x7d:N2"].map fun format =>
      (Expr.interpolated (Format.template format) [.var "price" .object]).key) =
    ["$\"\x7bprice:N2\x7d\"", "$\"\x7bprice\x7d:N2\""] := by decide +kernel

end Grammar

end DataBinding
