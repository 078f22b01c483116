import DataBinding.Proofs.Expr.Meaning
import DataBinding.Proofs.Text.Names

/-!
# Names in the written forms of expressions

The texts that the nodes of an expression bring along are clear when no name of a given kind stands in
them. Then such names stand in the written form only where the expression has a variable, and the written
form alone tells how it is spelled with other names. So expressions that are written in the same way
mention the same of these variables, and they are still written in the same way when the variables are
replaced.
-/
namespace DataBinding
open Text

/-! ## Texts with a placeholder -/

namespace Template

/-- The text with quotes as they are written. -/
def escaped (template : String) : List Char := replaceAll ['"'] ['\\', '"'] template.toList

/-- The text with the key of the only operand in the placeholders. -/
def fill (key : List Char) : List Char → List Char
  | '\x7b' :: '0' :: cs => '\x7b' :: (key ++ fill key cs)
  | c :: cs => c :: fill key cs
  | [] => []

theorem replaceAll_placeholder (key cs : List Char) :
    replaceAll ['\x7b', '0'] ('\x7b' :: key) cs = fill key cs := by
  fun_induction fill with
  | case1 cs ih =>
    simp only [replaceAll] at ih
    simp [replaceAll, replaceFrom, ih]
  | case2 c cs hne ih =>
    have hprefix : ¬ ['\x7b', '0'] <+: c :: cs := by
      rintro ⟨rest, hrest⟩
      obtain ⟨rfl, rfl⟩ := List.cons.inj hrest
      exact hne rest rfl rfl
    simp only [replaceAll] at ih
    simp [replaceAll, replaceFrom, hprefix, ih]
  | case3 => rfl

theorem fillTemplate_singleton (template key : String) :
    fillTemplate template [key] = String.ofList (fill key.toList (escaped template)) := by
  rw [← replaceAll_placeholder]
  rfl

theorem replaceAll_quote (replacement cs : List Char) :
    replaceAll ['"'] replacement cs = cs.flatMap fun c => if c = '"' then replacement else [c] := by
  simp only [replaceAll]
  induction cs with
  | nil => rfl
  | cons c cs ih =>
    by_cases hc : c = '"'
    · simp [replaceFrom, hc, ih]
    · simp [replaceFrom, hc, Ne.symm hc, ih]

theorem infix_escaped {template : String} {pattern : List Char} (hquote : '"' ∉ pattern)
    (h : pattern <:+: template.toList) : pattern <:+: escaped template := by
  obtain ⟨front, back, hsplit⟩ := h
  have hpattern : (pattern.flatMap fun c => if c = '"' then ['\\', '"'] else [c]) = pattern := by
    refine (List.flatMap_congr fun c hc => if_neg ?_).trans (List.flatMap_singleton' pattern)
    rintro rfl
    exact hquote hc
  rw [escaped, replaceAll_quote, ← hsplit, List.flatMap_append, List.flatMap_append, hpattern]
  exact ⟨_, _, rfl⟩

/-- The key in a placeholder is written out in full. -/
theorem length_le_fill (key : List Char) {cs : List Char} (h : ['\x7b', '0'] <:+: cs) :
    key.length ≤ (fill key cs).length := by
  fun_induction fill key cs with
  | case1 cs ih =>
    simp only [List.length_cons, List.length_append]
    omega
  | case2 c cs hne ih =>
    have hrest : ['\x7b', '0'] <:+: cs := by
      refine (List.infix_cons_iff.mp h).resolve_left ?_
      rintro ⟨rest, hrest⟩
      obtain ⟨rfl, rfl⟩ := List.cons.inj hrest
      exact hne rest rfl rfl
    exact Nat.le_succ_of_le (ih hrest)
  | case3 => simp at h

/-- The place behind a text with placeholders, whose own text is passed. The key of an operand is followed
by neither a word nor a literal. -/
def pass? (names : NameKind) : Region → List Char → Option Region
  | p, '\x7b' :: '0' :: cs =>
    if p.isFree names && p.next '\x7b' = .code '\x7b' [] &&
        cs.head?.any fun c => !isNameChar c && c ≠ '"' then
      pass? names (.code ' ' []) cs
    else none
  | p, c :: cs => if p.continues c || p.isFree names then pass? names (p.next c) cs else none
  | p, [] => some p

/-- Does no name of the kind stand in the text, and is it closed by the quote behind it? -/
def isClear (names : NameKind) (template : String) : Bool :=
  match pass? names (.text '"') (escaped template) with
  | some (.text before) => before ≠ '\\'
  | _ => false

variable {names : NameKind} {σ : String → String} {template k k' : String}

theorem head?_fill (key cs : List Char) : (fill key cs).head? = cs.head? := by
  fun_cases fill key cs <;> rfl

theorem delimits_fill_append {key cs rest : List Char}
    (h : cs.head?.any fun c => !isNameChar c && c ≠ '"') : Delimits (fill key cs ++ rest) := by
  intro c hc
  rw [List.head?_append, head?_fill] at hc
  cases cs with
  | nil => cases h
  | cons d cs => simp_all

/-- What is passed is copied, with the keys in the placeholders in their other spelling. -/
theorem spelled_fill (hσ : names.Spells σ) (hk : Reads σ k k') {p q : Region} {cs : List Char}
    (h : pass? names p cs = some q) : Spelled σ p (fill k.toList cs) (fill k'.toList cs) q := by
  fun_induction pass? names p cs with
  | case1 p cs hp ih =>
    simp only [Bool.and_eq_true, decide_eq_true_eq] at hp
    obtain ⟨⟨hfree, hnext⟩, hhead⟩ := hp
    obtain ⟨written, hwritten, hrename⟩ := ih h
    refine .cons hσ (by simp [hfree]) ?_
    rw [hnext]
    refine ⟨k'.toList ++ written, by simpa [Region.word] using hwritten, fun rest => ?_⟩
    rw [rename_of_opens (by decide), List.append_assoc, hk _ (delimits_fill_append hhead), hrename,
      List.append_assoc]
  | case2 p cs hp => cases h
  | case3 p c cs hne hc ih =>
    rw [fill, fill]
    · exact .cons hσ hc (ih h)
    · exact hne
    · exact hne
  | case4 p c cs hne hc => cases h
  | case5 p =>
    obtain rfl : p = q := Option.some.inj h
    exact spelled_nil

/-- A clear text with a placeholder is spelled in the other way together with its operand. -/
theorem reads_interpolated (hσ : names.Spells σ) (hk : Reads σ k k') (h : isClear names template) :
    Reads σ ("$\"" ++ fillTemplate template [k] ++ "\"") ("$\"" ++ fillTemplate template [k'] ++ "\"") := by
  unfold isClear at h
  split at h
  · rename_i before hpass
    obtain ⟨written, hwritten, hrename⟩ := spelled_fill hσ hk hpass
    intro rest hrest
    have hempty : σ "" = "" := hσ "" names.not_has_empty
    have hdollar : isNameChar '$' = false := by decide
    have hquote : isNameChar '"' = false := by decide
    have hbefore : before ≠ '\\' := by simpa using h
    have hfilled : fill k'.toList (escaped template) = written := by simpa [Region.word] using hwritten
    have hclosed : rename σ (.code '"' []) rest = rename σ (.code ' ' []) rest := rename_of_opens (by decide)
    simp [fillTemplate_singleton, rename, Region.continues, Region.next, Region.spelled, hempty, hdollar, hquote,
      hrename, hbefore, hfilled, hclosed]
  · cases h

end Template

/-! ## Forms -/

namespace Form

/-- Does no name of the kind stand in the texts that the form brings along? -/
def isClear (names : NameKind) (form : Form) (type : TypeRef) : Bool :=
  match form with
  | .constant (.number text) => Text.isClear names text
  | .var name => Text.isClear names name
  | .typeRef | .create => Text.isClear names type.name
  | .cast | .default => Text.isClear names type.display
  | .typeOf operand => Text.isClear names operand.name
  | .member m _ _ | .call m _ => Text.isClear names ("." ++ m.name)
  | .interpolated template => Template.isClear names template
  | _ => true

/-- Can the form have so many operands? A text has a placeholder for the only one. -/
def Fits : Form → Nat → Prop
  | .interpolated template, n => n = 1 ∧ ['\x7b', '0'] <:+: template.toList
  | form, n => form.Takes n

variable {names : NameKind} {σ : String → String} {form : Form} {type : TypeRef}

theorem reads_access (hσ : names.Spells σ) {name : String} (h : Text.isClear names ("." ++ name))
    (nullSafe : Bool) :
    Reads σ ((if nullSafe then "?." else ".") ++ name) ((if nullSafe then "?." else ".") ++ name) := by
  cases nullSafe with
  | false => exact reads_of_isClear hσ h
  | true =>
    rw [if_pos rfl, show "?." = "?" ++ "." from rfl, String.append_assoc]
    exact .behind hσ (by decide) (reads_of_isClear hσ h)

theorem reads_constant (hσ : names.Spells σ) {value : Constant}
    (h : (Form.constant value).isClear names type) : Reads σ value.key value.key := by
  apply reads_of_isClear hσ
  cases value with
  | null => exact isClear_of_word (by decide) (by decide)
  | bool value => cases value <;> exact isClear_of_word (by decide) (by decide)
  | number text => exact h
  | string value => exact isClear_quoted value

/-- The written form of a node is spelled in the other way together with those of its operands. -/
theorem reads_key (hσ : names.Spells σ) {es : List Expr} {f g : Expr → String}
    (hfits : form.Fits es.length) (hes : ∀ e ∈ es, Reads σ (f e) (g e)) (hform : form.isClear names type) :
    Reads σ (form.key type (es.map f)) (form.key type (es.map g)) := by
  have hclose : Reads σ ")" ")" := reads_symbols hσ (by decide)
  have hdelimits : Delimits ")".toList := delimits_of_head (by decide)
  have hlast : ∀ {k k' : String}, Reads σ k k' → Reads σ (k ++ ")") (k' ++ ")") := fun hk =>
    hk.append hdelimits hclose
  cases form with
  | constant value => exact reads_constant hσ hform
  | var name => exact reads_of_isClear hσ hform
  | typeRef => exact reads_of_isClear hσ hform
  | typeOf operand =>
    simp only [key, show "typeof(" = "typeof" ++ "(" from rfl, String.append_assoc]
    exact .behind_word hσ (by decide) (by decide) (hlast (reads_of_isClear hσ hform))
  | default =>
    simp only [key, show "default(" = "default" ++ "(" from rfl, String.append_assoc]
    exact .behind_word hσ (by decide) (by decide) (hlast (reads_of_isClear hσ hform))
  | member m marker nullSafe =>
    obtain ⟨a, rfl⟩ := List.length_eq_one_iff.mp hfits
    have ha := hes a (by simp)
    simp only [key, List.map_cons, List.getD_cons_zero, String.append_assoc]
    refine ha.append ?_ (reads_access hσ hform nullSafe)
    cases nullSafe <;> exact delimits_symbols rfl
  | element indexer marker =>
    obtain ⟨a, args, rfl⟩ := List.exists_cons_of_length_pos hfits
    obtain ⟨ha, hargs⟩ := List.forall_mem_cons.mp hes
    simp only [key, List.map_cons, List.getD_cons_zero, List.drop_one, List.tail_cons, String.append_assoc]
    refine ha.append (delimits_symbols (by decide)) (.behind hσ (by decide) ?_)
    exact reads_commas hσ hargs (delimits_of_head (by decide)) (reads_symbols hσ (by decide))
  | call m nullSafe =>
    obtain ⟨a, args, rfl⟩ := List.exists_cons_of_length_pos hfits
    obtain ⟨ha, hargs⟩ := List.forall_mem_cons.mp hes
    have hcall := (reads_access hσ hform nullSafe).append (t := "(" ++ (", ".intercalate (args.map f) ++ ")"))
      (delimits_symbols (by decide)) (.behind hσ (by decide) (reads_commas hσ hargs hdelimits hclose))
    simp only [key, List.map_cons, List.getD_cons_zero, List.drop_one, List.tail_cons, String.append_assoc]
      at hcall ⊢
    refine ha.append ?_ hcall
    cases nullSafe <;> exact delimits_symbols (by decide)
  | cast =>
    obtain ⟨a, rfl⟩ := List.length_eq_one_iff.mp hfits
    have ha := hes a (by simp)
    simp only [key, List.map_cons, List.getD_cons_zero, String.append_assoc]
    refine .behind hσ (by decide) ((reads_of_isClear hσ hform).append (delimits_symbols (by decide)) ?_)
    exact .behind hσ (by decide) (hlast ha)
  | paren =>
    obtain ⟨a, rfl⟩ := List.length_eq_one_iff.mp hfits
    have ha := hes a (by simp)
    simp only [key, List.map_cons, List.getD_cons_zero, String.append_assoc]
    exact .behind hσ (by decide) (hlast ha)
  | unary op =>
    obtain ⟨a, rfl⟩ := List.length_eq_one_iff.mp hfits
    have ha := hes a (by simp)
    cases op <;>
      simp only [key, List.map_cons, List.getD_cons_zero, String.append_assoc] <;>
      exact .behind hσ (by decide) (hlast ha)
  | binary op =>
    obtain ⟨a, b, rfl⟩ := List.length_eq_two.mp hfits
    have ha := hes a (by simp)
    have hb := hes b (by simp)
    have hop : isOpening op.symbol.toList := by cases op <;> decide
    simp only [key, List.map_cons, List.getD_cons_zero, List.getD_cons_succ, String.append_assoc]
    refine .behind hσ (by decide) (ha.append (delimits_symbols (by decide)) ?_)
    exact .behind hσ (by decide) (.behind hσ hop (.behind hσ (by decide) (hlast hb)))
  | conditional =>
    obtain ⟨a, b, c, rfl⟩ := List.length_eq_three.mp hfits
    have ha := hes a (by simp)
    have hb := hes b (by simp)
    have hc := hes c (by simp)
    simp only [key, List.map_cons, List.getD_cons_zero, List.getD_cons_succ, String.append_assoc]
    refine .behind hσ (by decide) (ha.append (delimits_symbols (by decide)) (.behind hσ (by decide) ?_))
    exact hb.append (delimits_symbols (by decide)) (.behind hσ (by decide) (hlast hc))
  | coalesce =>
    obtain ⟨a, b, rfl⟩ := List.length_eq_two.mp hfits
    have ha := hes a (by simp)
    have hb := hes b (by simp)
    simp only [key, List.map_cons, List.getD_cons_zero, List.getD_cons_succ, String.append_assoc]
    refine .behind hσ (by decide) (ha.append (delimits_symbols (by decide)) ?_)
    exact .behind hσ (by decide) (hlast hb)
  | create =>
    have hnew : Reads σ "new" "new" := reads_of_isClear hσ (isClear_of_word (by decide) (by decide))
    simp only [key, show "new " = "new" ++ " " from rfl, String.append_assoc]
    refine hnew.append (delimits_symbols (by decide)) (.behind hσ (by decide) ?_)
    refine (reads_of_isClear hσ hform).append (delimits_symbols (by decide)) (.behind hσ (by decide) ?_)
    exact reads_commas hσ hes hdelimits hclose
  | interpolated template =>
    obtain ⟨a, rfl⟩ := List.length_eq_one_iff.mp hfits.1
    exact Template.reads_interpolated hσ (hes a (by simp)) hform
  | fallback index =>
    obtain ⟨a, b, rfl⟩ := List.length_eq_two.mp hfits
    have ha := hes a (by simp)
    have hb := hes b (by simp)
    have hword : ("fallback" ++ toString index).toList.all isNameChar = true := by
      rw [String.toList_append, List.all_append, List.all_eq_true.mpr (isNameChar_toString index)]
      decide
    have hcall := Reads.behind_word hσ hword (by simp) (ha.append (t := ", " ++ (f b ++ ")"))
      (delimits_symbols (by decide)) (.behind hσ (by decide) (hlast hb)))
    simpa only [key, List.map_cons, List.getD_cons_zero, List.getD_cons_succ, String.append_assoc] using hcall

/-- The written form of the whole adds to that of each operand, in the placeholder of a text too. -/
theorem length_lt_key_of_fits {keys : List String} (h : form.Fits keys.length) {k : String} (hk : k ∈ keys) :
    k.length < (form.key type keys).length := by
  cases form with
  | interpolated template =>
    obtain ⟨hlength, hplaceholder⟩ := h
    obtain ⟨a, rfl⟩ := List.length_eq_one_iff.mp hlength
    obtain rfl := List.mem_singleton.mp hk
    have hfill := Template.length_le_fill k.toList (Template.infix_escaped (by decide) hplaceholder)
    simp only [key, Template.fillTemplate_singleton, String.length_append, String.length_ofList]
    rw [String.length_toList] at hfill
    have hquote : "\"".length = 1 := rfl
    omega
  | _ =>
    refine length_lt_key ?_ hk
    exact h

/-- The form brings no name of the kind along, unless it is a variable with such a name. -/
def IsWorded (names : NameKind) (form : Form) (type : TypeRef) : Prop :=
  form.isClear names type ∨ ∃ x, names.has x ∧ form = .var x

end Form

namespace Expr

/-- Every node has the operands that its form takes. -/
inductive Written : Expr → Prop where
  | node {form : Form} {type : TypeRef} {operands : List Expr} (fits : form.Fits operands.length)
      (operands_written : ∀ e ∈ operands, Written e) : Written ⟨form, type, operands⟩

/-- Names of the kind stand only where the expression has variables. -/
def IsWorded (names : NameKind) (e : Expr) : Prop := ∀ n ∈ e.nodes, n.form.IsWorded names n.type

variable {names : NameKind} {σ : String → String} {e n v : Expr} {k x : String}

theorem IsWorded.of_mem_nodes (h : e.IsWorded names) (hn : n ∈ e.nodes) : n.IsWorded names :=
  fun m hm => h m (mem_nodes_trans hm hn)

theorem isWorded_var (hx : names.has x) (t : TypeRef) : (var x t).IsWorded names := by
  intro n hn
  obtain rfl : n = var x t := by simpa [var, nodes, nodesAll] using hn
  exact Or.inr ⟨x, hx, rfl⟩

theorem IsWorded.replaceKey (he : e.IsWorded names) (hv : v.IsWorded names) :
    (replaceKey k v e).IsWorded names :=
  forall_nodes_replaceKey he hv

namespace Written

theorem var (x : String) (t : TypeRef) : (var x t).Written := .node rfl (by simp)

theorem of_mem_nodes (h : e.Written) (hn : n ∈ e.nodes) : n.Written := by
  induction h with
  | node fits operands_written ih =>
    rcases mem_nodes.mp hn with rfl | ⟨o, ho, hno⟩
    · exact .node fits operands_written
    · exact ih o ho hno

theorem replaceKey (he : e.Written) (hv : v.Written) : (replaceKey k v e).Written := by
  induction he with
  | node fits operands_written ih =>
    rw [replaceKey_eq]
    split
    · exact hv
    · refine .node (by simpa using fits) ?_
      simpa using ih

theorem length_key_lt (h : e.Written) {o : Expr} (ho : o ∈ e.operands) (hn : n ∈ o.nodes) :
    n.key.length < e.key.length := by
  induction h generalizing o with
  | @node form type operands fits _ ih =>
    have hlt : o.key.length < (form.key type (operands.map key)).length :=
      Form.length_lt_key_of_fits (by rwa [List.length_map]) (List.mem_map_of_mem ho)
    rw [key_eq]
    rcases mem_nodes.mp hn with rfl | ⟨o', ho', hno'⟩
    · exact hlt
    · exact Nat.lt_trans (ih o ho ho' hno') hlt

/-- The written form tells how the expression is spelled with other names. -/
theorem reads_key (h : e.Written) (hσ : names.Spells σ) (hw : e.IsWorded names) :
    Reads σ e.key (e.meaning (.naming σ)) := by
  induction h with
  | @node form type operands fits _ ih =>
    have hoperands : ∀ o ∈ operands, Reads σ o.key (o.meaning (.naming σ)) := fun o ho =>
      ih o ho (hw.of_mem_nodes (operand_nodes_subset ho o (self_mem_nodes o)))
    rw [key_eq, meaning_eq]
    by_cases hvar : ∃ x, form = .var x
    · obtain ⟨x, rfl⟩ := hvar
      by_cases hx : names.has x
      · exact reads_name hσ hx
      · have hclear : (Form.var x).isClear names type := by
          refine (hw _ (self_mem_nodes _)).resolve_right ?_
          rintro ⟨y, hy, hxy⟩
          exact hx (Form.var.inj hxy ▸ hy)
        have hsame : σ x = x := hσ x (by simpa using hx)
        simp only [Semantics.naming, hsame]
        exact reads_of_isClear hσ hclear
    · have hclear : form.isClear names type := by
        refine (hw _ (self_mem_nodes _)).resolve_right ?_
        rintro ⟨x, -, hx⟩
        exact hvar ⟨x, hx⟩
      rw [Semantics.naming_of_not_var fun x hx => hvar ⟨x, hx⟩]
      exact Form.reads_key hσ fits hoperands hclear

theorem meaning_naming_eq {e₁ e₂ : Expr} (h₁ : e₁.Written) (h₂ : e₂.Written) (hσ : names.Spells σ)
    (hw₁ : e₁.IsWorded names) (hw₂ : e₂.IsWorded names) (hkey : e₁.key = e₂.key) :
    e₁.meaning (.naming σ) = e₂.meaning (.naming σ) :=
  (h₁.reads_key hσ hw₁).unique (hkey ▸ h₂.reads_key hσ hw₂)

/-- What stands for a variable is written out in full. -/
theorem length_le_meaning (h : e.Written) (σ : String → String) (hx : e.mentions x) :
    (σ x).length ≤ (e.meaning (.naming σ)).length := by
  induction h with
  | @node form type operands fits _ ih =>
    obtain ⟨n, hn, hform⟩ := mentions_iff.mp hx
    rw [meaning_eq]
    rcases mem_nodes.mp hn with rfl | ⟨o, ho, hno⟩
    · obtain rfl : form = .var x := hform
      exact Nat.le_refl _
    · have hvar : ∀ y, form ≠ .var y := by
        rintro y rfl
        obtain rfl : operands = [] := List.length_eq_zero_iff.mp fits
        cases ho
      rw [Semantics.naming_of_not_var hvar]
      calc (σ x).length ≤ (o.meaning (.naming σ)).length := ih o ho (mentions_iff.mpr ⟨n, hno, hform⟩)
        _ ≤ _ := Nat.le_of_lt (Form.length_lt_key_of_fits (by simpa using fits) (List.mem_map_of_mem ho))

end Written

theorem meaning_naming_update (e : Expr) (x text : String) :
    e.meaning (.naming (Function.update id x text)) = e.meaning (Semantics.assign Form.key x text) := by
  rw [← Semantics.naming_id, Semantics.assign_naming]

namespace Written

theorem mentions_of_key_eq {e₁ e₂ : Expr} (h₁ : e₁.Written) (h₂ : e₂.Written)
    (hw₁ : e₁.IsWorded names) (hw₂ : e₂.IsWorded names) (hkey : e₁.key = e₂.key) (hx : names.has x)
    (hmentions : e₁.mentions x) : e₂.mentions x := by
  by_contra hnot
  -- a text that is longer than the whole expression does not stand in it
  let text := String.ofList (List.replicate (e₂.key.length + 1) ' ')
  have hlength : text.length = e₂.key.length + 1 := by simp [text]
  have hsame := meaning_naming_eq h₁ h₂ (NameKind.spells_update hx text) hw₁ hw₂ hkey
  have hlong := h₁.length_le_meaning (Function.update id x text) hmentions
  rw [hsame, meaning_naming_update, meaning_assign (by simpa using hnot), meaning_key,
    Function.update_self] at hlong
  omega

theorem isVar_of_key_eq (h : e.Written) (hw : e.IsWorded names) (hx : names.has x) (hkey : e.key = x) :
    e.form.isVar x := by
  -- with no text for the name nothing is left of the written form
  have hempty := meaning_naming_eq h (.var x .null) (NameKind.spells_update hx "") hw (isWorded_var hx .null) hkey
  have hne : x ≠ "" := by
    rintro rfl
    simp [names.not_has_empty] at hx
  obtain ⟨form, type, operands⟩ := e
  rw [key_eq] at hkey
  rw [Expr.var, meaning_eq, meaning_eq] at hempty
  simp only [Semantics.naming, Function.update_self] at hempty
  cases form with
  | var y => exact Form.isVar_iff.mpr (congrArg Form.var hkey)
  | constant value => exact absurd (hkey.symm.trans hempty) hne
  | typeRef => exact absurd (hkey.symm.trans hempty) hne
  | unary op => cases op <;> simp [Form.key] at hempty
  | member m marker nullSafe => cases nullSafe <;> simp [Form.key] at hempty
  | _ => simp [Form.key] at hempty

end Written

end Expr

end DataBinding
