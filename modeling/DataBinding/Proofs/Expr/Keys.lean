import DataBinding.Proofs.Expr.Formed
import DataBinding.Proofs.Expr.Meaning
import DataBinding.Proofs.Text.Names

/-!
# Keys determine expressions

The layout of a well-formed expression tells how the expression is made up, and keys tell layouts apart. So
two well-formed expressions with the same key are the same up to the markers of their accesses.
-/
namespace DataBinding
open Text Piece

namespace Piece

theorem path_not_mem_marks {name : String} (h : IsPath name) : ∀ c ∈ name.toList, c ∉ marks := by
  intro c hc
  rcases h.2 c hc with h | rfl
  · exact Piece.not_mem_marks (Or.inl h)
  · decide

theorem tidy_create {name : String} (hname : IsPath name) {args : List Piece}
    (hargs : ∀ p ∈ args, p.Proper) : Tidy (chars ("new ".toList ++ name.toList) ++ [.round args]) := by
  obtain ⟨c, hc, hletter, -⟩ := hname.1
  obtain ⟨cs, hcs⟩ : ∃ cs, name.toList = c :: cs := by
    cases h : name.toList with
    | nil => simp [h] at hc
    | cons d ds => exact ⟨ds, by simp_all⟩
  have hblank : ' ' ∉ name.toList := hname.not_mem (by decide) (by decide)
  have hcomma : ',' ∉ name.toList := hname.not_mem (by decide) (by decide)
  change Tidy (chars ('n' :: (['e', 'w', ' '] ++ name.toList)) ++ _)
  refine tidy_applied (by decide) ?_ ?_ ?_ hargs
  · have hunbroken : Unbroken (chars ['n', 'e', 'w'] ++ ([.char ' ', .char c] ++ chars cs)) := by
      refine (unbroken_of_not_mem (by simp)).append
        ((unbroken_blank_name hletter).append (unbroken_of_not_mem ?_))
      rw [hcs] at hblank
      simp_all
    rw [hcs]
    exact hunbroken
  · simpa using hcomma
  · intro d hd
    simp only [List.cons_append, List.nil_append, List.mem_cons] at hd
    rcases hd with rfl | rfl | rfl | rfl | hd
    · decide
    · decide
    · decide
    · decide
    · exact path_not_mem_marks hname d hd

theorem fallback_chars (index : Nat) : ∀ c ∈ ("fallback" ++ toString index).toList, isNameChar c = true := by
  rw [String.toList_append, List.forall_mem_append]
  exact ⟨by decide, isNameChar_toString index⟩

theorem tidy_fallback (index : Nat) {args : List Piece} (hargs : ∀ p ∈ args, p.Proper) :
    Tidy (chars ("fallback" ++ toString index).toList ++ [.round args]) := by
  have hchars := fallback_chars index
  have hother {c : Char} (hc : isNameChar c = false) : c ∉ ("fallback" ++ toString index).toList := by
    intro hmem
    simp [hchars c hmem] at hc
  obtain ⟨cs, hcs⟩ : ∃ cs, ("fallback" ++ toString index).toList = 'f' :: cs := ⟨_, by simp; rfl⟩
  rw [hcs] at hchars hother ⊢
  refine tidy_applied (by decide) (unbroken_of_not_mem ?_) (hother (by decide)) ?_ hargs
  · rw [mem_chars]
    exact hother (by decide)
  · exact fun d hd => not_mem_marks (Or.inl (hchars d hd))

theorem applied_fallback (index : Nat) (args : List Piece) :
    applied (chars ("fallback" ++ toString index).toList) args =
      .call (chars ("fallback" ++ toString index).toList) args := by
  have hcreate : "new ".toList.isPrefixOf ("fallback" ++ toString index).toList = false := by
    rw [String.toList_append]
    rfl
  rw [applied, writeAll_chars, if_neg (by simp), if_neg (by simp), hcreate, Bool.and_false]
  rfl

theorem fallback_ne_access (index : Nat) (ps : List Piece) (nullSafe : Bool) (name : List Char) :
    chars ("fallback" ++ toString index).toList ≠ ps ++ (point nullSafe ++ chars name) := by
  intro h
  have hmem : .char '.' ∈ chars ("fallback" ++ toString index).toList := by
    rw [h]
    cases nullSafe <;> simp [point]
  exact absurd (fallback_chars index '.' (mem_chars.mp hmem)) (by decide)

theorem fallback_inj {i j : Nat}
    (h : chars ("fallback" ++ toString i).toList = chars ("fallback" ++ toString j).toList) : i = j := by
  have hdigits : Nat.toDigits 10 i = Nat.toDigits 10 j := by simpa using h
  rw [← Nat.ofDigitChars_ten_toDigits (n := i), hdigits, Nat.ofDigitChars_ten_toDigits]

end Piece

namespace Expr

variable {ρ : Rules} {e e' : Expr}

theorem proper_commas {parts : List (List Piece)} (h : ∀ ps ∈ parts, ∀ p ∈ ps, p.Proper) :
    ∀ p ∈ commas parts, p.Proper := by
  induction parts with
  | nil => simp
  | cons ps parts ih =>
    obtain ⟨hps, hparts⟩ := List.forall_mem_cons.mp h
    cases parts with
    | nil => simpa using hps
    | cons qs parts =>
      rw [commas_cons_cons]
      refine List.forall_mem_append.mpr ⟨hps, List.forall_mem_cons.mpr ⟨.char (by decide), ?_⟩⟩
      exact List.forall_mem_cons.mpr ⟨.char (by decide), ih hparts⟩

theorem proper_args {args : List Expr} (h : ∀ a ∈ args, Tidy a.pieces) :
    ∀ p ∈ commas (args.map pieces), p.Proper := by
  refine proper_commas fun ps hps => ?_
  obtain ⟨a, ha, rfl⟩ := List.mem_map.mp hps
  exact (h a ha).proper

theorem Formed.tidy (hρ : ρ.Separated) (h : Formed ρ e) : Tidy e.pieces := by
  have hmark {c : Char} (hc : c ∈ ['!', '-', ' ', '?', ':']) : (Piece.char c).Proper := by
    refine .char ?_
    revert c
    decide
  induction h with
  | leaf h =>
    rw [hρ.leaf_pieces h]
    exact tidy_chars (hρ.leaf_opens h) (hρ.leaf_chars h)
  | text value => simpa using tidy_text value
  | member marker nullSafe htarget h ih =>
    have hname := hρ.member_name h
    rw [pieces_member]
    exact ih.member nullSafe hname.ne_nil hname.chars
  | element marker htarget hargs h ih ihargs =>
    rw [pieces_element]
    exact ih.element (proper_args ihargs)
  | call nullSafe htarget hargs hname h ih ihargs =>
    rw [pieces_call]
    exact ih.call nullSafe hname.chars (proper_args ihargs)
  | cast he htype ih =>
    rw [pieces_cast]
    exact tidy_group (List.forall_mem_cons.mpr ⟨.round (proper_ofName (TypeRef.isLegible_display htype)), ih.proper⟩)
  | create hname hargs ihargs =>
    rw [pieces_create]
    exact tidy_create hname (proper_args ihargs)
  | typeOf hname =>
    have hword : "typeof".toList = ['t', 'y', 'p', 'e', 'o', 'f'] := rfl
    rw [pieces_typeOf, hword]
    exact tidy_applied (by decide) (unbroken_of_not_mem (by simp)) (by decide) (by decide) (proper_ofName hname)
  | default hname =>
    have hword : "default".toList = ['d', 'e', 'f', 'a', 'u', 'l', 't'] := rfl
    rw [pieces_default, hword]
    exact tidy_applied (by decide) (unbroken_of_not_mem (by simp)) (by decide) (by decide)
      (proper_chars (path_not_mem_marks hname))
  | paren he ih =>
    rw [pieces_paren]
    exact tidy_group ih.proper
  | not he ih =>
    rw [pieces_not]
    exact tidy_group (List.forall_mem_cons.mpr ⟨hmark (by decide), ih.proper⟩)
  | negate he hdigit ih =>
    rw [pieces_negate]
    exact tidy_group (List.forall_mem_cons.mpr ⟨hmark (by decide), ih.proper⟩)
  | @binary op left right type hleft hright h ihleft ihright =>
    rw [pieces_binary]
    have hop : ∀ p ∈ chars op.symbol.toList, p.Proper := proper_chars (by cases op <;> decide)
    refine tidy_group (List.forall_mem_append.mpr ⟨ihleft.proper, List.forall_mem_cons.mpr ⟨hmark (by decide), ?_⟩⟩)
    exact List.forall_mem_append.mpr ⟨hop, List.forall_mem_cons.mpr ⟨hmark (by decide), ihright.proper⟩⟩
  | conditional htest htrue hfalse h ihtest ihtrue ihfalse =>
    rw [pieces_conditional]
    refine tidy_group ?_
    simp only [List.forall_mem_append, List.forall_mem_cons]
    exact ⟨ihtest.proper, hmark (by decide), hmark (by decide), hmark (by decide), ihtrue.proper,
      hmark (by decide), hmark (by decide), hmark (by decide), ihfalse.proper⟩
  | coalesce hleft hright h ihleft ihright =>
    rw [pieces_coalesce]
    refine tidy_group ?_
    simp only [List.forall_mem_append, List.forall_mem_cons]
    exact ⟨ihleft.proper, hmark (by decide), hmark (by decide), hmark (by decide), hmark (by decide),
      ihright.proper⟩
  | fallback index he hvalue ih ihvalue =>
    rw [pieces_fallback]
    exact tidy_fallback index (proper_commas (by simpa using ⟨ih.proper, ihvalue.proper⟩))

end Expr

/-! ## Accesses and words -/

theorem access_inj {ps qs : List Piece} {nullSafe nullSafe' : Bool} {name name' : List Char}
    (hps : ∀ p ∈ ps.getLast?, p ≠ .char '?') (hqs : ∀ q ∈ qs.getLast?, q ≠ .char '?')
    (hname : '.' ∉ name) (hname' : '.' ∉ name')
    (h : ps ++ (point nullSafe ++ chars name) = qs ++ (point nullSafe' ++ chars name')) :
    ps = qs ∧ nullSafe = nullSafe' ∧ name = name' := by
  have hpoint (ps : List Piece) (nullSafe : Bool) (name : List Char) :
      (ps ++ (point nullSafe ++ chars name)).reverse =
        (chars name).reverse ++ .char '.' :: (ps ++ chars (if nullSafe then ['?'] else [])).reverse := by
    cases nullSafe <;> simp [point]
  have hfree {name : List Char} (hname : '.' ∉ name) : .char '.' ∉ (chars name).reverse := by
    simpa using hname
  have hreverse := congrArg List.reverse h
  rw [hpoint, hpoint] at hreverse
  obtain ⟨hnames, hfronts⟩ := append_cons_inj (hfree hname) (hfree hname') hreverse
  have hnames := chars_inj.mp (List.reverse_injective hnames)
  have hfronts := List.reverse_injective hfronts
  cases nullSafe <;> cases nullSafe'
  · exact ⟨by simpa using hfronts, rfl, hnames⟩
  · exact absurd rfl (hps (.char '?') (by simp at hfronts; simp [hfronts]))
  · exact absurd rfl (hqs (.char '?') (by simp at hfronts; simp [← hfronts]))
  · exact ⟨List.append_cancel_right hfronts, rfl, hnames⟩

namespace Expr

variable {ρ : Rules} {e e' : Expr}

/-- What a well-formed expression with the given view is. -/
def Viewed (ρ : Rules) (e : Expr) : View → Prop
  | .word => ρ.leaf e ∨ ∃ target m marker nullSafe,
      Formed ρ target ∧ ρ.member target m ∧ e = member target m marker nullSafe
  | .text value => e = constant (.string value) .string
  | .element front parts => ∃ target indexer args marker, Formed ρ target ∧ (∀ a ∈ args, Formed ρ a) ∧
      ρ.registry.indexer? target.type = some indexer ∧ e = element target indexer args marker ∧
      front = target.pieces ∧ parts = commas (args.map pieces)
  | .call front parts => (∃ target method args nullSafe, Formed ρ target ∧ (∀ a ∈ args, Formed ρ a) ∧
      IsWord method.name ∧
      ρ.registry.called? target.type method.name (args.map (·.type)) = some method ∧
      e = call target method args nullSafe ∧
      front = target.pieces ++ (point nullSafe ++ chars method.name.toList) ∧
      parts = commas (args.map pieces)) ∨
    ∃ operand value index, Formed ρ operand ∧ Formed ρ value ∧ e = fallback operand value index ∧
      front = chars ("fallback" ++ toString index).toList ∧ parts = commas ([operand, value].map pieces)
  | .create front parts => ∃ name args, (∀ a ∈ args, Formed ρ a) ∧ e = create (.named name) args ∧
      front = chars name.toList ∧ parts = commas (args.map pieces)
  | .typeOf front => ∃ name, e = typeOf (.named name) ∧ front = ofName name.toList
  | .default front => ∃ name, e = defaultOf (.named name) ∧ front = chars name.toList
  | .cast front part => ∃ type operand, type.isLegible = true ∧ Formed ρ operand ∧ e = cast operand type ∧
      front = ofName type.display.toList ∧ part = operand.pieces
  | .paren part => ∃ operand, Formed ρ operand ∧ e = paren operand ∧ part = operand.pieces
  | .not part => ∃ operand, Formed ρ operand ∧ e = unary .not operand ∧ part = operand.pieces
  | .negate part => ∃ operand, Formed ρ operand ∧ e = unary .negate operand ∧ part = operand.pieces
  | .binary first symbol second => ∃ op left right type, Formed ρ left ∧ Formed ρ right ∧
      op.resultType? ρ.registry left.type right.type = some type ∧ e = binary op left right type ∧
      first = left.pieces ∧ symbol = op.symbol.toList ∧ second = right.pieces
  | .conditional first second third => ∃ test ifTrue ifFalse type, Formed ρ test ∧ Formed ρ ifTrue ∧
      Formed ρ ifFalse ∧ conditionalType? ρ.registry ifTrue.type ifFalse.type = some type ∧
      e = conditional test ifTrue ifFalse type ∧
      first = test.pieces ∧ second = ifTrue.pieces ∧ third = ifFalse.pieces
  | .coalesce first second => ∃ left right type, Formed ρ left ∧ Formed ρ right ∧
      coalescedType ρ.registry left.type right.type = type ∧ e = coalesce left right type ∧
      first = left.pieces ∧ second = right.pieces

theorem Formed.viewed (hρ : ρ.Separated) (h : Formed ρ e) : Viewed ρ e (view e.pieces) := by
  have htidy := h.tidy hρ
  cases h with
  | leaf h =>
    rw [hρ.leaf_pieces h] at htidy ⊢
    have hne : e.key.toList ≠ [] := fun hnil => htidy.opens.ne_nil (by simp [hnil])
    rw [← List.nil_append (chars _), view_chars hne]
    exact Or.inl h
  | text value =>
    rw [pieces_text, view_text]
    exact rfl
  | member marker nullSafe htarget h =>
    rw [pieces_member, ← List.append_assoc, view_chars (hρ.member_name h).ne_nil]
    exact Or.inr ⟨_, _, marker, nullSafe, htarget, h, rfl⟩
  | element marker htarget hargs h =>
    rw [pieces_element, view_square]
    exact ⟨_, _, _, marker, htarget, hargs, h, rfl, rfl, rfl⟩
  | @call target method args nullSafe htarget hargs hname h =>
    have hfront := (htarget.tidy hρ).member nullSafe hname.ne_nil hname.chars
    rw [pieces_call, view_round hfront.opens.ne_nil, applied_call ?_ hfront.flat]
    · exact Or.inl ⟨_, _, _, nullSafe, htarget, hargs, hname, h, rfl, rfl, rfl⟩
    · cases nullSafe <;> simp [writeAll_append, point, writeAll, write]
  | create hname hargs =>
    rw [pieces_create, view_round (by simp), applied_create]
    exact ⟨_, _, hargs, rfl, rfl, rfl⟩
  | typeOf hname =>
    rw [pieces_typeOf, view_round (by simp), applied_typeOf]
    exact ⟨_, rfl, rfl⟩
  | default hname =>
    rw [pieces_default, view_round (by simp), applied_default]
    exact ⟨_, rfl, rfl⟩
  | cast he htype =>
    rw [pieces_cast, view_group, inside_cast (he.tidy hρ).unbroken (he.tidy hρ).opens]
    exact ⟨_, _, htype, he, rfl, rfl, rfl⟩
  | paren he =>
    rw [pieces_paren, view_group, inside_paren (he.tidy hρ).unbroken (he.tidy hρ).opens]
    exact ⟨_, he, rfl, rfl⟩
  | not he =>
    rw [pieces_not, view_group, inside_not (he.tidy hρ).unbroken]
    exact ⟨_, he, rfl, rfl⟩
  | negate he hdigit =>
    rw [pieces_negate, view_group, inside_negate (he.tidy hρ).unbroken hdigit]
    exact ⟨_, he, rfl, rfl⟩
  | binary hleft hright h =>
    rw [pieces_binary, view_group, inside_binary (hleft.tidy hρ).unbroken]
    exact ⟨_, _, _, _, hleft, hright, h, rfl, rfl, rfl, rfl⟩
  | conditional htest htrue hfalse h =>
    rw [pieces_conditional, view_group, inside_conditional (htest.tidy hρ).unbroken (htrue.tidy hρ).unbroken]
    exact ⟨_, _, _, _, htest, htrue, hfalse, h, rfl, rfl, rfl, rfl⟩
  | coalesce hleft hright h =>
    rw [pieces_coalesce, view_group, inside_coalesce (hleft.tidy hρ).unbroken]
    exact ⟨_, _, _, hleft, hright, h, rfl, rfl, rfl⟩
  | fallback index he hvalue =>
    rw [pieces_fallback, view_round (by simp), applied_fallback]
    exact Or.inr ⟨_, _, index, he, hvalue, rfl, rfl, rfl⟩

/-- Only leaves, and accesses that end at a leaf, are written as words. -/
theorem Formed.word_cases (hρ : ρ.Separated) {e : Expr} (h : Formed ρ e) {text : String}
    (htext : e.pieces = chars text.toList) (hquestion : '?' ∉ text.toList) :
    ρ.leaf e ∨ ∃ start m, ρ.leaf start ∧ ρ.member start m ∧ Extends text (start.key ++ "." ++ m.name) := by
  induction e using Expr.induction generalizing text with
  | node form type operands ih =>
    have hviewed := h.viewed hρ
    have hne : text.toList ≠ [] := fun hnil => (h.tidy hρ).opens.ne_nil (by simp [htext, hnil])
    rw [htext, ← List.nil_append (chars _), view_chars hne] at hviewed
    rcases hviewed with hleaf | ⟨target, m, marker, nullSafe, htarget, hm, heq⟩
    · exact Or.inl hleaf
    have htarget_mem : target ∈ operands := by
      cases heq
      exact List.mem_singleton_self target
    rw [heq, pieces_member] at htext
    obtain ⟨front, last, hsplit, hfront, hlast⟩ := List.map_eq_append_iff.mp htext.symm
    obtain ⟨mark, name, rfl, hmark, hname⟩ := List.map_eq_append_iff.mp hlast
    have hname : name = m.name.toList := chars_inj.mp hname
    cases nullSafe with
    | true =>
      have hmark : mark = ['?', '.'] := chars_inj.mp hmark
      simp [hsplit, hmark] at hquestion
    | false =>
      have hmark : mark = ['.'] := chars_inj.mp hmark
      have hsplit : text = String.ofList front ++ "." ++ m.name := by
        apply String.toList_injective
        simp [hsplit, hmark, hname]
      have hfront : target.pieces = chars (String.ofList front).toList := by
        rw [String.toList_ofList]
        exact hfront.symm
      right
      rcases ih target htarget_mem htarget hfront (by simp_all) with hleaf | ⟨start, n, hstart, hn, hext⟩
      · have hkey : target.key = String.ofList front := by
          apply String.toList_injective
          rw [hρ.leaf_pieces hleaf] at hfront
          exact chars_inj.mp hfront
        exact ⟨target, m, hleaf, hm, Or.inl (by rw [hsplit, hkey])⟩
      · exact ⟨start, n, hstart, hn, hsplit ▸ hext.access m.name⟩

theorem Formed.eq_leaf (hρ : ρ.Separated) (h : Formed ρ e) (he' : ρ.leaf e') (hpieces : e.pieces = e'.pieces) :
    e = e' := by
  rw [hρ.leaf_pieces he'] at hpieces
  have hquestion : '?' ∉ e'.key.toList := by
    intro hmem
    have hchar := hρ.leaf_chars he' _ hmem
    revert hchar
    decide
  rcases h.word_cases hρ hpieces hquestion with hleaf | ⟨start, m, hstart, hm, hext⟩
  · rw [hρ.leaf_pieces hleaf] at hpieces
    exact hρ.leaf_inj hleaf he' (String.toList_injective (chars_inj.mp hpieces))
  · exact absurd hext (hρ.apart hstart hm he')

/-! ## The layout determines the expression -/

theorem pieces_eq_of_commas (hρ : ρ.Separated) {args args' : List Expr} (h : ∀ a ∈ args, Formed ρ a)
    (h' : ∀ a ∈ args', Formed ρ a) (hparts : commas (args.map pieces) = commas (args'.map pieces)) :
    args.map pieces = args'.map pieces := by
  have htidy {args : List Expr} (h : ∀ a ∈ args, Formed ρ a) :
      ∀ ps ∈ args.map pieces, ps ≠ [] ∧ .char ',' ∉ ps := by
    intro ps hps
    obtain ⟨a, ha, rfl⟩ := List.mem_map.mp hps
    exact ⟨((h a ha).tidy hρ).opens.ne_nil, ((h a ha).tidy hρ).comma⟩
  exact commas_inj (htidy h) (htidy h') hparts

theorem map_unmarked_eq {args args' : List Expr} (hpieces : args.map pieces = args'.map pieces)
    (h : ∀ a ∈ args, ∀ a' ∈ args', a.pieces = a'.pieces → a.unmarked = a'.unmarked) :
    args.map unmarked = args'.map unmarked := by
  have hlength : args.length = args'.length := by simpa using congrArg List.length hpieces
  refine List.ext_getElem (by simpa using hlength) fun i hi hi' => ?_
  rw [List.length_map] at hi hi'
  have hget : args[i].pieces = args'[i].pieces := by
    simpa [hi, hi'] using congrArg (·[i]?) hpieces
  simpa using h _ (List.getElem_mem hi) _ (List.getElem_mem hi') hget

theorem map_type_eq_of_unmarked {args args' : List Expr} (h : args.map unmarked = args'.map unmarked) :
    args.map (·.type) = args'.map (·.type) := by
  have hmap (args : List Expr) : args.map (·.type) = (args.map unmarked).map (·.type) := by
    simp [type_unmarked]
  rw [hmap, h, ← hmap]

theorem symbol_injective {op op' : BinaryOp} (h : op.symbol = op'.symbol) : op = op' := by
  revert h
  cases op <;> cases op' <;> decide

theorem unmarked_eq_of_pieces (hρ : ρ.Separated) {e e' : Expr} (h : Formed ρ e) (h' : Formed ρ e')
    (hpieces : e.pieces = e'.pieces) : e.unmarked = e'.unmarked := by
  induction e using Expr.induction generalizing e' with
  | node form type operands ih =>
    have hviewed := h.viewed hρ
    have hviewed' := h'.viewed hρ
    rw [← hpieces] at hviewed'
    have hargs {args args' : List Expr} (hsub : args ⊆ operands) (hargs : ∀ a ∈ args, Formed ρ a)
        (hargs' : ∀ a ∈ args', Formed ρ a) (hparts : commas (args.map pieces) = commas (args'.map pieces)) :
        args.map unmarked = args'.map unmarked :=
      map_unmarked_eq (pieces_eq_of_commas hρ hargs hargs' hparts)
        fun a ha a' ha' => ih a (hsub ha) (hargs a ha) (hargs' a' ha')
    cases hview : view (pieces ⟨form, type, operands⟩) with
    | word =>
      rw [hview] at hviewed hviewed'
      rcases hviewed with hleaf | ⟨target, m, marker, nullSafe, htarget, hm, heq⟩
      · rw [h'.eq_leaf hρ hleaf hpieces.symm]
      rcases hviewed' with hleaf' | ⟨target', m', marker', nullSafe', htarget', hm', rfl⟩
      · rw [h.eq_leaf hρ hleaf' hpieces]
      cases heq
      change (member target m marker nullSafe).pieces = _ at hpieces
      rw [pieces_member, pieces_member] at hpieces
      obtain ⟨htargets, rfl, hnames⟩ := access_inj (htarget.tidy hρ).last (htarget'.tidy hρ).last
        ((hρ.member_name hm).not_mem (by decide)) ((hρ.member_name hm').not_mem (by decide)) hpieces
      have htargets := ih target (by simp) htarget htarget' htargets
      have hm := hρ.member_inj hm hm' htargets (String.toList_injective hnames)
      simp [member, unmarked_eq, Form.unmarked, htargets, hm]
    | text value =>
      rw [hview] at hviewed hviewed'
      rw [hviewed, hviewed']
    | element front parts =>
      rw [hview] at hviewed hviewed'
      obtain ⟨target, indexer, args, marker, htarget, hargsF, hindexer, heq, rfl, rfl⟩ := hviewed
      obtain ⟨target', indexer', args', marker', htarget', hargsF', hindexer', rfl, htargets, hparts⟩ := hviewed'
      cases heq
      have htargets := ih target (by simp) htarget htarget' htargets
      rw [type_eq_of_unmarked htargets, hindexer'] at hindexer
      cases hindexer
      simp [element, unmarked_eq, Form.unmarked, htargets, hargs (by simp) hargsF hargsF' hparts]
    | call front parts =>
      rw [hview] at hviewed hviewed'
      rcases hviewed with ⟨target, method, args, nullSafe, htarget, hargsF, hname, hmethod, heq, rfl, rfl⟩ |
        ⟨operand, value, index, hoperand, hvalue, heq, rfl, rfl⟩ <;>
      rcases hviewed' with ⟨target', method', args', nullSafe', htarget', hargsF', hname', hmethod', rfl, hfront,
        hparts⟩ | ⟨operand', value', index', hoperand', hvalue', rfl, hfront, hparts⟩
      · cases heq
        obtain ⟨htargets, rfl, hnames⟩ := access_inj (htarget.tidy hρ).last (htarget'.tidy hρ).last
          (hname.not_mem (by decide)) (hname'.not_mem (by decide)) hfront
        have htargets := ih target (by simp) htarget htarget' htargets
        have hargs := hargs (by simp) hargsF hargsF' hparts
        rw [type_eq_of_unmarked htargets, String.toList_injective hnames, map_type_eq_of_unmarked hargs,
          hmethod'] at hmethod
        cases hmethod
        simp [call, unmarked_eq, Form.unmarked, htargets, hargs]
      · exact absurd hfront.symm (fallback_ne_access index' _ _ _)
      · exact absurd hfront (fallback_ne_access index _ _ _)
      · cases heq
        have hargs := hargs (by simp) (by simpa using ⟨hoperand, hvalue⟩) (by simpa using ⟨hoperand', hvalue'⟩) hparts
        obtain rfl := fallback_inj hfront
        obtain ⟨hoperands, hvalues⟩ : operand.unmarked = operand'.unmarked ∧ value.unmarked = value'.unmarked := by
          simpa using hargs
        simp [fallback, unmarked_eq, Form.unmarked, hoperands, hvalues, type_eq_of_unmarked hoperands]
    | create front parts =>
      rw [hview] at hviewed hviewed'
      obtain ⟨name, args, hargsF, heq, rfl, rfl⟩ := hviewed
      obtain ⟨name', args', hargsF', rfl, hnames, hparts⟩ := hviewed'
      cases heq
      have hnames : name = name' := String.toList_injective (chars_inj.mp hnames)
      simp [create, unmarked_eq, Form.unmarked, hnames, hargs (by simp) hargsF hargsF' hparts]
    | typeOf front =>
      rw [hview] at hviewed hviewed'
      obtain ⟨name, heq, rfl⟩ := hviewed
      obtain ⟨name', rfl, hnames⟩ := hviewed'
      rw [heq, String.toList_injective (ofName_inj hnames)]
    | default front =>
      rw [hview] at hviewed hviewed'
      obtain ⟨name, heq, rfl⟩ := hviewed
      obtain ⟨name', rfl, hnames⟩ := hviewed'
      rw [heq, String.toList_injective (chars_inj.mp hnames)]
    | cast front part =>
      rw [hview] at hviewed hviewed'
      obtain ⟨_, operand, htype, hoperand, heq, rfl, rfl⟩ := hviewed
      obtain ⟨type', operand', htype', hoperand', rfl, hnames, hoperands⟩ := hviewed'
      cases heq
      have htypes : type = type' := TypeRef.display_inj htype htype' (String.toList_injective (ofName_inj hnames))
      have hoperands := ih operand (by simp) hoperand hoperand' hoperands
      simp [cast, unmarked_eq, Form.unmarked, htypes, hoperands]
    | paren part =>
      rw [hview] at hviewed hviewed'
      obtain ⟨operand, hoperand, heq, rfl⟩ := hviewed
      obtain ⟨operand', hoperand', rfl, hoperands⟩ := hviewed'
      cases heq
      have hoperands := ih operand (by simp) hoperand hoperand' hoperands
      simp [paren, unmarked_eq, Form.unmarked, hoperands, type_eq_of_unmarked hoperands]
    | not part =>
      rw [hview] at hviewed hviewed'
      obtain ⟨operand, hoperand, heq, rfl⟩ := hviewed
      obtain ⟨operand', hoperand', rfl, hoperands⟩ := hviewed'
      cases heq
      have hoperands := ih operand (by simp) hoperand hoperand' hoperands
      simp [unary, unmarked_eq, Form.unmarked, hoperands, type_eq_of_unmarked hoperands]
    | negate part =>
      rw [hview] at hviewed hviewed'
      obtain ⟨operand, hoperand, heq, rfl⟩ := hviewed
      obtain ⟨operand', hoperand', rfl, hoperands⟩ := hviewed'
      cases heq
      have hoperands := ih operand (by simp) hoperand hoperand' hoperands
      simp [unary, unmarked_eq, Form.unmarked, hoperands, type_eq_of_unmarked hoperands]
    | binary first symbol second =>
      rw [hview] at hviewed hviewed'
      obtain ⟨op, left, right, resultType, hleft, hright, hresult, heq, rfl, rfl, rfl⟩ := hviewed
      obtain ⟨op', left', right', resultType', hleft', hright', hresult', rfl, hlefts, hsymbols, hrights⟩ :=
        hviewed'
      cases heq
      have hlefts := ih left (by simp) hleft hleft' hlefts
      have hrights := ih right (by simp) hright hright' hrights
      obtain rfl := symbol_injective (String.toList_injective hsymbols)
      rw [type_eq_of_unmarked hlefts, type_eq_of_unmarked hrights, hresult'] at hresult
      cases hresult
      simp [binary, unmarked_eq, Form.unmarked, hlefts, hrights]
    | conditional first second third =>
      rw [hview] at hviewed hviewed'
      obtain ⟨test, ifTrue, ifFalse, resultType, htest, htrue, hfalse, hresult, heq, rfl, rfl, rfl⟩ := hviewed
      obtain ⟨test', ifTrue', ifFalse', resultType', htest', htrue', hfalse', hresult', rfl, htests, htrues,
        hfalses⟩ := hviewed'
      cases heq
      have htests := ih test (by simp) htest htest' htests
      have htrues := ih ifTrue (by simp) htrue htrue' htrues
      have hfalses := ih ifFalse (by simp) hfalse hfalse' hfalses
      rw [type_eq_of_unmarked htrues, type_eq_of_unmarked hfalses, hresult'] at hresult
      cases hresult
      simp [conditional, unmarked_eq, Form.unmarked, htests, htrues, hfalses]
    | coalesce first second =>
      rw [hview] at hviewed hviewed'
      obtain ⟨left, right, resultType, hleft, hright, hresult, heq, rfl, rfl⟩ := hviewed
      obtain ⟨left', right', resultType', hleft', hright', hresult', rfl, hlefts, hrights⟩ := hviewed'
      cases heq
      have hlefts := ih left (by simp) hleft hleft' hlefts
      have hrights := ih right (by simp) hright hright' hrights
      rw [type_eq_of_unmarked hlefts, type_eq_of_unmarked hrights, hresult'] at hresult
      simp [coalesce, unmarked_eq, Form.unmarked, hlefts, hrights, hresult]

/-- Well-formed expressions with the same key are the same up to markers. -/
theorem unmarked_eq_of_key (hρ : ρ.Separated) (h : Formed ρ e) (h' : Formed ρ e') (hkey : e.key = e'.key) :
    e.unmarked = e'.unmarked := by
  refine unmarked_eq_of_pieces hρ h h' (writeAll_inj (h.tidy hρ).proper (h'.tidy hρ).proper ?_)
  rw [← h.toList_key hρ, hkey, h'.toList_key hρ]

theorem Formed.operands (hρ : ρ.Separated) (h : Formed ρ e) : ∀ o ∈ e.operands, Formed ρ o := by
  cases h with
  | leaf h => simp [hρ.leaf_operands h]
  | text | typeOf | default => exact fun o ho => absurd ho List.not_mem_nil
  | create hname hargs => exact hargs
  | element marker htarget hargs h => exact List.forall_mem_cons.mpr ⟨htarget, hargs⟩
  | call nullSafe htarget hargs hname h => exact List.forall_mem_cons.mpr ⟨htarget, hargs⟩
  | member marker nullSafe he h | cast he h | paren he | not he | negate he h =>
    exact List.forall_mem_singleton.mpr he
  | binary hleft hright h | coalesce hleft hright h | fallback _ hleft hright =>
    exact List.forall_mem_cons.mpr ⟨hleft, List.forall_mem_singleton.mpr hright⟩
  | conditional htest htrue hfalse h =>
    exact List.forall_mem_cons.mpr ⟨htest, List.forall_mem_cons.mpr ⟨htrue, List.forall_mem_singleton.mpr hfalse⟩⟩

theorem Formed.of_mem_nodes (hρ : ρ.Separated) {e n : Expr} (h : Formed ρ e) (hn : n ∈ e.nodes) :
    Formed ρ n := by
  induction e using Expr.induction with
  | node form type operands ih =>
    rcases mem_nodes.mp hn with rfl | ⟨o, ho, hn⟩
    · exact h
    · exact ih o ho (h.operands hρ o ho) hn

end Expr

/-! ## Rules with one more variable -/

/-- The rules with a variable that has given fields and no other members. -/
def Rules.withVariable (ρ : Rules) (name : String) (type : TypeRef) (fields : Member → Prop) : Rules where
  registry := ρ.registry
  leaf e := ρ.leaf e ∨ e = .var name type
  member e m := ρ.member e m ∧ e ≠ .var name type ∨ e = .var name type ∧ fields m

namespace Rules

variable {ρ : Rules} {name : String} {type : TypeRef} {fields : Member → Prop}

theorem eq_var_of_unmarked {e : Expr} (h : e.unmarked = .var name type) : e = .var name type := by
  obtain ⟨form, t, operands⟩ := e
  rw [Expr.unmarked_eq] at h
  obtain ⟨hform, rfl, hoperands⟩ := Expr.mk.inj h
  rw [List.map_eq_nil_iff.mp hoperands]
  cases form <;> simp_all [Form.unmarked, Expr.var]

variable (hρ : ρ.Separated) (hname : IsWord name) (hapart : ∀ e, ρ.leaf e → ¬ Extends e.key name)
include hρ hname hapart

/-- The variable can be told apart from what the rules allow. -/
theorem separated_withVariable (hword : ∀ m, fields m → IsWord m.name)
    (hfields : ∀ m m', fields m → fields m' → m.name = m'.name → m = m') :
    (ρ.withVariable name type fields).Separated where
  leaf_operands := by
    rintro e (h | rfl)
    · exact hρ.leaf_operands h
    · rfl
  leaf_pieces := by
    rintro e (h | rfl)
    · exact hρ.leaf_pieces h
    · rfl
  leaf_opens := by
    rintro e (h | rfl)
    · exact hρ.leaf_opens h
    · obtain ⟨c, cs, hcs⟩ := List.exists_cons_of_ne_nil hname.ne_nil
      change Opens (chars name.toList)
      rw [hcs]
      exact .name (hname.chars c (by simp [hcs]))
  leaf_chars := by
    rintro e (h | rfl)
    · exact hρ.leaf_chars h
    · exact fun c hc => Or.inl (hname.chars c hc)
  leaf_inj := by
    rintro e e' (h | rfl) (h' | rfl) hkey
    · exact hρ.leaf_inj h h' hkey
    · exact absurd (Or.inl hkey) (hapart e h)
    · exact absurd (Or.inl hkey.symm) (hapart e' h')
    · rfl
  member_name := by
    rintro e m (⟨h, -⟩ | ⟨-, h⟩)
    · exact hρ.member_name h
    · exact hword m h
  member_inj := by
    rintro e e' m m' (⟨h, hne⟩ | ⟨rfl, h⟩) (⟨h', hne'⟩ | ⟨rfl, h'⟩) he hm
    · exact hρ.member_inj h h' he hm
    · exact absurd (eq_var_of_unmarked he) hne
    · exact absurd (eq_var_of_unmarked he.symm) hne'
    · exact hfields m m' h h' hm
  apart := by
    intro e e' m he hm he' hext
    rcases he' with he' | rfl
    · rcases hm with ⟨h, hne⟩ | ⟨rfl, -⟩
      · exact hρ.apart (he.resolve_right hne) h he' hext
      · exact hapart e' he' hext.of_access
    · have hmem : '.' ∈ name.toList := hext.prefix.subset (by simp)
      exact hname.not_mem (by decide) hmem

omit hρ hname in
theorem transfers_withVariable (n : Expr) : Expr.Formed.Transfers ρ (ρ.withVariable name type fields) n := by
  refine ⟨Or.inl, fun m hn hm => Or.inl ⟨hm, ?_⟩⟩
  rintro rfl
  cases hn with
  | leaf h => exact hapart _ h (Or.inl rfl)

end Rules

end DataBinding
