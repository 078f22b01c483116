import DataBinding.Proofs.Text.Offsets
import DataBinding.Token.Lexer
import Mathlib.Data.List.DropRight
import Mathlib.Data.List.Forall2

/-!
# Tokens before an ending

A text without faults is read into the same tokens whatever comes behind it, as long as that starts with
a blank or a comma. No token is read across such an ending, and the tokens of the ending follow those of
the text.
-/
namespace DataBinding
open Text

namespace Token

/-- The tokens differ at most in their places. -/
structure Same (t₁ t₂ : Token) : Prop where
  kind : t₁.kind = t₂.kind
  text : t₁.text = t₂.text

namespace Same

theorem refl (t : Token) : t.Same t := ⟨rfl, rfl⟩

variable {t₁ t₂ : Token} (h : t₁.Same t₂)
include h

theorem isSymbol (text : String) : t₁.isSymbol text = t₂.isSymbol text := by
  simp [Token.isSymbol, h.kind, h.text]

theorem isKeyword (text : String) : t₁.isKeyword text = t₂.isKeyword text := by
  simp [Token.isKeyword, h.kind, h.text]

theorem word : t₁.word = t₂.word := by simp [Token.word, h.kind, h.text]

end Same

end Token

namespace TokenStream

def prepend (ts : List Token) (s : TokenStream) : TokenStream := ts.foldr .token s

@[simp] theorem prepend_nil (s : TokenStream) : prepend [] s = s := rfl

@[simp] theorem prepend_cons (t : Token) (ts : List Token) (s : TokenStream) :
    prepend (t :: ts) s = .token t (prepend ts s) := rfl

@[simp] theorem size_prepend (ts : List Token) (s : TokenStream) :
    (prepend ts s).size = ts.length + s.size := by
  induction ts with
  | nil => simp
  | cons t ts ih =>
    simp only [prepend_cons, size, ih, List.length_cons]
    omega

/-- No fault comes before the end. -/
def Faultless (s : TokenStream) : Prop := s.toList.2 = none

@[simp] theorem faultless_token (t : Token) (s : TokenStream) : Faultless (.token t s) ↔ s.Faultless :=
  Iff.rfl

end TokenStream

namespace Lexer

/-! ## Characters that end tokens -/

def blankCodes : List Nat :=
  [0x20, 0x09, 0x0A, 0x0B, 0x0C, 0x0D, 0x85, 0xA0, 0x1680, 0x2000, 0x2001, 0x2002, 0x2003, 0x2004,
   0x2005, 0x2006, 0x2007, 0x2008, 0x2009, 0x200A, 0x2028, 0x2029, 0x202F, 0x205F, 0x3000]

theorem toNat_mem_blankCodes {c : Char} (h : isBlank c = true) : c.toNat ∈ blankCodes := by
  unfold isBlank at h
  split at h
  · simp only [Bool.or_eq_true, beq_iff_eq, Bool.and_eq_true, decide_eq_true_eq] at h
    rcases h with rfl | h
    · decide
    · simp only [blankCodes, List.mem_cons, List.not_mem_nil, or_false]
      omega
  · simp only [inTable, blankTable, List.any_cons, List.any_nil, CodeRange.contains, Bool.or_eq_true,
      Bool.and_eq_true, decide_eq_true_eq, Bool.false_eq_true, or_false] at h
    simp only [blankCodes, List.mem_cons, List.not_mem_nil, or_false]
    omega

/-- Nothing, a blank or a comma comes first. -/
def Breaks (ending : List Char) : Prop := ∀ c ∈ ending.head?, isBlank c = true ∨ c = ','

theorem breaks_nil : Breaks [] := by simp [Breaks]

theorem breaks_comma (rest : List Char) : Breaks (',' :: rest) := by simp [Breaks]

/-- No token goes on with the first character of an ending. -/
theorem Breaks.head {ending : List Char} (h : Breaks ending) {c : Char} (hc : ending.head? = some c) :
    isNameChar c = false ∧ c.isDigit = false ∧ suffixes.contains c = false ∧ c ≠ '.' ∧
      ∀ d, pairs.contains [d, c] = false := by
  have hall : (0x2C :: blankCodes).all fun n =>
      let c := Char.ofNat n
      !isNameChar c && !c.isDigit && !suffixes.contains c && c != '.' &&
        pairs.all fun pair => pair.tail != [c] := by decide +kernel
  have hmem : c.toNat ∈ 0x2C :: blankCodes := by
    rcases h c hc with hb | rfl
    · exact List.mem_cons_of_mem _ (toNat_mem_blankCodes hb)
    · decide
  have hc := List.all_eq_true.mp hall c.toNat hmem
  rw [Char.ofNat_toNat] at hc
  simp only [Bool.and_eq_true, Bool.not_eq_true', bne_iff_ne, ne_eq] at hc
  obtain ⟨⟨⟨⟨hn, hd⟩, hs⟩, hp⟩, hpairs⟩ := hc
  refine ⟨hn, hd, hs, hp, fun d => ?_⟩
  by_contra hcontains
  have hmem : [d, c] ∈ pairs := by simpa using hcontains
  have := List.all_eq_true.mp hpairs _ hmem
  simp at this

/-! ## Tokens at the front of a text -/

/-- What is read at the front of a text: a token, the number of quotes on either side of it, and what
follows. -/
structure Lexeme where
  kind : TokenKind
  text : List Char
  quotes : Nat
  rest : List Char

namespace Lexeme

def token (l : Lexeme) (start : Nat) : Token :=
  ⟨l.kind, String.ofList l.text, start + l.quotes, start + l.quotes + byteLength l.text⟩

def stop (l : Lexeme) (start : Nat) : Nat := start + 2 * l.quotes + byteLength l.text

def followedBy (l : Lexeme) (ending : List Char) : Lexeme := { l with rest := l.rest ++ ending }

@[simp] theorem token_followedBy (l : Lexeme) (ending : List Char) (start : Nat) :
    (l.followedBy ending).token start = l.token start := rfl

@[simp] theorem stop_followedBy (l : Lexeme) (ending : List Char) (start : Nat) :
    (l.followedBy ending).stop start = l.stop start := rfl

end Lexeme

/-- The first token of a text with no blank in front, if there is no fault. -/
def lexeme? (c : Char) (cs : List Char) : Option Lexeme :=
  if c = '"' || c = '\'' then
    (StringLiteral.body? c cs).map fun (body, rest) => ⟨.string, body, 1, rest⟩
  else if c.isDigit then
    if (number (c :: cs)).2.head?.any isNameChar then none
    else some ⟨.number, (number (c :: cs)).1, 0, (number (c :: cs)).2⟩
  else if isAlphabetic c || c = '_' then
    some ⟨.ident, (c :: cs).takeWhile isNameChar, 0, (c :: cs).dropWhile isNameChar⟩
  else if pairs.contains (c :: cs.take 1) then some ⟨.symbol, c :: cs.take 1, 0, cs.drop 1⟩
  else if singles.contains c then some ⟨.symbol, [c], 0, cs⟩
  else none

theorem lexeme?_of_mem_singles {c : Char} (hc : c ∈ singles) (tail : List Char) :
    ∃ l, lexeme? c tail = some l ∧ l.kind = .symbol ∧ l.text.head? = some c := by
  have hall : singles.all (fun c => !(c = '"' || c = '\'') && !c.isDigit && !(isAlphabetic c || c = '_')) =
      true := by decide
  have hother := List.all_eq_true.mp hall c hc
  simp only [Bool.and_eq_true, Bool.not_eq_true'] at hother
  obtain ⟨⟨hquote, hdigit⟩, hletter⟩ := hother
  have hsingle : singles.contains c = true := by simpa using hc
  unfold lexeme?
  rw [hquote, hdigit, hletter, if_neg (by decide), if_neg (by decide), if_neg (by decide)]
  rw [hsingle]
  split
  · exact ⟨_, rfl, rfl, rfl⟩
  · exact ⟨_, rfl, rfl, rfl⟩

theorem fraction_eq (cs : List Char) : (fraction cs).1 ++ (fraction cs).2 = cs := by
  fun_cases fraction cs with
  | case1 d cs hd => simp
  | case2 | case3 => rfl

theorem typeSuffix_eq (cs : List Char) : (typeSuffix cs).1 ++ (typeSuffix cs).2 = cs := by
  cases cs with
  | nil => rfl
  | cons c cs =>
    simp only [typeSuffix]
    split <;> rfl

theorem number_eq (cs : List Char) : (number cs).1 ++ (number cs).2 = cs := by
  simp only [number, List.append_assoc]
  rw [typeSuffix_eq, fraction_eq, List.takeWhile_append_dropWhile]

section Tokens

variable {bound offset : Nat} {c : Char} {cs tail : List Char}

theorem tokensFrom_of_blank (h : cs.dropWhile isBlank = []) :
    tokensFrom (bound + 1) offset cs = .eof (offset + byteLength (cs.takeWhile isBlank)) := by
  simp only [tokensFrom, h]

theorem tokensFrom_of_lexeme {l : Lexeme} (h : cs.dropWhile isBlank = c :: tail)
    (hl : lexeme? c tail = some l) :
    tokensFrom (bound + 1) offset cs =
      let start := offset + byteLength (cs.takeWhile isBlank)
      .token (l.token start) (tokensFrom bound (l.stop start) l.rest) := by
  simp only [tokensFrom, h]
  revert hl
  fun_cases lexeme? c tail with
  | case1 hquote =>
    intro hl
    obtain ⟨⟨body, rest⟩, hbody, rfl⟩ := Option.map_eq_some_iff.mp hl
    simp only [hquote, hbody, Lexeme.token, Lexeme.stop, if_true]
    congr 2
    omega
  | case2 | case7 => simp
  | case3 | case4 | case5 | case6 =>
    rintro ⟨⟩
    simp_all [Lexeme.token, Lexeme.stop]

variable (bound offset) in
/-- A fault is passed over or comes back every time. -/
theorem tokensFrom_of_fault (h : cs.dropWhile isBlank = c :: tail) (hl : lexeme? c tail = none) :
    (∃ fault, tokensFrom (bound + 1) offset cs = .stuck fault) ∨
      (∃ fault stop, offset ≤ stop ∧ tokensFrom (bound + 1) offset cs = .skip fault (.eof stop)) ∨
        ∃ fault front rest, c :: tail = front ++ rest ∧
          tokensFrom (bound + 1) offset cs =
            .skip fault (tokensFrom bound (offset + byteLength (cs.takeWhile isBlank) + byteLength front) rest) := by
  simp only [tokensFrom, h]
  revert hl
  fun_cases lexeme? c tail with
  | case1 hquote =>
    intro hl
    simp only [hquote, Option.map_eq_none_iff.mp hl, if_true]
    exact Or.inr (Or.inl ⟨_, _, by omega, rfl⟩)
  | case2 hquote hdigit hname =>
    intro _
    refine Or.inr (Or.inr ?_)
    simp only [hquote, hdigit, hname, if_true]
    exact ⟨_, _, _, (number_eq (c :: tail)).symm, rfl⟩
  | case3 | case4 | case5 | case6 => simp
  | case7 hquote hdigit hletter hpair hsingle =>
    intro _
    rw [if_neg hquote, if_neg hdigit, if_neg hletter, if_neg hpair, if_neg hsingle]
    exact Or.inl ⟨_, rfl⟩

end Tokens

/-! ## What follows a token -/

theorem takeWhile_append_of_head {p : Char → Bool} {ending : List Char}
    (h : ∀ c ∈ ending.head?, p c = false) (cs : List Char) :
    (cs ++ ending).takeWhile p = cs.takeWhile p := by
  induction cs with
  | nil => cases ending <;> simp_all
  | cons c cs ih => by_cases hc : p c <;> simp [hc, ih]

theorem dropWhile_append_of_head {p : Char → Bool} {ending : List Char}
    (h : ∀ c ∈ ending.head?, p c = false) (cs : List Char) :
    (cs ++ ending).dropWhile p = cs.dropWhile p ++ ending := by
  induction cs with
  | nil => cases ending <;> simp_all
  | cons c cs ih => by_cases hc : p c <;> simp [hc, ih]

theorem body?_append {quote : Char} {cs body rest : List Char} (ending : List Char)
    (h : StringLiteral.body? quote cs = some (body, rest)) :
    StringLiteral.body? quote (cs ++ ending) = some (body, rest ++ ending) := by
  fun_induction StringLiteral.body? quote cs generalizing body rest with
  | case1 | case2 => cases h
  | case3 c cs ih =>
    obtain ⟨⟨body, rest⟩, hbody, heq⟩ := Option.map_eq_some_iff.mp h
    cases heq
    simp [StringLiteral.body?, ih hbody]
  | case4 cs h₁ h₂ =>
    cases h
    have hquote : quote ≠ '\\' := by
      rintro rfl
      cases cs <;> simp_all
    simp [StringLiteral.body?, hquote]
  | case5 c cs h₁ h₂ hc ih =>
    have hslash : c ≠ '\\' := by
      rintro rfl
      cases cs <;> simp_all
    obtain ⟨⟨body, rest⟩, hbody, heq⟩ := Option.map_eq_some_iff.mp h
    cases heq
    simp [StringLiteral.body?, hc, hslash, ih hbody]

section Endings

variable {ending : List Char} (hending : Breaks ending)
include hending

theorem fraction_append (cs : List Char) :
    fraction (cs ++ ending) = ((fraction cs).1, (fraction cs).2 ++ ending) := by
  have hdigit : ∀ c ∈ ending.head?, c.isDigit = false := fun c hc => (hending.head hc).2.1
  fun_cases fraction cs with
  | case1 d cs hd =>
    have ht := takeWhile_append_of_head hdigit (d :: cs)
    have hr := dropWhile_append_of_head hdigit (d :: cs)
    rw [List.cons_append] at ht hr
    simp [fraction, hd, ht, hr]
  | case2 d cs hd => simp [fraction, hd]
  | case3 cs hcs =>
    cases cs with
    | nil =>
      cases ending with
      | nil => rfl
      | cons c ending =>
        have hpoint : c ≠ '.' := (hending.head rfl).2.2.2.1
        simp [fraction, hpoint]
    | cons c cs =>
      by_cases hpoint : c = '.'
      · subst hpoint
        cases cs with
        | nil =>
          cases ending with
          | nil => rfl
          | cons d ending => simp [fraction, hdigit d rfl]
        | cons d cs => exact absurd rfl (hcs d cs)
      · simp [fraction, hpoint]

theorem typeSuffix_append (cs : List Char) :
    typeSuffix (cs ++ ending) = ((typeSuffix cs).1, (typeSuffix cs).2 ++ ending) := by
  cases cs with
  | nil =>
    cases ending with
    | nil => rfl
    | cons c ending =>
      have hsuffix : suffixes.contains c = false := (hending.head rfl).2.2.1
      simp only [typeSuffix, List.nil_append, hsuffix]
      rfl
  | cons c cs =>
    simp only [List.cons_append, typeSuffix]
    split <;> rfl

theorem number_append (cs : List Char) :
    number (cs ++ ending) = ((number cs).1, (number cs).2 ++ ending) := by
  have hdigit : ∀ c ∈ ending.head?, c.isDigit = false := fun c hc => (hending.head hc).2.1
  simp only [number, takeWhile_append_of_head hdigit, dropWhile_append_of_head hdigit,
    fraction_append hending, typeSuffix_append hending]

theorem lexeme?_append {c : Char} {tail : List Char} {l : Lexeme} (h : lexeme? c tail = some l) :
    lexeme? c (tail ++ ending) = some (l.followedBy ending) := by
  have hname : ∀ c ∈ ending.head?, isNameChar c = false := fun c hc => (hending.head hc).1
  have hnumber := number_append hending (c :: tail)
  have ht := takeWhile_append_of_head hname (c :: tail)
  have hr := dropWhile_append_of_head hname (c :: tail)
  rw [List.cons_append] at hnumber ht hr
  revert h
  fun_cases lexeme? c tail with
  | case1 hquote =>
    intro h
    obtain ⟨⟨body, rest⟩, hbody, rfl⟩ := Option.map_eq_some_iff.mp h
    simp [lexeme?, hquote, body?_append ending hbody, Lexeme.followedBy]
  | case2 | case7 => simp
  | case3 hquote hdigit hhead =>
    rintro ⟨⟩
    have hhead' : ((number (c :: tail)).2.head?.or ending.head?).any isNameChar = false := by
      cases hn : (number (c :: tail)).2.head? with
      | none => cases he : ending.head? <;> simp_all
      | some d => simp_all
    simp [lexeme?, hquote, hdigit, hnumber, hhead', Lexeme.followedBy]
  | case4 hquote hdigit hletter =>
    rintro ⟨⟩
    simp [lexeme?, hquote, hdigit, hletter, ht, hr, Lexeme.followedBy]
  | case5 hquote hdigit hletter hpair =>
    rintro ⟨⟩
    cases tail with
    | nil => simp [pairs] at hpair
    | cons d tail => simp_all [lexeme?, Lexeme.followedBy]
  | case6 hquote hdigit hletter hpair hsingle =>
    rintro ⟨⟩
    have hpair' : pairs.contains (c :: (tail ++ ending).take 1) = false := by
      cases tail with
      | cons d tail => simpa using hpair
      | nil =>
        cases ending with
        | nil => simpa using hpair
        | cons d ending => simpa using (hending.head rfl).2.2.2.2 c
    simp only [lexeme?, hquote, hdigit, hletter, hpair', hsingle, Lexeme.followedBy]
    simp

end Endings

/-! ## Places of tokens -/

theorem body?_eq {quote : Char} {cs body rest : List Char}
    (h : StringLiteral.body? quote cs = some (body, rest)) : cs = body ++ quote :: rest := by
  fun_induction StringLiteral.body? quote cs generalizing body rest with
  | case1 | case2 => cases h
  | case3 c cs ih =>
    obtain ⟨⟨body, rest⟩, hbody, heq⟩ := Option.map_eq_some_iff.mp h
    cases heq
    simp [ih hbody]
  | case4 cs =>
    cases h
    rfl
  | case5 c cs _ _ _ ih =>
    obtain ⟨⟨body, rest⟩, hbody, heq⟩ := Option.map_eq_some_iff.mp h
    cases heq
    simp [ih hbody]

/-- A token and the quotes around it make up the text in front of what follows. -/
theorem lexeme?_eq {c : Char} {tail : List Char} {l : Lexeme} (h : lexeme? c tail = some l) :
    (l.quotes = 0 ∧ c :: tail = l.text ++ l.rest ∧ l.text ≠ []) ∨
      (l.quotes = 1 ∧ c.utf8Size = 1 ∧ tail = l.text ++ c :: l.rest) := by
  revert h
  fun_cases lexeme? c tail with
  | case1 hquote =>
    intro h
    obtain ⟨⟨body, rest⟩, hbody, rfl⟩ := Option.map_eq_some_iff.mp h
    have hsize : c.utf8Size = 1 := by
      simp only [Bool.or_eq_true, decide_eq_true_eq] at hquote
      rcases hquote with rfl | rfl <;> decide
    exact Or.inr ⟨rfl, hsize, body?_eq hbody⟩
  | case2 | case7 => simp
  | case3 hquote hdigit =>
    rintro ⟨⟩
    exact Or.inl ⟨rfl, (number_eq _).symm, by simp [number, hdigit]⟩
  | case4 hquote hdigit hletter =>
    rintro ⟨⟩
    have hname : isNameChar c = true := by
      simp only [Bool.or_eq_true, decide_eq_true_eq] at hletter
      rcases hletter with hletter | rfl
      · simp [isNameChar, hletter]
      · decide
    exact Or.inl ⟨rfl, List.takeWhile_append_dropWhile.symm, by simp [hname]⟩
  | case5 =>
    rintro ⟨⟩
    exact Or.inl ⟨rfl, by rw [List.cons_append, List.take_append_drop], by simp⟩
  | case6 =>
    rintro ⟨⟩
    exact Or.inl ⟨rfl, rfl, by simp⟩

theorem stop_add_rest {c : Char} {tail : List Char} {l : Lexeme} (h : lexeme? c tail = some l)
    (start : Nat) : l.stop start + byteLength l.rest = start + byteLength (c :: tail) := by
  unfold Lexeme.stop
  rcases lexeme?_eq h with ⟨hq, heq, -⟩ | ⟨hq, hsize, heq⟩
  · rw [heq, byteLength_append, hq]
    omega
  · rw [heq, byteLength, byteLength_append, byteLength, hq, hsize]
    omega

theorem start_lt_stop {c : Char} {tail : List Char} {l : Lexeme} (h : lexeme? c tail = some l)
    (start : Nat) : (l.token start).start < l.stop start := by
  simp only [Lexeme.token, Lexeme.stop]
  rcases lexeme?_eq h with ⟨hq, -, hne⟩ | ⟨hq, -, -⟩
  · have hpos : 0 < byteLength l.text := by
      obtain ⟨d, ds, hd⟩ := List.exists_cons_of_ne_nil hne
      have := d.utf8Size_pos
      rw [hd, byteLength]
      omega
    omega
  · omega

theorem length_rest_lt {c : Char} {tail : List Char} {l : Lexeme} (h : lexeme? c tail = some l) :
    l.rest.length < (c :: tail).length := by
  rcases lexeme?_eq h with ⟨-, heq, hne⟩ | ⟨-, -, heq⟩
  · have := List.length_pos_iff.mpr hne
    rw [heq, List.length_append]
    omega
  · rw [heq]
    simp
    omega

theorem kind_ne_eof {c : Char} {tail : List Char} {l : Lexeme} (h : lexeme? c tail = some l) :
    l.kind ≠ .eof := by
  revert h
  fun_cases lexeme? c tail with
  | case1 =>
    intro h
    obtain ⟨⟨body, rest⟩, -, rfl⟩ := Option.map_eq_some_iff.mp h
    simp
  | case2 | case7 => simp
  | case3 | case4 | case5 | case6 =>
    rintro ⟨⟩
    simp

end Lexer

namespace TokenStream

/-- Every token of the stream has the first property, and the place of its end has the second. -/
def All (P : Token → Prop) (Q : Nat → Prop) : TokenStream → Prop
  | .eof offset => Q offset
  | .stuck _ => True
  | .skip _ rest => rest.All P Q
  | .token head rest => P head ∧ rest.All P Q

end TokenStream

namespace Lexer

/-- What holds of all tokens at the front of a text holds of all tokens in it. -/
theorem tokensFrom_all {P : Token → Prop} {Q : Nat → Prop} (bound offset : Nat) (cs : List Char)
    (hP : ∀ c tail l start, offset ≤ start → lexeme? c tail = some l → P (l.token start))
    (hQ : ∀ stop, offset ≤ stop → Q stop) :
    (tokensFrom bound offset cs).All P Q := by
  induction bound generalizing offset cs with
  | zero => exact hQ offset (Nat.le_refl _)
  | succ bound ih =>
    have hlater : ∀ next rest, offset ≤ next → (tokensFrom bound next rest).All P Q :=
      fun next rest hle => ih next rest
        (fun c tail l start hstart => hP c tail l start (Nat.le_trans hle hstart))
        (fun stop hstop => hQ stop (Nat.le_trans hle hstop))
    cases hcs : cs.dropWhile isBlank with
    | nil =>
      rw [tokensFrom_of_blank hcs]
      exact hQ _ (by omega)
    | cons c tail =>
      cases hl : lexeme? c tail with
      | some l =>
        rw [tokensFrom_of_lexeme hcs hl]
        have hstop := start_lt_stop hl (offset + byteLength (cs.takeWhile isBlank))
        simp only [Lexeme.token] at hstop
        exact ⟨hP c tail l _ (by omega) hl, hlater _ _ (by omega)⟩
      | none =>
        rcases tokensFrom_of_fault bound offset hcs hl with
          ⟨fault, heq⟩ | ⟨fault, stop, hle, heq⟩ | ⟨fault, front, rest, -, heq⟩
        · rw [heq]
          trivial
        · rw [heq]
          exact hQ stop hle
        · rw [heq]
          exact hlater _ _ (by omega)

/-- Blanks only move what comes behind them. -/
theorem tokensFrom_blanks {bound offset : Nat} {blanks rest : List Char}
    (h : blanks.dropWhile isBlank = []) (hbound : (blanks ++ rest).length ≤ bound) :
    tokensFrom bound offset (blanks ++ rest) = tokensFrom bound (offset + byteLength blanks) rest := by
  cases bound with
  | zero =>
    obtain ⟨rfl, rfl⟩ : blanks = [] ∧ rest = [] := by simpa using hbound
    rfl
  | succ bound =>
    have hall : blanks.takeWhile isBlank = blanks := by
      simpa [h] using List.takeWhile_append_dropWhile (p := isBlank) (l := blanks)
    have hdrop : (blanks ++ rest).dropWhile isBlank = rest.dropWhile isBlank := by
      simp [List.dropWhile_append, h]
    have htake : (blanks ++ rest).takeWhile isBlank = blanks ++ rest.takeWhile isBlank := by
      simp [List.takeWhile_append, hall]
    simp only [tokensFrom, hdrop, htake, byteLength_append, Nat.add_assoc]

/-! ## Texts without faults -/

/-- The text is made up of tokens and blanks. -/
inductive Lexes : List Char → Prop where
  | blank {u : List Char} (h : u.dropWhile isBlank = []) : Lexes u
  | lexeme {u tail : List Char} {c : Char} {l : Lexeme} (h : u.dropWhile isBlank = c :: tail)
    (hl : lexeme? c tail = some l) (hrest : Lexes l.rest) : Lexes u

theorem lexes_of_faultless {bound offset : Nat} {u : List Char} (hbound : u.length ≤ bound)
    (h : (tokensFrom bound offset u).Faultless) : Lexes u := by
  induction bound generalizing offset u with
  | zero =>
    obtain rfl : u = [] := by simpa using hbound
    exact .blank rfl
  | succ bound ih =>
    cases hu : u.dropWhile isBlank with
    | nil => exact .blank hu
    | cons c tail =>
      cases hl : lexeme? c tail with
      | none =>
        rcases tokensFrom_of_fault bound offset hu hl with
          ⟨fault, heq⟩ | ⟨fault, stop, -, heq⟩ | ⟨fault, front, rest, -, heq⟩ <;>
        simp [heq, TokenStream.Faultless, TokenStream.toList] at h
      | some l =>
        have hrest := length_rest_lt hl
        have hdrop := (List.dropWhile_suffix isBlank (l := u)).length_le
        rw [hu] at hdrop
        rw [tokensFrom_of_lexeme hu hl, TokenStream.faultless_token] at h
        exact .lexeme hu hl (ih (by omega) h)

/-- The tokens of a text without faults, in front of any ending and with the text anywhere. -/
theorem Lexes.exists_tokens {u : List Char} (h : Lexes u) :
    ∃ ts : Nat → List Token, (∀ offset, ∀ t ∈ ts offset, t.kind ≠ .eof ∧ t.start < offset + byteLength u) ∧
      (∀ offset offset', List.Forall₂ Token.Same (ts offset) (ts offset')) ∧
      ∀ bound offset ending, Breaks ending → (u ++ ending).length ≤ bound → ∃ k, ending.length ≤ k ∧
        tokensFrom bound offset (u ++ ending) =
          .prepend (ts offset) (tokensFrom k (offset + byteLength u) ending) := by
  induction h with
  | @blank u hu =>
    refine ⟨fun _ => [], by simp, fun _ _ => .nil, fun bound offset ending _ hle => ⟨bound, ?_, ?_⟩⟩
    · rw [List.length_append] at hle
      omega
    · exact tokensFrom_blanks hu hle
  | @lexeme u tail c l hu hl _ ih =>
    obtain ⟨ts, hts, hsame, htokens⟩ := ih
    have hsplit : u = u.takeWhile isBlank ++ c :: tail := by
      rw [← hu, List.takeWhile_append_dropWhile]
    have hbytes : byteLength u = byteLength (u.takeWhile isBlank) + byteLength (c :: tail) := by
      rw [← byteLength_append, ← hsplit]
    have hlength : u.length = (u.takeWhile isBlank).length + (c :: tail).length := by
      rw [← List.length_append, ← hsplit]
    have hstop := fun offset => stop_add_rest hl (offset + byteLength (u.takeWhile isBlank))
    refine ⟨fun offset => l.token (offset + byteLength (u.takeWhile isBlank)) ::
      ts (l.stop (offset + byteLength (u.takeWhile isBlank))), ?_, ?_, ?_⟩
    · intro offset t ht
      have hstart := start_lt_stop hl (offset + byteLength (u.takeWhile isBlank))
      have hoffset := hstop offset
      rcases List.mem_cons.mp ht with rfl | ht
      · exact ⟨kind_ne_eof hl, by omega⟩
      · have := hts _ t ht
        exact ⟨this.1, by omega⟩
    · intro offset offset'
      exact .cons ⟨rfl, rfl⟩ (hsame _ _)
    · intro bound offset ending hbreaks hle
      have hrest := length_rest_lt hl
      obtain ⟨bound, rfl⟩ : ∃ b, bound = b + 1 := by
        refine ⟨bound - 1, ?_⟩
        rw [List.length_append] at hle
        simp only [List.length_cons] at hlength
        omega
      have hdrop : (u ++ ending).dropWhile isBlank = c :: (tail ++ ending) := by
        simp [List.dropWhile_append, hu]
      have htake : (u ++ ending).takeWhile isBlank = u.takeWhile isBlank := by
        have hlt : (u.takeWhile isBlank).length ≠ u.length := by
          simp only [List.length_cons] at hlength
          omega
        simp [List.takeWhile_append, hlt]
      obtain ⟨k, hk, heq⟩ := htokens bound (l.stop (offset + byteLength (u.takeWhile isBlank))) ending
        hbreaks (by
          simp only [List.length_append, List.length_cons] at *
          omega)
      refine ⟨k, hk, ?_⟩
      rw [tokensFrom_of_lexeme hdrop (lexeme?_append hbreaks hl), htake]
      simp only [Lexeme.token_followedBy, Lexeme.stop_followedBy, TokenStream.prepend_cons]
      rw [hbytes, ← Nat.add_assoc, ← hstop]
      exact congrArg _ heq

theorem tokensFrom_nil (bound offset : Nat) : tokensFrom bound offset [] = .eof offset := by
  cases bound <;> rfl

/-- The tokens of a text without faults, behind blanks and in front of any ending. -/
theorem Lexes.exists_tokens_framed {u : List Char} (h : Lexes u) :
    ∃ ts : Nat → List Token, (∀ offset, ∀ t ∈ ts offset, t.kind ≠ .eof ∧ t.start < offset + byteLength u) ∧
      (∀ offset offset', List.Forall₂ Token.Same (ts offset) (ts offset')) ∧
      ∀ front ending, (∀ c ∈ front, isBlank c = true) → Breaks ending → ∃ k, ending.length ≤ k ∧
        tokens (front ++ (u ++ ending)) =
          .prepend (ts (byteLength front)) (tokensFrom k (byteLength front + byteLength u) ending) := by
  obtain ⟨ts, hts, hsame, htokens⟩ := h.exists_tokens
  refine ⟨ts, hts, hsame, fun front ending hfront hending => ?_⟩
  obtain ⟨k, hk, heq⟩ := htokens (front ++ (u ++ ending)).length (byteLength front) ending hending
    (by simp)
  refine ⟨k, hk, ?_⟩
  rw [tokens, tokensFrom_blanks (List.dropWhile_eq_nil_iff.mpr hfront) (Nat.le_refl _), Nat.zero_add, heq]

/-! ## Blanks around a text -/

theorem exists_trim_eq (u : List Char) : ∃ front back, u = front ++ (trim u ++ back) ∧
    (∀ c ∈ front, isBlank c = true) ∧ ∀ c ∈ back, isBlank c = true := by
  have hback : trim u ++ (trimStart u).rtakeWhile isBlank = trimStart u := List.rdropWhile_append_rtakeWhile
  refine ⟨u.takeWhile isBlank, (trimStart u).rtakeWhile isBlank, ?_, ?_, ?_⟩
  · rw [hback, Text.trimStart, List.takeWhile_append_dropWhile]
  · exact fun c hc => List.mem_takeWhile_imp hc
  · exact fun c hc => List.mem_rtakeWhile_imp hc

theorem Lexes.trimStart {u : List Char} (h : Lexes u) : Lexes (trimStart u) := by
  cases h with
  | blank hu =>
    rw [Text.trimStart, hu]
    exact .blank rfl
  | lexeme hu hl hrest =>
    apply Lexes.lexeme _ hl hrest
    rw [Text.trimStart, List.dropWhile_idempotent, hu]

theorem body?_blanks {quote : Char} (hquote : isBlank quote = false) {blanks : List Char}
    (h : ∀ c ∈ blanks, isBlank c = true) : StringLiteral.body? quote blanks = none := by
  induction blanks with
  | nil => rfl
  | cons c cs ih =>
    have hc : isBlank c = true := h c (by simp)
    have hslash : c ≠ '\\' := by
      rintro rfl
      exact absurd hc (by decide)
    have hne : c ≠ quote := by
      rintro rfl
      simp [hquote] at hc
    simp [StringLiteral.body?, hslash, hne, ih fun c hc => h c (by simp [hc])]

theorem body?_append_blanks {quote : Char} (hquote : isBlank quote = false) {cs blanks : List Char}
    (hblanks : ∀ c ∈ blanks, isBlank c = true) (h : StringLiteral.body? quote cs = none) :
    StringLiteral.body? quote (cs ++ blanks) = none := by
  fun_induction StringLiteral.body? quote cs with
  | case1 => exact body?_blanks hquote hblanks
  | case2 =>
    cases blanks with
    | nil => rfl
    | cons c cs =>
      have hrest : StringLiteral.body? quote cs = none :=
        body?_blanks hquote fun c hc => hblanks c (by simp [hc])
      simp [StringLiteral.body?, hrest]
  | case3 c cs ih => simp [StringLiteral.body?, ih (Option.map_eq_none_iff.mp h)]
  | case4 => cases h
  | case5 c cs h₁ h₂ hc ih =>
    have hslash : c ≠ '\\' := by
      rintro rfl
      cases cs <;> simp_all
    simp [StringLiteral.body?, hc, hslash, ih (Option.map_eq_none_iff.mp h)]

theorem breaks_blanks {blanks : List Char} (h : ∀ c ∈ blanks, isBlank c = true) : Breaks blanks :=
  fun c hc => Or.inl (h c (List.mem_of_mem_head? hc))

theorem Breaks.append {blanks ending : List Char} (h : Breaks ending)
    (hblanks : ∀ c ∈ blanks, isBlank c = true) : Breaks (blanks ++ ending) := by
  cases blanks with
  | nil => exact h
  | cons c blanks => exact fun d hd => Or.inl (hblanks d (by simp_all))

/-- Blanks behind a fault do not mend it. -/
theorem lexeme?_append_blanks {c : Char} {tail blanks : List Char}
    (hblanks : ∀ c ∈ blanks, isBlank c = true) (h : lexeme? c tail = none) :
    lexeme? c (tail ++ blanks) = none := by
  have hnumber := number_append (breaks_blanks hblanks) (c :: tail)
  rw [List.cons_append] at hnumber
  revert h
  fun_cases lexeme? c tail with
  | case1 hquote =>
    intro h
    have hc : isBlank c = false := by
      simp only [Bool.or_eq_true, decide_eq_true_eq] at hquote
      rcases hquote with rfl | rfl <;> decide
    simp [lexeme?, hquote, body?_append_blanks hc hblanks (Option.map_eq_none_iff.mp h)]
  | case2 hquote hdigit hname =>
    intro _
    unfold lexeme?
    rw [if_neg hquote, if_pos hdigit, hnumber]
    cases hn : (number (c :: tail)).2 with
    | nil => simp [hn] at hname
    | cons d ds =>
      rw [hn] at hname
      exact if_pos hname
  | case3 | case4 | case5 | case6 => simp
  | case7 hquote hdigit hletter hpair hsingle =>
    intro _
    have hpair' : ¬ pairs.contains (c :: (tail ++ blanks).take 1) = true := by
      cases tail with
      | cons d tail => simpa using hpair
      | nil =>
        cases blanks with
        | nil => simpa using hpair
        | cons d blanks => simpa using ((breaks_blanks hblanks).head rfl).2.2.2.2 c
    unfold lexeme?
    rw [if_neg hquote, if_neg hdigit, if_neg hletter, if_neg hpair', if_neg hsingle]

theorem Lexes.of_append_blanks {u blanks : List Char} (hblanks : ∀ c ∈ blanks, isBlank c = true)
    (h : Lexes (u ++ blanks)) : Lexes u := by
  generalize hu : u ++ blanks = v at h
  induction h generalizing u with
  | blank hv =>
    subst hu
    rw [List.dropWhile_eq_nil_iff] at hv
    exact .blank (List.dropWhile_eq_nil_iff.mpr fun c hc => hv c (by simp [hc]))
  | @lexeme v tail c l hv hl _ ih =>
    subst hu
    cases hdrop : u.dropWhile isBlank with
    | nil => exact .blank hdrop
    | cons d ds =>
      have happend : (u ++ blanks).dropWhile isBlank = d :: (ds ++ blanks) := by
        simp [List.dropWhile_append, hdrop]
      rw [happend] at hv
      cases hv
      cases hd : lexeme? c ds with
      | none =>
        rw [lexeme?_append_blanks hblanks hd] at hl
        cases hl
      | some l' =>
        rw [lexeme?_append (breaks_blanks hblanks) hd] at hl
        cases hl
        exact .lexeme hdrop hd (ih rfl)

theorem Lexes.trim {u : List Char} (h : Lexes u) : Lexes (trim u) := by
  have hback : Text.trim u ++ (Text.trimStart u).rtakeWhile isBlank = Text.trimStart u :=
    List.rdropWhile_append_rtakeWhile
  have htrim := h.trimStart
  rw [← hback] at htrim
  exact htrim.of_append_blanks fun c hc => List.mem_rtakeWhile_imp hc

end Lexer
end DataBinding
