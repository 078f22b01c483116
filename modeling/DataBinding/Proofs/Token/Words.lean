import DataBinding.Proofs.Text.Names
import DataBinding.Proofs.Text.Paths

/-!
# Words and numbers

A name among the tokens of a text is a word, and a number starts with a digit and has a digit behind its
point.
-/
namespace DataBinding
open Text

/-- A digit comes first and another one behind each point. -/
structure IsNumber (text : String) : Prop where
  head : ∃ c ∈ text.toList.head?, c.isDigit = true
  chars : ∀ c ∈ text.toList, isNameChar c = true ∨ c = '.'
  point : ∀ front back, text.toList = front ++ '.' :: back → ∃ c ∈ back.head?, c.isDigit = true

/-- Names are words and numbers are numbers. -/
structure Token.Regular (t : Token) : Prop where
  ident : t.kind = .ident → IsIdentifier t.text
  number : t.kind = .number → IsNumber t.text

theorem Token.regular_of_kind_ne {t : Token} (hident : t.kind ≠ .ident) (hnumber : t.kind ≠ .number) : t.Regular :=
  ⟨fun h => absurd h hident, fun h => absurd h hnumber⟩

namespace Lexer

theorem fraction_cases (cs : List Char) :
    (fraction cs).1 = [] ∨ ∃ d ds, (fraction cs).1 = '.' :: d :: ds ∧ ∀ c ∈ d :: ds, c.isDigit = true := by
  fun_cases fraction cs with
  | case1 d cs hd =>
    refine Or.inr ⟨d, cs.takeWhile Char.isDigit, by simp [hd], ?_⟩
    exact List.forall_mem_cons.mpr ⟨hd, fun c hc => List.all_eq_true.mp (List.all_takeWhile) c hc⟩
  | case2 => exact Or.inl rfl
  | case3 => exact Or.inl rfl

theorem typeSuffix_subset (cs : List Char) : (typeSuffix cs).1 ⊆ suffixes := by
  fun_cases typeSuffix cs with
  | case1 c cs hc => simpa using hc
  | case2 => simp
  | case3 => simp

/-- The only point in a text between parts without points. -/
theorem back_eq_of_point {word rest front back : List Char} (hword : '.' ∉ word) (hrest : '.' ∉ rest)
    (h : word ++ '.' :: rest = front ++ '.' :: back) : back = rest := by
  rcases List.append_eq_append_iff.mp h with ⟨between, rfl, hbetween⟩ | ⟨between, rfl, hbetween⟩
  · cases between with
    | nil => exact (List.cons.inj hbetween).2.symm
    | cons c cs => simp [(List.cons.inj hbetween).2] at hrest
  · cases between with
    | nil => exact (List.cons.inj hbetween).2
    | cons c cs => simp [← (List.cons.inj hbetween).1] at hword

/-- The characters of a number other than its point. -/
def Pointless (cs : List Char) : Prop := ∀ c ∈ cs, isNameChar c = true ∧ c ≠ '.'

theorem Pointless.not_mem {cs : List Char} (h : Pointless cs) : '.' ∉ cs := fun hmem => (h _ hmem).2 rfl

theorem Pointless.append {cs ds : List Char} (hcs : Pointless cs) (hds : Pointless ds) : Pointless (cs ++ ds) :=
  List.forall_mem_append.mpr ⟨hcs, hds⟩

theorem pointless_digits {cs : List Char} (h : ∀ c ∈ cs, c.isDigit = true) : Pointless cs := by
  intro c hc
  refine ⟨isNameChar_of_isDigit (h c hc), ?_⟩
  rintro rfl
  cases h _ hc

theorem pointless_typeSuffix (cs : List Char) : Pointless (typeSuffix cs).1 := by
  have hall : ∀ c ∈ suffixes, isNameChar c = true ∧ c ≠ '.' := by decide
  exact fun c hc => hall c (typeSuffix_subset cs hc)

theorem isNumber_of_pointless {c : Char} (hc : c.isDigit = true) {cs : List Char} (h : Pointless (c :: cs)) :
    IsNumber (String.ofList (c :: cs)) where
  head := ⟨c, by simp, hc⟩
  chars d hd := Or.inl (h d (by simpa using hd)).1
  point front back hsplit := by
    refine absurd ?_ h.not_mem
    rw [← String.toList_ofList (l := c :: cs), hsplit]
    simp

theorem isNumber_of_point {c d : Char} (hc : c.isDigit = true) (hd : d.isDigit = true) {cs ds : List Char}
    (hcs : Pointless (c :: cs)) (hds : Pointless (d :: ds)) :
    IsNumber (String.ofList (c :: cs ++ '.' :: d :: ds)) where
  head := ⟨c, by simp, hc⟩
  chars x hx := by
    rw [String.toList_ofList, List.mem_append] at hx
    rcases hx with hx | hx
    · exact Or.inl (hcs x hx).1
    · rcases List.mem_cons.mp hx with rfl | hx
      · exact Or.inr rfl
      · exact Or.inl (hds x hx).1
  point front back hsplit := by
    rw [String.toList_ofList] at hsplit
    rw [back_eq_of_point hcs.not_mem hds.not_mem hsplit]
    exact ⟨d, rfl, hd⟩

theorem isNumber_number {c : Char} (hc : c.isDigit = true) (cs : List Char) :
    IsNumber (String.ofList (number (c :: cs)).1) := by
  have hdigits : Pointless (c :: cs.takeWhile Char.isDigit) :=
    pointless_digits (List.forall_mem_cons.mpr ⟨hc, fun d hd => List.all_eq_true.mp List.all_takeWhile d hd⟩)
  have hsuffix := pointless_typeSuffix (fraction (cs.dropWhile Char.isDigit)).2
  have hnumber : (number (c :: cs)).1 = c :: cs.takeWhile Char.isDigit ++
      ((fraction (cs.dropWhile Char.isDigit)).1 ++ (typeSuffix (fraction (cs.dropWhile Char.isDigit)).2).1) := by
    simp [number, hc]
  rw [hnumber]
  rcases fraction_cases (cs.dropWhile Char.isDigit) with hnone | ⟨d, ds, hpoint, hds⟩
  · rw [hnone]
    exact isNumber_of_pointless hc (hdigits.append hsuffix)
  · rw [hpoint]
    exact isNumber_of_point hc (hds d (by simp)) hdigits ((pointless_digits hds).append hsuffix)

theorem regular_of_lexeme? {c : Char} {cs : List Char} {l : Lexeme} (h : lexeme? c cs = some l) (start : Nat) :
    (l.token start).Regular := by
  revert h
  fun_cases lexeme? c cs with
  | case1 hquote =>
    intro h
    obtain ⟨⟨body, rest⟩, -, rfl⟩ := Option.map_eq_some_iff.mp h
    exact Token.regular_of_kind_ne (by simp [Lexeme.token]) (by simp [Lexeme.token])
  | case2 | case7 => simp
  | case3 hquote hdigit hname =>
    rintro ⟨⟩
    exact ⟨by simp [Lexeme.token], fun _ => isNumber_number hdigit cs⟩
  | case4 hquote hdigit hletter =>
    rintro ⟨⟩
    have hc : isNameChar c = true := by
      simp only [Bool.or_eq_true, decide_eq_true_eq] at hletter
      rcases hletter with h | rfl
      · simp [isNameChar, h]
      · decide
    refine ⟨fun _ => ⟨⟨by simp [Lexeme.token, hc], fun d hd => ?_⟩, ?_⟩, by simp [Lexeme.token]⟩
    · rw [Lexeme.token, String.toList_ofList] at hd
      exact List.all_eq_true.mp List.all_takeWhile d hd
    · simpa [Lexeme.token, hc] using hdigit
  | case5 | case6 =>
    rintro ⟨⟩
    exact Token.regular_of_kind_ne (by simp [Lexeme.token]) (by simp [Lexeme.token])

theorem all_regular_tokens (text : List Char) :
    (tokens text).All Token.Regular fun _ => True :=
  tokensFrom_all text.length 0 text (fun _ _ _ start _ h => regular_of_lexeme? h start) fun _ _ => trivial

end Lexer

end DataBinding
