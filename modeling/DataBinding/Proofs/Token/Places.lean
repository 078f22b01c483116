import DataBinding.Proofs.Token.Endings

/-!
# Places of tokens and faults

A token says where its text stands, and a fault of reading says where the text at fault begins. Both
places are found in the text from which tokens are read: they begin with a character or at the end, and go
no further than the end.
-/
namespace DataBinding
open Text

/-- The text of the token stands in the text at the place of the token. -/
structure Token.Within (text : List Char) (t : Token) : Prop where
  stop : t.stop = t.start + byteLength t.text.toList
  stands : ∃ rest, fromByte? t.start text = some (t.text.toList ++ rest)

/-- The fault begins with a character of the text or at its end, and goes no further than the end. -/
def Fault.Within (text : List Char) (f : Fault) : Prop :=
  ∃ position rest, f.position = some position ∧ fromByte? position text = some rest ∧ f.length ≤ byteLength rest

/-- The tokens, the faults and the end of the stream have their places in the text. -/
def TokenStream.Within (text : List Char) : TokenStream → Prop
  | .eof offset => fromByte? offset text = some []
  | .stuck fault => fault.Within text
  | .skip fault rest => fault.Within text ∧ rest.Within text
  | .token head rest => head.Within text ∧ rest.Within text

variable {text : List Char}

theorem Fault.within_spanning {cause : Cause} {position length : Nat} {rest : List Char}
    (hrest : fromByte? position text = some rest) (hlength : length ≤ byteLength rest) :
    (Fault.spanning cause position length).Within text :=
  ⟨position, rest, rfl, hrest, hlength⟩

theorem Token.Within.fault {t : Token} (h : t.Within text) (cause : Cause) : (t.fault cause).Within text := by
  obtain ⟨rest, hrest⟩ := h.stands
  refine Fault.within_spanning hrest ?_
  rw [h.stop, byteLength_append]
  omega

theorem Token.within_eof {offset : Nat} (h : fromByte? offset text = some []) : (Token.eof offset).Within text :=
  ⟨rfl, [], h⟩

theorem TokenStream.Within.next {stream rest : TokenStream} {token : Token} (h : stream.Within text)
    (hnext : stream.next = (.ok token, rest)) : token.Within text ∧ rest.Within text := by
  cases stream with
  | eof offset =>
    cases hnext
    exact ⟨Token.within_eof h, h⟩
  | stuck fault | skip fault rest => cases hnext
  | token head rest =>
    cases hnext
    exact h

theorem TokenStream.Within.next_fault {stream rest : TokenStream} {fault : Fault} (h : stream.Within text)
    (hnext : stream.next = (.error fault, rest)) : fault.Within text := by
  cases stream with
  | eof offset | token head rest => cases hnext
  | stuck fault =>
    cases hnext
    exact h
  | skip fault rest =>
    cases hnext
    exact h.1

namespace Lexer

/-- A token has its place where it is read, and the rest begins where the token and its quotes end. -/
theorem Lexeme.within {c : Char} {tail : List Char} {l : Lexeme} (hl : lexeme? c tail = some l) {start : Nat}
    (hstart : fromByte? start text = some (c :: tail)) :
    (l.token start).Within text ∧ fromByte? (l.stop start) text = some l.rest := by
  have hstop : (l.token start).stop = (l.token start).start + byteLength (l.token start).text.toList := by
    simp [Lexeme.token]
  rcases lexeme?_eq hl with ⟨hquotes, heq, -⟩ | ⟨hquotes, hsize, rfl⟩
  · rw [heq] at hstart
    constructor
    · exact ⟨hstop, l.rest, by simpa [Lexeme.token, hquotes] using hstart⟩
    · have hrest := fromByte?_add hstart (fromByte?_byteLength_append l.text l.rest)
      simpa [Lexeme.stop, hquotes] using hrest
  · have hone : byteLength [c] = 1 := by simp [byteLength, hsize]
    have hbody : fromByte? (start + 1) text = some (l.text ++ c :: l.rest) :=
      fromByte?_add hstart (hone ▸ fromByte?_byteLength_append [c] _)
    constructor
    · exact ⟨hstop, c :: l.rest, by simpa [Lexeme.token, hquotes] using hbody⟩
    · have hlength : l.stop start = start + 1 + byteLength (l.text ++ [c]) := by
        rw [Lexeme.stop, hquotes, byteLength_append, hone]
        omega
      have hsplit : l.text ++ c :: l.rest = (l.text ++ [c]) ++ l.rest := by simp
      rw [hlength]
      exact fromByte?_add hbody (hsplit ▸ fromByte?_byteLength_append _ l.rest)

/-- A fault in place of a token begins where the token would, and what is read behind it stands in the text. -/
theorem tokensFrom_within_of_fault {bound offset start : Nat} {cs tail : List Char} {c : Char}
    (hcs : cs.dropWhile isBlank = c :: tail) (hstart : start = offset + byteLength (cs.takeWhile isBlank))
    (hplace : fromByte? start text = some (c :: tail)) (hl : lexeme? c tail = none)
    (hrest : ∀ next rest, rest.length ≤ tail.length → fromByte? next text = some rest →
      (tokensFrom bound next rest).Within text) :
    (tokensFrom (bound + 1) offset cs).Within text := by
  have hpos := c.utf8Size_pos
  simp only [tokensFrom, hcs, ← hstart]
  revert hl
  fun_cases lexeme? c tail with
  | case1 hquote =>
    intro hl
    simp only [hquote, Option.map_eq_none_iff.mp hl, if_true]
    refine ⟨Fault.within_spanning hplace (by rw [byteLength]; omega), ?_⟩
    have hend := fromByte?_of_suffix hplace List.nil_suffix
    simpa [byteLength, TokenStream.Within] using hend
  | case2 hquote hdigit hname =>
    intro _
    have hsplit := number_eq (c :: tail)
    have hword : (number (c :: tail)).1 ≠ [] := by simp [number, hdigit]
    simp only [hquote, hdigit, hname, if_true]
    generalize number (c :: tail) = parts at hname hsplit hword ⊢
    obtain ⟨word, rest⟩ := parts
    dsimp only at hname hsplit hword
    have hnext : fromByte? (start + byteLength word) text = some rest := by
      rw [← hsplit] at hplace
      exact fromByte?_add hplace (fromByte?_byteLength_append word rest)
    constructor
    · -- The character that spoils the number has a byte at least.
      have hspoiled : 0 < byteLength rest := byteLength_pos (by rintro rfl; cases hname)
      refine Fault.within_spanning hplace ?_
      rw [← hsplit, byteLength_append]
      exact Nat.add_le_add_left hspoiled _
    · refine hrest _ rest ?_ hnext
      have hlength := congrArg List.length hsplit
      have hpositive := List.length_pos_iff.mpr hword
      simp only [List.length_append, List.length_cons] at hlength
      omega
  | case3 | case4 | case5 | case6 => simp
  | case7 hquote hdigit hletter hpair hsingle =>
    intro _
    rw [if_neg hquote, if_neg hdigit, if_neg hletter, if_neg hpair, if_neg hsingle]
    exact Fault.within_spanning hplace (Nat.le_add_right _ _)

theorem tokensFrom_within {bound offset : Nat} {cs : List Char} (hbound : cs.length ≤ bound)
    (hcs : fromByte? offset text = some cs) : (tokensFrom bound offset cs).Within text := by
  induction bound generalizing offset cs with
  | zero =>
    obtain rfl : cs = [] := List.eq_nil_of_length_eq_zero (Nat.le_zero.mp hbound)
    exact hcs
  | succ bound ih =>
    have hblanks : cs.takeWhile isBlank ++ cs.dropWhile isBlank = cs := List.takeWhile_append_dropWhile
    have hplace : fromByte? (offset + byteLength (cs.takeWhile isBlank)) text = some (cs.dropWhile isBlank) := by
      rw [← hblanks] at hcs
      exact fromByte?_add hcs (fromByte?_byteLength_append _ _)
    have hlength := (List.dropWhile_suffix isBlank (l := cs)).length_le
    cases hrest : cs.dropWhile isBlank with
    | nil =>
      rw [tokensFrom_of_blank hrest]
      rwa [hrest] at hplace
    | cons c tail =>
      rw [hrest] at hplace hlength
      simp only [List.length_cons] at hlength
      cases hl : lexeme? c tail with
      | some l =>
        rw [tokensFrom_of_lexeme hrest hl]
        obtain ⟨htoken, hnext⟩ := Lexeme.within hl hplace
        have hshorter := length_rest_lt hl
        simp only [List.length_cons] at hshorter
        exact ⟨htoken, ih (by omega) hnext⟩
      | none =>
        exact tokensFrom_within_of_fault hrest rfl hplace hl fun next rest hle hnext => ih (by omega) hnext

theorem tokens_within (text : List Char) : (tokens text).Within text :=
  tokensFrom_within (Nat.le_refl _) (fromByte?_zero text)

end Lexer

end DataBinding
