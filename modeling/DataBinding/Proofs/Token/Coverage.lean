import DataBinding.Proofs.Token.Places

/-!
# Tokens cover the text

A call reads one token: it passes over blanks and goes on behind the token, and takes the quotes on either side of a
literal along. So the tokens of a text without faults stand in it one behind the other, and all that stands outside
of them is blank.
-/
namespace DataBinding
open Text

/-! ## Characters from an offset on -/

namespace Text

variable {text cs front rest tail : List Char} {offset place : Nat} {c : Char}

/-- A later offset is an offset in what stands from the earlier one on. -/
theorem fromByte?_sub (h : fromByte? offset text = some cs) (hle : offset ≤ place) :
    fromByte? place text = fromByte? (place - offset) cs := by
  obtain ⟨front, rfl, rfl⟩ := fromByte?_eq_some.mp h
  rw [← fromByte?_byteLength_add front cs, Nat.add_sub_cancel' hle]

theorem fromByte?_dropWhile (p : Char → Bool) (h : fromByte? offset text = some cs) :
    fromByte? (offset + byteLength (cs.takeWhile p)) text = some (cs.dropWhile p) := by
  refine fromByte?_add h ?_
  have hsplit := fromByte?_byteLength_append (cs.takeWhile p) (cs.dropWhile p)
  rwa [List.takeWhile_append_dropWhile] at hsplit

/-- A character that begins before the end of the front belongs to the front. -/
theorem mem_front (h : fromByte? place (front ++ rest) = some (c :: tail)) (hlt : place < byteLength front) :
    c ∈ front := by
  obtain ⟨before, hsplit, rfl⟩ := fromByte?_eq_some.mp h
  rcases List.append_eq_append_iff.mp hsplit with ⟨between, rfl, -⟩ | ⟨between, rfl, hbetween⟩
  · rw [byteLength_append] at hlt
    omega
  · cases between with
    | nil => simp at hlt
    | cons d between =>
      cases hbetween
      simp

end Text

/-! ## One call -/

namespace Token

/-- Where the token begins, with the opening quote of a literal. -/
def first (t : Token) : Nat := if t.kind = .string then t.start - 1 else t.start

/-- Where reading goes on: behind the token and the closing quote of a literal. -/
def behind (t : Token) : Nat := if t.kind = .string then t.stop + 1 else t.stop

/-- The token stands between two quotes of one kind. -/
def Quoted (text : List Char) (t : Token) : Prop :=
  t.first + 1 = t.start ∧ ∃ quote ∈ ['"', '\''], ∃ rest,
    fromByte? t.first text = some (quote :: (t.text.toList ++ quote :: rest))

/-- The token is read at the offset: it comes behind blanks only, is not empty, and ends in front of a character or
at the end. -/
structure ReadAt (text : List Char) (offset : Nat) (t : Token) : Prop where
  kind : t.kind ≠ .eof
  within : t.Within text
  quoted : t.kind = .string → t.Quoted text
  blanks : ∃ blanks rest, fromByte? offset text = some (blanks ++ rest) ∧ t.first = offset + byteLength blanks ∧
    ∀ c ∈ blanks, isBlank c = true
  advances : t.first < t.behind
  rest : ∃ rest, fromByte? t.behind text = some rest

variable {text : List Char} {offset : Nat} {t : Token}

theorem first_le_start (t : Token) : t.first ≤ t.start := by
  unfold first
  split <;> omega

theorem Within.stop_le_behind (h : t.Within text) : t.start ≤ t.stop ∧ t.stop ≤ t.behind := by
  have hstop := h.stop
  unfold behind
  split <;> omega

theorem ReadAt.start_lt_behind (h : t.ReadAt text offset) : t.start < t.behind := by
  have hadvances := h.advances
  have hstop := h.within.stop
  unfold first behind at hadvances
  unfold behind
  split at hadvances <;> rename_i hkind <;> simp only [hkind, if_true, if_false] <;> omega

theorem ReadAt.offset_le_first (h : t.ReadAt text offset) : offset ≤ t.first := by
  obtain ⟨blanks, rest, -, hfirst, -⟩ := h.blanks
  omega

theorem ReadAt.offset_lt_behind (h : t.ReadAt text offset) : offset < t.behind :=
  Nat.lt_of_le_of_lt h.offset_le_first h.advances

theorem ReadAt.behind_le (h : t.ReadAt text offset) : t.behind ≤ byteLength text := by
  obtain ⟨rest, hrest⟩ := h.rest
  have := offset_add_byteLength hrest
  omega

end Token

namespace Lexer

variable {text cs tail : List Char} {bound offset start : Nat} {c : Char} {l : Lexeme}

theorem lexeme?_quotes (h : lexeme? c tail = some l) :
    (l.kind = .string ∧ l.quotes = 1 ∧ c ∈ ['"', '\'']) ∨ (l.kind ≠ .string ∧ l.quotes = 0) := by
  revert h
  fun_cases lexeme? c tail with
  | case1 hquote =>
    intro h
    obtain ⟨⟨body, rest⟩, -, rfl⟩ := Option.map_eq_some_iff.mp h
    exact Or.inl ⟨rfl, rfl, by simpa using hquote⟩
  | case2 | case7 => simp
  | case3 | case4 | case5 | case6 =>
    rintro ⟨⟩
    exact Or.inr ⟨by simp, rfl⟩

theorem Lexeme.first_token (h : lexeme? c tail = some l) (start : Nat) : (l.token start).first = start := by
  rcases lexeme?_quotes h with ⟨hkind, hquotes, -⟩ | ⟨hkind, hquotes⟩ <;>
    simp [Token.first, Lexeme.token, hkind, hquotes]

theorem Lexeme.behind_token (h : lexeme? c tail = some l) (start : Nat) :
    (l.token start).behind = l.stop start := by
  rcases lexeme?_quotes h with ⟨hkind, hquotes, -⟩ | ⟨hkind, hquotes⟩
  · simp only [Token.behind, Lexeme.token, Lexeme.stop, hkind, hquotes, if_true]
    omega
  · simp [Token.behind, Lexeme.token, Lexeme.stop, hkind, hquotes]

theorem Lexeme.quoted_token (h : lexeme? c tail = some l) (hstart : fromByte? start text = some (c :: tail))
    (hkind : l.kind = .string) : (l.token start).Quoted text := by
  rcases lexeme?_quotes h with ⟨-, hquotes, hquote⟩ | ⟨hother, -⟩
  · rcases lexeme?_eq h with ⟨hnone, -, -⟩ | ⟨-, -, htail⟩
    · omega
    · rw [Token.Quoted, first_token h]
      exact ⟨by simp [Lexeme.token, hquotes], c, hquote, l.rest, by simpa [Lexeme.token, ← htail] using hstart⟩
  · exact absurd hkind hother

section Place

variable (hcs : fromByte? offset text = some cs) (hdrop : cs.dropWhile isBlank = c :: tail)
  (h : lexeme? c tail = some l)
include hcs hdrop h

theorem Lexeme.fromByte?_behind :
    fromByte? (l.token (offset + byteLength (cs.takeWhile isBlank))).behind text = some l.rest := by
  have hplace := fromByte?_dropWhile isBlank hcs
  rw [hdrop] at hplace
  rw [behind_token h]
  exact (Lexeme.within h hplace).2

theorem Lexeme.readAt : (l.token (offset + byteLength (cs.takeWhile isBlank))).ReadAt text offset := by
  have hplace := fromByte?_dropWhile isBlank hcs
  rw [hdrop] at hplace
  exact {
    kind := kind_ne_eof h
    within := (Lexeme.within h hplace).1
    quoted := Lexeme.quoted_token h hplace
    blanks := ⟨cs.takeWhile isBlank, cs.dropWhile isBlank, by rwa [List.takeWhile_append_dropWhile],
      first_token h _, fun c hc => List.mem_takeWhile_imp hc⟩
    advances := by
      rw [first_token h, behind_token h]
      exact Nat.lt_of_le_of_lt (Nat.le_add_right _ _) (start_lt_stop h _)
    rest := ⟨l.rest, Lexeme.fromByte?_behind hcs hdrop h⟩ }

end Place

end Lexer

namespace TokenStream

/-- The stream is what there is to read from the offset of the text on. -/
def At (text : List Char) (offset : Nat) (s : TokenStream) : Prop :=
  ∃ bound rest, rest.length ≤ bound ∧ fromByte? offset text = some rest ∧ s = Lexer.tokensFrom bound offset rest

/-- The call at the offset is the last one: only blanks are left, and it gives the end of the text. -/
def AtEnd (text : List Char) (offset : Nat) (s : TokenStream) : Prop :=
  s.next.1 = .ok (.eof (byteLength text)) ∧
    ∃ rest, fromByte? offset text = some rest ∧ ∀ c ∈ rest, isBlank c = true

/-- Calls that read the tokens one after the other and get from one offset of the text to another. -/
inductive Reads (text : List Char) : Nat → TokenStream → List Token → Nat → TokenStream → Prop where
  | done {offset : Nat} {s : TokenStream} (h : s.At text offset) : Reads text offset s [] offset s
  | call {offset stop : Nat} {s s' s'' : TokenStream} {t : Token} {ts : List Token} (hat : s.At text offset)
    (hnext : s.next = (.ok t, s')) (ht : t.ReadAt text offset) (hrest : Reads text t.behind s' ts stop s'') :
    Reads text offset s (t :: ts) stop s''

variable {text : List Char} {offset stop : Nat} {s s' : TokenStream} {t : Token} {ts : List Token}

/-- A call reads a token and goes on behind it, finds the end, or fails. -/
theorem At.next (h : s.At text offset) :
    (∃ t s', s.next = (.ok t, s') ∧ t.ReadAt text offset ∧ s'.At text t.behind) ∨ s.AtEnd text offset ∨
      ∃ fault, s.next.1 = .error fault := by
  obtain ⟨bound, cs, hbound, hcs, rfl⟩ := h
  have hlength := offset_add_byteLength hcs
  cases bound with
  | zero =>
    obtain rfl : cs = [] := List.eq_nil_of_length_eq_zero (Nat.le_zero.mp hbound)
    refine Or.inr (Or.inl ⟨?_, [], hcs, by simp⟩)
    rw [← hlength]
    rfl
  | succ bound =>
    cases hdrop : cs.dropWhile isBlank with
    | nil =>
      have hblank := List.dropWhile_eq_nil_iff.mp hdrop
      refine Or.inr (Or.inl ⟨?_, cs, hcs, hblank⟩)
      rw [Lexer.tokensFrom_of_blank hdrop, List.takeWhile_eq_self_iff.mpr hblank, hlength]
      rfl
    | cons c tail =>
      cases hl : Lexer.lexeme? c tail with
      | some l =>
        have hshorter := Lexer.length_rest_lt hl
        have hle := (List.dropWhile_suffix isBlank (l := cs)).length_le
        rw [hdrop] at hle
        rw [Lexer.tokensFrom_of_lexeme hdrop hl]
        refine Or.inl ⟨_, _, rfl, Lexer.Lexeme.readAt hcs hdrop hl, bound, l.rest, by omega,
          Lexer.Lexeme.fromByte?_behind hcs hdrop hl, ?_⟩
        rw [Lexer.Lexeme.behind_token hl]
      | none =>
        refine Or.inr (Or.inr ?_)
        rcases Lexer.tokensFrom_of_fault bound offset hdrop hl with
          ⟨fault, heq⟩ | ⟨fault, stop, -, heq⟩ | ⟨fault, front, rest, -, heq⟩
        all_goals
          rw [heq]
          exact ⟨fault, rfl⟩

/-- The calls come to the end of the text or to a fault, since each of them gets closer to the end. -/
theorem At.exists_reads (h : s.At text offset) : ∃ ts stop s', Reads text offset s ts stop s' ∧
    (s'.AtEnd text stop ∨ ∃ fault, s'.next.1 = .error fault) := by
  induction hn : byteLength text - offset using Nat.strong_induction_on generalizing offset s with
  | h n ih =>
    rcases h.next with ⟨t, s', hnext, ht, hat⟩ | hlast
    · have hlt := ht.offset_lt_behind
      have hle := ht.behind_le
      obtain ⟨ts, stop, s'', hreads, hlast⟩ := ih _ (by omega) hat rfl
      exact ⟨t :: ts, stop, s'', .call h hnext ht hreads, hlast⟩
    · exact ⟨[], offset, s, .done h, hlast⟩

theorem Reads.length_add_le (h : Reads text offset s ts stop s') : ts.length + offset ≤ byteLength text := by
  induction h with
  | done h =>
    obtain ⟨bound, rest, -, hrest, -⟩ := h
    have := offset_add_byteLength hrest
    simp only [List.length_nil]
    omega
  | call _ _ ht _ ih =>
    have hlt := ht.offset_lt_behind
    simp only [List.length_cons]
    omega

end TokenStream

/-! ## The whole text -/

/-- The tokens stand in the text in order, from the offset on and without overlap, and what stands outside of them is
blank. -/
structure Covers (text : List Char) (offset : Nat) (ts : List Token) : Prop where
  within : ∀ t ∈ ts, t.Within text
  quoted : ∀ t ∈ ts, t.kind = .string → t.Quoted text
  bounds : ∀ t ∈ ts, offset ≤ t.first ∧ t.first < t.behind ∧ t.behind ≤ byteLength text
  ordered : ts.Pairwise fun t u => t.start < u.start ∧ t.stop ≤ u.start ∧ t.behind ≤ u.first
  blanks : ∀ place c rest, offset ≤ place → fromByte? place text = some (c :: rest) →
    (∀ t ∈ ts, place < t.first ∨ t.behind ≤ place) → isBlank c = true

namespace Covers

variable {text : List Char} {offset : Nat} {t : Token} {ts : List Token}

theorem nil {rest : List Char} (hrest : fromByte? offset text = some rest) (hblank : ∀ c ∈ rest, isBlank c = true) :
    Covers text offset [] where
  within := by simp
  quoted := by simp
  bounds := by simp
  ordered := .nil
  blanks place c tail hle hplace _ := by
    rw [fromByte?_sub hrest hle] at hplace
    obtain ⟨front, rfl, -⟩ := fromByte?_eq_some.mp hplace
    exact hblank c (by simp)

theorem cons (ht : t.ReadAt text offset) (hts : Covers text t.behind ts) : Covers text offset (t :: ts) where
  within := List.forall_mem_cons.mpr ⟨ht.within, hts.within⟩
  quoted := List.forall_mem_cons.mpr ⟨ht.quoted, hts.quoted⟩
  bounds := by
    refine List.forall_mem_cons.mpr ⟨⟨ht.offset_le_first, ht.advances, ht.behind_le⟩, fun u hu => ?_⟩
    obtain ⟨hle, hlt, hend⟩ := hts.bounds u hu
    exact ⟨Nat.le_trans (Nat.le_of_lt ht.offset_lt_behind) hle, hlt, hend⟩
  ordered := by
    refine List.pairwise_cons.mpr ⟨fun u hu => ?_, hts.ordered⟩
    have hle := (hts.bounds u hu).1
    have hstart := ht.start_lt_behind
    have hstop := ht.within.stop_le_behind
    have hfirst := u.first_le_start
    exact ⟨by omega, by omega, hle⟩
  blanks place c rest hle hplace houtside := by
    obtain ⟨houtside, hothers⟩ := List.forall_mem_cons.mp houtside
    rcases houtside with hbefore | hbehind
    · -- In front of the token only its blanks come into question.
      obtain ⟨blanks, more, hoffset, hfirst, hblank⟩ := ht.blanks
      rw [fromByte?_sub hoffset hle] at hplace
      exact hblank c (mem_front hplace (by omega))
    · exact hts.blanks place c rest hbehind hplace hothers

end Covers

theorem TokenStream.Reads.covers {text : List Char} {offset stop : Nat} {s s' : TokenStream} {ts : List Token}
    (h : Reads text offset s ts stop s') (hend : s'.AtEnd text stop) : Covers text offset ts := by
  induction h with
  | done _ =>
    obtain ⟨-, rest, hrest, hblank⟩ := hend
    exact .nil hrest hblank
  | call _ _ ht _ ih => exact .cons ht (ih hend)

theorem Lexer.at_tokens (text : List Char) : (Lexer.tokens text).At text 0 :=
  ⟨text.length, text, Nat.le_refl _, fromByte?_zero text, rfl⟩

/-- Repeated calls read tokens, each behind the one before, and come to the end of the text or to a fault after no
more calls than there are bytes. In the first case the tokens cover the text. -/
theorem Lexer.tokens_cover (text : List Char) :
    ∃ ts stop s, TokenStream.Reads text 0 (Lexer.tokens text) ts stop s ∧ ts.length ≤ byteLength text ∧
      ((s.next.1 = .ok (.eof (byteLength text)) ∧ Covers text 0 ts) ∨ ∃ fault, s.next.1 = .error fault) := by
  obtain ⟨ts, stop, s, hreads, hlast⟩ := (Lexer.at_tokens text).exists_reads
  refine ⟨ts, stop, s, hreads, hreads.length_add_le, ?_⟩
  rcases hlast with hend | hfault
  · exact Or.inl ⟨hend.1, hreads.covers hend⟩
  · exact Or.inr hfault

-- The literal takes its quotes along, and the letter in it has two bytes.
example : ((Lexer.tokens ['a', ' ', '\'', 'é', '\'', ' ']).toList.1.map fun t => (t.first, t.behind)) =
    [(0, 1), (2, 6), (7, 7)] := by decide +kernel

end DataBinding
