import DataBinding.Proofs.Token.Coverage
import Mathlib.Logic.Function.Iterate

/-!
# Literals and what they stand for

Where a literal ends is decided when its token is read; what its body stands for is decided later, in a pass of its
own. Both passes divide the body into the same signs, a character or a backslash with the character that it takes
along. So a text comes back from its literal, and no body ends in the middle of a sign.
-/
namespace DataBinding
open Text

namespace StringLiteral

/-- What stands for one character in a body. -/
inductive Sign where
  | bare (c : Char)
  | escaped (c : Char)
  | lone
  deriving DecidableEq

def signs : List Char → List Sign
  | [] => []
  | '\\' :: [] => [.lone]
  | '\\' :: c :: cs => .escaped c :: signs cs
  | c :: cs => .bare c :: signs cs

/-- The character that a sign stands for. It is left open what a backslash with nothing behind it stands for. -/
def Sign.value (lone : Char) : Sign → Char
  | .bare c => c
  | .escaped c => StringLiteral.escaped c
  | .lone => lone

/-- No sign ends the literal, and the last one is complete. -/
structure Complete (quote : Char) (body : List Char) : Prop where
  bare : .bare quote ∉ signs body
  lone : .lone ∉ signs body

/-- The body of a literal for the text. -/
def escape (quote : Char) (text : List Char) : List Char :=
  text.flatMap fun c => if c = '\\' ∨ c = quote then ['\\', c] else [c]

variable {quote c : Char} {cs body rest : List Char}

@[simp] theorem signs_nil : signs [] = [] := rfl

@[simp] theorem signs_backslash (c : Char) (cs : List Char) : signs ('\\' :: c :: cs) = .escaped c :: signs cs := rfl

theorem signs_cons (h : c ≠ '\\') (cs : List Char) : signs (c :: cs) = .bare c :: signs cs := by
  rw [signs] <;> simp [h]

theorem unescape_eq (cs : List Char) : unescape cs = (signs cs).map (Sign.value '\\') := by
  fun_induction unescape cs with
  | case1 | case2 => rfl
  | case3 c cs ih => simp [ih, Sign.value]
  | case4 c cs _ h ih =>
    rw [signs_cons (by rintro rfl; cases cs <;> simp_all)]
    simp [ih, Sign.value]

/-! ## Where a literal ends -/

theorem body?_cons (h : c ≠ '\\') (cs : List Char) :
    body? quote (c :: cs) =
      if c = quote then some ([], cs) else (body? quote cs).map fun (body, rest) => (c :: body, rest) := by
  rw [body?] <;> simp [h]

theorem complete_of_body? (h : body? quote cs = some (body, rest)) : Complete quote body := by
  fun_induction body? quote cs generalizing body rest with
  | case1 | case2 => cases h
  | case3 c cs ih =>
    obtain ⟨⟨body, rest⟩, hbody, heq⟩ := Option.map_eq_some_iff.mp h
    cases heq
    exact ⟨by simpa using (ih hbody).bare, by simpa using (ih hbody).lone⟩
  | case4 cs =>
    cases h
    exact ⟨by simp, by simp⟩
  | case5 c cs _ hescape hne ih =>
    obtain ⟨⟨body, rest⟩, hbody, heq⟩ := Option.map_eq_some_iff.mp h
    cases heq
    have hc : c ≠ '\\' := by rintro rfl; cases cs <;> simp_all
    constructor <;> rw [signs_cons hc]
    · simpa [Ne.symm hne] using (ih hbody).bare
    · simpa using (ih hbody).lone

theorem body?_of_complete (hquote : quote ≠ '\\') (h : Complete quote body) (rest : List Char) :
    body? quote (body ++ quote :: rest) = some (body, rest) := by
  fun_induction signs body with
  | case1 => rw [List.nil_append, body?_cons hquote, if_pos rfl]
  | case2 => exact absurd h.lone (by simp [signs])
  | case3 c cs ih =>
    have hcs : Complete quote cs := ⟨by simpa using h.bare, by simpa using h.lone⟩
    simp [body?, ih hcs]
  | case4 c cs _ hescape ih =>
    have hc : c ≠ '\\' := by rintro rfl; cases cs <;> simp_all
    have hbare := h.bare
    have hlone := h.lone
    rw [signs_cons hc] at hbare hlone
    have hne : c ≠ quote := by rintro rfl; simp at hbare
    have hcs : Complete quote cs := ⟨fun hmem => hbare (.tail _ hmem), fun hmem => hlone (.tail _ hmem)⟩
    rw [List.cons_append, body?_cons hc, if_neg hne, ih hcs]
    rfl

/-- The body goes up to the first quote that is a sign of its own. -/
theorem body?_eq_some_iff (hquote : quote ≠ '\\') :
    body? quote cs = some (body, rest) ↔ cs = body ++ quote :: rest ∧ Complete quote body := by
  constructor
  · exact fun h => ⟨Lexer.body?_eq h, complete_of_body? h⟩
  · rintro ⟨rfl, hbody⟩
    exact body?_of_complete hquote hbody rest

/-- What a body stands for does not depend on what a backslash with nothing behind it stands for. -/
theorem Complete.unescape_eq (h : Complete quote body) (lone : Char) :
    unescape body = (signs body).map (Sign.value lone) := by
  rw [StringLiteral.unescape_eq]
  refine List.map_congr_left fun sign hsign => ?_
  cases sign with
  | bare c | escaped c => rfl
  | lone => exact absurd hsign h.lone

/-! ## The literal for a text -/

theorem signs_escape (quote : Char) (text : List Char) :
    signs (escape quote text) = text.map fun c => if c = '\\' ∨ c = quote then .escaped c else .bare c := by
  induction text with
  | nil => rfl
  | cons c text ih =>
    rw [escape, List.flatMap_cons, ← escape, List.map_cons]
    split
    · simp [ih]
    · rename_i h
      rw [List.singleton_append, signs_cons (not_or.mp h).1, ih]

theorem complete_escape (quote : Char) (text : List Char) : Complete quote (escape quote text) := by
  constructor <;> rw [signs_escape] <;> grind

theorem escaped_of_mem (h : c ∈ ['\\', '"', '\'']) : escaped c = c := by
  simp only [List.mem_cons, List.not_mem_nil, or_false] at h
  rcases h with rfl | rfl | rfl <;> rfl

theorem unescape_escape (hquote : quote ∈ ['"', '\'']) (text : List Char) : unescape (escape quote text) = text := by
  rw [unescape_eq, signs_escape, List.map_map]
  refine (List.map_congr_left fun c _ => ?_).trans (List.map_id text)
  by_cases h : c = '\\' ∨ c = quote
  · have hc : escaped c = c := escaped_of_mem (by rcases h with rfl | rfl <;> simp_all)
    simp [h, Sign.value, hc]
  · simp [h, Sign.value]

end StringLiteral

namespace Lexer

open StringLiteral (escape)

variable {text tail cs : List Char} {offset : Nat} {c : Char} {l : Lexeme}

theorem lexeme?_of_quote {quote : Char} {body rest : List Char} (hquote : quote ∈ ['"', '\''])
    (h : StringLiteral.body? quote tail = some (body, rest)) :
    lexeme? quote tail = some ⟨.string, body, 1, rest⟩ := by
  have hif : (quote = '"' || quote = '\'') = true := by simpa using hquote
  simp [lexeme?, hif, h]

theorem body?_of_lexeme? (h : lexeme? c tail = some l) (hkind : l.kind = .string) :
    StringLiteral.body? c tail = some (l.text, l.rest) := by
  revert h
  fun_cases lexeme? c tail with
  | case1 hquote =>
    intro h
    obtain ⟨⟨body, rest⟩, hbody, rfl⟩ := Option.map_eq_some_iff.mp h
    exact hbody
  | case2 | case7 => simp
  | case3 | case4 | case5 | case6 =>
    rintro ⟨⟩
    simp at hkind

/-- The only token of a literal has the body as its text and stands between the quotes. -/
theorem tokens_literal {quote : Char} (hquote : quote ∈ ['"', '\'']) (s : List Char) :
    tokens (quote :: (escape quote s ++ [quote])) =
      .token ⟨.string, String.ofList (escape quote s), 1, 1 + byteLength (escape quote s)⟩
        (.eof (2 + byteLength (escape quote s))) := by
  have hblank : isBlank quote = false := by
    simp only [List.mem_cons, List.not_mem_nil, or_false] at hquote
    rcases hquote with rfl | rfl <;> rfl
  have hbackslash : quote ≠ '\\' := by rintro rfl; simp at hquote
  have hbody : StringLiteral.body? quote (escape quote s ++ [quote]) = some (escape quote s, []) :=
    (StringLiteral.body?_eq_some_iff hbackslash).mpr ⟨rfl, StringLiteral.complete_escape quote s⟩
  have hl := lexeme?_of_quote hquote hbody
  have hdrop : (quote :: (escape quote s ++ [quote])).dropWhile isBlank = quote :: (escape quote s ++ [quote]) := by
    simp [hblank]
  rw [tokens, List.length_cons, tokensFrom_of_lexeme hdrop hl]
  simp [hblank, Lexeme.token, Lexeme.stop, tokensFrom_nil, byteLength]

end Lexer

/-! ## Literals in a text -/

/-- The token is the body of a literal in the text: it stands between two quotes of one kind, and none of its signs
is that quote. -/
def Token.Literal (text : List Char) (t : Token) : Prop :=
  t.first + 1 = t.start ∧ ∃ quote ∈ ['"', '\''], ∃ rest,
    fromByte? t.first text = some (quote :: (t.text.toList ++ quote :: rest)) ∧
      StringLiteral.Complete quote t.text.toList

namespace Lexer

variable {text tail cs : List Char} {bound offset start : Nat} {c : Char} {l : Lexeme}

theorem Lexeme.literal_token (h : lexeme? c tail = some l) (hstart : fromByte? start text = some (c :: tail))
    (hkind : l.kind = .string) : (l.token start).Literal text := by
  obtain ⟨-, hquotes, hquote⟩ | ⟨hother, -⟩ := lexeme?_quotes h
  · have hbackslash : c ≠ '\\' := by rintro rfl; simp at hquote
    obtain ⟨rfl, hcomplete⟩ := (StringLiteral.body?_eq_some_iff hbackslash).mp (body?_of_lexeme? h hkind)
    rw [Token.Literal, first_token h]
    exact ⟨by simp [Lexeme.token, hquotes], c, hquote, l.rest, by simpa [Lexeme.token] using hstart,
      by simpa [Lexeme.token] using hcomplete⟩
  · exact absurd hkind hother

/-- What holds of every token where it is read in the text holds of all its tokens, also behind faults. -/
theorem tokensFrom_all_of_place {P : Token → Prop}
    (hP : ∀ c tail l start, fromByte? start text = some (c :: tail) → lexeme? c tail = some l → P (l.token start))
    (bound : Nat) (hcs : fromByte? offset text = some cs) :
    (tokensFrom bound offset cs).All P fun _ => True := by
  induction bound generalizing offset cs with
  | zero => trivial
  | succ bound ih =>
    have hplace := fromByte?_dropWhile isBlank hcs
    cases hdrop : cs.dropWhile isBlank with
    | nil =>
      rw [tokensFrom_of_blank hdrop]
      trivial
    | cons c tail =>
      rw [hdrop] at hplace
      cases hl : lexeme? c tail with
      | some l =>
        rw [tokensFrom_of_lexeme hdrop hl]
        exact ⟨hP c tail l _ hplace hl, ih (Lexeme.within hl hplace).2⟩
      | none =>
        rcases tokensFrom_of_fault bound offset hdrop hl with
          ⟨fault, heq⟩ | ⟨fault, stop, -, heq⟩ | ⟨fault, front, rest, hsplit, heq⟩
        · rw [heq]
          trivial
        · rw [heq]
          trivial
        · rw [heq]
          rw [hsplit] at hplace
          exact ih (fromByte?_add hplace (fromByte?_byteLength_append front rest))

end Lexer

namespace TokenStream

variable {P : Token → Prop} {Q : Nat → Prop} {s : TokenStream} {t : Token}

/-- What there is to read after a number of calls, of which each may read a token or fail. -/
def after (calls : Nat) (s : TokenStream) : TokenStream := (fun s => s.next.2)^[calls] s

/-- A call gives a token with the property or the end, and leaves only such tokens. -/
theorem All.next (h : s.All P Q) : s.next.2.All P Q ∧ ∀ t, s.next.1 = .ok t → t.kind ≠ .eof → P t := by
  cases s with
  | eof offset =>
    refine ⟨h, ?_⟩
    rintro t ⟨⟩ hkind
    exact absurd rfl hkind
  | stuck fault =>
    refine ⟨h, ?_⟩
    rintro t ⟨⟩
  | skip fault rest =>
    refine ⟨h, ?_⟩
    rintro t ⟨⟩
  | token head rest =>
    refine ⟨h.2, ?_⟩
    rintro t ⟨⟩ _
    exact h.1

theorem All.after (h : s.All P Q) (calls : Nat) : (s.after calls).All P Q := by
  induction calls with
  | zero => exact h
  | succ calls ih =>
    rw [TokenStream.after, Function.iterate_succ_apply']
    exact ih.next.1

end TokenStream

theorem Lexer.all_literal_tokens (text : List Char) :
    (Lexer.tokens text).All (fun t => t.kind = .string → t.Literal text) fun _ => True :=
  tokensFrom_all_of_place (fun _ _ _ _ hstart h hkind => Lexeme.literal_token h hstart hkind) _ (fromByte?_zero text)

/-- A text comes back from its literal. Whatever is read from a text, after any number of calls, a string token is the
whole of a literal there: its own quote is no sign of its body, and its last sign is complete, so what the body stands
for does not depend on what a backslash at the end stands for. -/
theorem Lexer.literals_round_trip :
    (∀ quote ∈ ['"', '\''], ∀ s : List Char,
      tokens (quote :: (StringLiteral.escape quote s ++ [quote])) =
        .token ⟨.string, String.ofList (StringLiteral.escape quote s), 1, 1 + byteLength (StringLiteral.escape quote s)⟩
          (.eof (2 + byteLength (StringLiteral.escape quote s))) ∧
      StringLiteral.unescape (StringLiteral.escape quote s) = s) ∧
    ∀ (text : List Char) (calls : Nat) (t : Token), ((tokens text).after calls).next.1 = .ok t → t.kind = .string →
      t.Literal text ∧ ∀ lone, StringLiteral.unescape t.text.toList =
        (StringLiteral.signs t.text.toList).map (StringLiteral.Sign.value lone) := by
  constructor
  · intro quote hquote s
    exact ⟨tokens_literal hquote s, StringLiteral.unescape_escape hquote s⟩
  · intro text calls t hnext hkind
    have hliteral := ((all_literal_tokens text).after calls).next.2 t hnext (by simp [hkind]) hkind
    obtain ⟨-, quote, -, rest, -, hcomplete⟩ := id hliteral
    exact ⟨hliteral, hcomplete.unescape_eq⟩

/-- A text that ends with a backslash and a quote, and a literal behind a number that is spoilt by a letter. -/
theorem Lexer.literals_round_trip_backslashes :
    let body := ['\x00', '\\', '\\', '\\', '\'']
    let text := ['1', 'a', ' ', '"', '\'', '\\', '"', '"']
    let literal : Token := ⟨.string, "'\\\"", 4, 7⟩
    StringLiteral.escape '\'' ['\x00', '\\', '\''] = body ∧
      tokens ('\'' :: (body ++ ['\''])) = .token ⟨.string, String.ofList body, 1, 6⟩ (.eof 7) ∧
      StringLiteral.unescape body = ['\x00', '\\', '\''] ∧
      ((tokens text).after 2).next.1 = .ok literal ∧ literal.Literal text := by
  intro body text literal
  have hread : ((tokens text).after 2).next.1 = .ok literal := rfl
  obtain ⟨htokens, hvalue⟩ := literals_round_trip.1 '\'' (by simp) ['\x00', '\\', '\'']
  exact ⟨rfl, htokens, hvalue, hread, (literals_round_trip.2 text 2 literal hread rfl).1⟩

end DataBinding
