import DataBinding.Expr.Key
import DataBinding.Proofs.Grammar.Alignment

/-!
# Where expressions end

An expression that fills a text is also read from the front of a longer text, when a comma separates it
from the rest. A comma that follows the expression does so unless it stands in a string literal: the one
token that reaches over an ending is a literal that the first text does not close.
-/
namespace DataBinding.Grammar
open Text

variable {s : Setting} {u : List Char}

theorem ofText_eq_ok {c : Cursor} : Cursor.ofText u = .ok c ↔
    ∃ t rest, (Lexer.tokens u).next = (.ok t, rest) ∧ c = ⟨t, rest, []⟩ := by
  unfold Cursor.ofText
  split
  · rename_i t rest hn
    simp [hn, eq_comm]
  · rename_i fault rest hn
    simp [hn]

/-! ## How expressions start -/

def openers : List String := ["(", "!", "-"]

section Openers

variable {nested : Nested} {c c' : Cursor} {e : Expr}
  (hc : c.token.kind = .symbol ∨ c.token.kind = .eof)
include hc

theorem unary_opens (h : (unary s nested).run.run c = (.ok e, c')) : c.token.text ∈ openers := by
  by_contra hopen
  simp only [openers, List.mem_cons, List.not_mem_nil, or_false, not_or] at hopen
  obtain ⟨hparen, hnot, hminus⟩ := hopen
  have hprimary : (primary s nested).run.run c = (.error (c.token.fault .expectedExpression), c) := by
    unfold primary
    rw [run_current_bind]
    rcases hc with hc | hc
    · simp only [hc, hparen, if_false]
      rfl
    · rw [hc]
      rfl
  have hkeyword : c.token.isKeyword "not" = false := by
    rcases hc with hc | hc <;> simp [Token.isKeyword, hc]
  have hsymbols : c.token.isSymbol "!" = false ∧ c.token.isSymbol "-" = false := by
    simp [Token.isSymbol, hnot, hminus]
  unfold unary at h
  rw [run_current_bind] at h
  simp only [hkeyword, hsymbols, Bool.or_false, Bool.false_eq_true, if_false, run_bind, hprimary] at h
  cases h

omit hc in
theorem binary_opens {operand : ParseM Expr}
    (ho : ∀ e c', operand.run.run c = (.ok e, c') → c.token.text ∈ openers)
    (levels : List (List BinaryOp)) (h : (binary s operand levels).run.run c = (.ok e, c')) :
    c.token.text ∈ openers := by
  induction levels generalizing e c' with
  | nil => exact ho e c' h
  | cons ops tighter ih =>
    obtain ⟨left, c₁, hleft, -⟩ := run_bind_eq_ok.mp h
    exact ih hleft

/-- A symbol that starts an expression is one of those that may. -/
theorem parse_opens (h : (parse s).run.run c = (.ok e, c')) : c.token.text ∈ openers := by
  unfold parse at h
  rw [run_remaining_bind] at h
  obtain ⟨test, c₁, htest, -⟩ := run_bind_eq_ok.mp h
  obtain ⟨left, c₂, hleft, -⟩ := run_bind_eq_ok.mp htest
  exact binary_opens (fun e c' => unary_opens hc) levels hleft

end Openers

/-- A fault is still to come: the end of the text is not reached without passing it. -/
def FaultAhead (c : Cursor) : Prop :=
  ¬ c.rest.Faultless ∧ c.rest.All (fun t => t.kind ≠ .eof) (fun _ => True) ∧ c.token.kind ≠ .eof

theorem steady_faultAhead : Steady FaultAhead where
  pass c token rest hc hnext := by
    obtain ⟨hfault, hall, -⟩ := hc
    cases hrest : c.rest with
    | eof offset =>
      rw [hrest] at hfault
      exact absurd rfl hfault
    | stuck fault | skip fault tail =>
      rw [hrest] at hnext
      cases hnext
    | token head tail =>
      rw [hrest] at hnext hfault hall
      cases hnext
      exact ⟨by simpa using hfault, hall.2, hall.1⟩
  record _ _ hc := hc

theorem faultless_of_parseBytes {p : Parsed} (h : parseBytes s u true = .ok p) :
    (Lexer.tokens u).Faultless := by
  obtain ⟨c, c', hc, hrun, hend, -⟩ := parseBytes_eq_ok.mp h
  obtain ⟨t, rest, hn, rfl⟩ := ofText_eq_ok.mp hc
  by_contra hfault
  have hall : (Lexer.tokens u).All (fun t => t.kind ≠ .eof) (fun _ => True) :=
    Lexer.tokensFrom_all _ _ _ (fun _ _ _ _ _ hl => Lexer.kind_ne_eof hl) fun _ _ => trivial
  have hstart : FaultAhead ⟨t, rest, []⟩ :=
    steady_faultAhead.pass ⟨⟨.symbol, "", 0, 0⟩, Lexer.tokens u, []⟩ t rest
      ⟨hfault, hall, by simp⟩ hn
  exact (keeps_parse steady_faultAhead s _ _ _ hstart hrun).2.2 (hend rfl)

theorem trimStart_ne_nil_of_parseBytes {whole : Bool} {p : Parsed} (h : parseBytes s u whole = .ok p) :
    trimStart u ≠ [] := by
  intro hu
  obtain ⟨cursor, c', hcursor, hrun, -⟩ := parseBytes_eq_ok.mp h
  obtain ⟨t, rest, hn, rfl⟩ := ofText_eq_ok.mp hcursor
  obtain ⟨offset, htokens⟩ : ∃ offset, Lexer.tokens u = .eof offset := by
    unfold Lexer.tokens
    cases hlength : u.length with
    | zero => exact ⟨0, rfl⟩
    | succ n => exact ⟨_, Lexer.tokensFrom_of_blank hu⟩
  rw [htokens] at hn
  cases hn
  have hopen : "" ∈ openers := parse_opens (Or.inr rfl) hrun
  exact absurd hopen (by decide)

theorem head_ne_of_parseBytes {whole : Bool} {p : Parsed} (h : parseBytes s u whole = .ok p) {c : Char}
    {tail : List Char} (hu : trimStart u = c :: tail) : c ≠ '\x7b' ∧ c ≠ '=' := by
  suffices hsingle : c ∈ Lexer.singles → String.ofList [c] ∈ openers by
    constructor
    · rintro rfl
      exact absurd (hsingle (by decide)) (by decide)
    · rintro rfl
      exact absurd (hsingle (by decide)) (by decide)
  intro hc
  obtain ⟨l, hl, hkind, hhead⟩ := Lexer.lexeme?_of_mem_singles hc tail
  obtain ⟨cursor, c', hcursor, hrun, -⟩ := parseBytes_eq_ok.mp h
  obtain ⟨t, rest, hn, rfl⟩ := ofText_eq_ok.mp hcursor
  obtain ⟨n, hn'⟩ : ∃ n, u.length = n + 1 := by
    cases u with
    | nil => cases hu
    | cons d ds => exact ⟨ds.length, rfl⟩
  rw [Lexer.tokens, hn', Lexer.tokensFrom_of_lexeme hu hl] at hn
  cases hn
  have hopen : String.ofList l.text ∈ openers := parse_opens (Or.inl hkind) hrun
  obtain ⟨d, ds, hd⟩ : ∃ d ds, l.text = d :: ds := by
    cases hl : l.text with
    | nil => simp [hl] at hhead
    | cons d ds => exact ⟨d, ds, rfl⟩
  obtain rfl : d = c := by simpa [hd] using hhead
  have hlength : ∀ x ∈ openers, x.toList.length = 1 := by decide
  obtain rfl : ds = [] := by simpa [hd] using hlength _ hopen
  rwa [hd] at hopen

/-! ## Texts with an ending -/

/-- The end of the text or a comma comes next. -/
def Separates (ending : List Char) : Prop := ending = [] ∨ ∃ rest, ending = ',' :: rest

theorem Separates.breaks {ending : List Char} (h : Separates ending) : Lexer.Breaks ending := by
  rcases h with rfl | ⟨rest, rfl⟩
  · exact Lexer.breaks_nil
  · exact Lexer.breaks_comma rest

theorem tokensFrom_comma (k offset : Nat) (rest : List Char) :
    Lexer.tokensFrom (k + 1) offset (',' :: rest) =
      .token ⟨.symbol, ",", offset, offset + 1⟩ (Lexer.tokensFrom k (offset + 1) rest) := by
  have hblank : isBlank ',' = false := by decide
  have hpair : ¬ Lexer.pairs.contains (',' :: rest.take 1) = true := by
    cases rest <;> simp [Lexer.pairs]
  have hl : Lexer.lexeme? ',' rest = some ⟨.symbol, [','], 0, rest⟩ := by
    unfold Lexer.lexeme?
    rw [if_neg (by decide), if_neg (by decide), if_neg (by decide), if_neg hpair, if_pos (by decide)]
  have hdrop : (',' :: rest).dropWhile isBlank = ',' :: rest := by simp [hblank]
  have htake : (',' :: rest).takeWhile isBlank = [] := by simp [hblank]
  rw [Lexer.tokensFrom_of_lexeme hdrop hl, htake]
  rfl

theorem Separates.tokensFrom {ending : List Char} (h : Separates ending) {k : Nat}
    (hk : ending.length ≤ k) (offset : Nat) :
    Closes (Lexer.tokensFrom k offset ending) ∧
      ∃ t rest, (Lexer.tokensFrom k offset ending).next = (.ok t, rest) ∧ t.start = offset := by
  rcases h with rfl | ⟨rest, rfl⟩
  · rw [Lexer.tokensFrom_nil]
    exact ⟨.eof offset, _, _, rfl, rfl⟩
  · obtain ⟨k, rfl⟩ : ∃ j, k = j + 1 := ⟨k - 1, by simp at hk; omega⟩
    rw [tokensFrom_comma]
    exact ⟨.comma rfl rfl _, _, _, rfl, rfl⟩

/-- Texts with the same tokens before their endings start at cursors that have them. -/
theorem exists_aligned {e₁ e₂ : TokenStream} (h₁ : Closes e₁) (h₂ : Closes e₂) {ts₁ ts₂ : List Token}
    (hsame : List.Forall₂ Token.Same ts₁ ts₂) (hts : ∀ t ∈ ts₁, t.kind ≠ .eof) {u₁ u₂ : List Char}
    (hu₁ : Lexer.tokens u₁ = .prepend ts₁ e₁) (hu₂ : Lexer.tokens u₂ = .prepend ts₂ e₂) :
    ∃ c₁ c₂, Cursor.ofText u₁ = .ok c₁ ∧ Cursor.ofText u₂ = .ok c₂ ∧ Aligned e₁ e₂ c₁ c₂ := by
  unfold Cursor.ofText
  rw [hu₁, hu₂]
  cases hsame with
  | nil =>
    obtain ⟨t₁, r₁, hn₁, -⟩ := h₁.next
    obtain ⟨t₂, r₂, hn₂, -⟩ := h₂.next
    simp only [TokenStream.prepend_nil, hn₁, hn₂]
    exact ⟨_, _, rfl, rfl, Or.inr ⟨hn₁, hn₂, rfl⟩⟩
  | cons ht hsame =>
    refine ⟨_, _, rfl, rfl, Or.inl ⟨hts _ (by simp), ht, ⟨_, _, hsame, ?_, rfl, rfl⟩, rfl⟩⟩
    exact fun t ht => hts t (by simp [ht])

/-- A text that is read as a whole is read alike from a text that has the same tokens before its ending. -/
theorem parseBytes_of_same {u₁ u₂ : List Char} {ts₁ ts₂ : List Token} {stop : Nat} {e : TokenStream}
    (hsame : List.Forall₂ Token.Same ts₁ ts₂) (hts : ∀ t ∈ ts₁, t.kind ≠ .eof)
    (hu₁ : Lexer.tokens u₁ = .prepend ts₁ (.eof stop)) (hu₂ : Lexer.tokens u₂ = .prepend ts₂ e)
    (he : Closes e) {t : Token} {rest : TokenStream} (hn : e.next = (.ok t, rest)) {p : Parsed}
    (h : parseBytes s u₁ true = .ok p) :
    parseBytes s u₂ false = .ok ⟨p.expr, p.namespaces, t.start⟩ := by
  obtain ⟨c₁, c₁', hc₁, hrun, hend, hp⟩ := parseBytes_eq_ok.mp h
  obtain ⟨c, c₂, hc, hc₂, halign⟩ := exists_aligned (.eof _) he hsame hts hu₁ hu₂
  rw [hc₁] at hc
  cases hc
  obtain ⟨c₂', hrun₂, halign'⟩ := follows_parse (.eof _) he s halign _ _ hrun (Nat.zero_le _)
  refine parseBytes_eq_ok.mpr ⟨c₂, c₂', hc₂, hrun₂, by simp, ?_⟩
  rcases halign' with hlive | hclosed
  · exact absurd (hend rfl) hlive.kind
  · obtain ⟨ht, -⟩ := Prod.mk.inj (hn.symm.trans hclosed.next₂)
    cases ht
    rw [hp]
    simp [hclosed.used]

/-- An expression that fills a text is read with any blanks around it and any ending behind. -/
theorem parseBytes_framed {p : Parsed} (h : parseBytes s u true = .ok p) {front back ending : List Char}
    (hfront : ∀ c ∈ front, isBlank c = true) (hback : ∀ c ∈ back, isBlank c = true)
    (hending : Separates ending) :
    parseBytes s (front ++ (trim u ++ (back ++ ending))) false =
      .ok ⟨p.expr, p.namespaces, byteLength front + byteLength (trim u) + byteLength back⟩ := by
  have hlexes := Lexer.lexes_of_faultless (Nat.le_refl _) (faultless_of_parseBytes h)
  obtain ⟨front₀, back₀, hu, hfront₀, hback₀⟩ := Lexer.exists_trim_eq u
  obtain ⟨ts, hts, hsame, htokens⟩ := hlexes.trim.exists_tokens_framed
  obtain ⟨k₁, hk₁, hu₁⟩ := htokens front₀ (back₀ ++ []) hfront₀ (by simpa using Lexer.breaks_blanks hback₀)
  obtain ⟨k₂, hk₂, hu₂⟩ := htokens front (back ++ ending) hfront (hending.breaks.append hback)
  rw [Lexer.tokensFrom_blanks (List.dropWhile_eq_nil_iff.mpr hback₀) hk₁, Lexer.tokensFrom_nil,
    List.append_nil, ← hu] at hu₁
  rw [Lexer.tokensFrom_blanks (List.dropWhile_eq_nil_iff.mpr hback) hk₂] at hu₂
  rw [List.length_append] at hk₂
  obtain ⟨hcloses, t, rest, hn, hstart⟩ := hending.tokensFrom (Nat.le_of_add_left_le hk₂)
    (byteLength front + byteLength (trim u) + byteLength back)
  rw [parseBytes_of_same (hsame _ _) (fun t ht => (hts _ t ht).1) hu₁ hu₂ hcloses hn h, hstart]

theorem parseBytes_append {p : Parsed} (h : parseBytes s u true = .ok p) {ending : List Char}
    (hending : Separates ending) :
    parseBytes s (u ++ ending) false = .ok ⟨p.expr, p.namespaces, byteLength u⟩ := by
  obtain ⟨front, back, hu, hfront, hback⟩ := Lexer.exists_trim_eq u
  have hread := parseBytes_framed h hfront hback hending
  have hlength : byteLength u = byteLength front + byteLength (trim u) + byteLength back := by
    conv_lhs => rw [hu]
    simp only [byteLength_append]
    omega
  have htext : u ++ ending = front ++ (trim u ++ (back ++ ending)) := by
    conv_lhs => rw [hu]
    simp
  rw [htext, hlength]
  exact hread

/-! ## Reading that stops at a comma -/

/-- The cursor is before the offset, at the ending, or behind the offset. -/
def Passing (offset : Nat) (e : TokenStream) (c : Cursor) : Prop :=
  (c.token.start < offset ∧ ∃ ts : List Token, (∀ t ∈ ts, t.start < offset) ∧ c.rest = .prepend ts e) ∨
    e.next = (.ok c.token, c.rest) ∨
      (offset < c.token.start ∧ c.rest.All (fun t => offset < t.start) fun stop => offset < stop)

theorem behind_of_next {offset : Nat} {rest : TokenStream} {token : Token} {tail : TokenStream}
    (h : rest.All (fun t => offset < t.start) fun stop => offset < stop)
    (hn : rest.next = (.ok token, tail)) :
    offset < token.start ∧ tail.All (fun t => offset < t.start) fun stop => offset < stop := by
  cases rest with
  | eof stop =>
    cases hn
    exact ⟨h, h⟩
  | stuck fault | skip fault rest => cases hn
  | token head rest =>
    cases hn
    exact h

theorem passing_of_next {offset : Nat} {e : TokenStream} {ts : List Token}
    (hts : ∀ t ∈ ts, t.start < offset) {token : Token} {tail : TokenStream}
    (hn : (TokenStream.prepend ts e).next = (.ok token, tail)) (used : List MarkupNamespace) :
    Passing offset e ⟨token, tail, used⟩ := by
  cases ts with
  | nil => exact Or.inr (Or.inl hn)
  | cons t ts =>
    cases hn
    exact Or.inl ⟨hts _ (by simp), ts, fun t ht => hts t (by simp [ht]), rfl⟩

theorem steady_passing {offset : Nat} {comma : Token} {rest : TokenStream}
    (hrest : rest.All (fun t => offset < t.start) fun stop => offset < stop) :
    Steady (Passing offset (.token comma rest)) where
  pass c token tail hc hn := by
    rcases hc with ⟨hstart, ts, hts, heq⟩ | hc | ⟨-, hall⟩
    · rw [heq] at hn
      exact passing_of_next hts hn c.used
    · cases hc
      exact Or.inr (Or.inr (behind_of_next hrest hn))
    · exact Or.inr (Or.inr (behind_of_next hall hn))
  record _ _ hc := hc

/-- What is read up to a comma behind a text without faults fills the text. -/
theorem parseBytes_of_append {p : Parsed} {rest : List Char} (hfault : (Lexer.tokens u).Faultless)
    (h : parseBytes s (u ++ ',' :: rest) false = .ok p) (hstop : p.stop = byteLength u) :
    parseBytes s u true = .ok p := by
  obtain ⟨c₁, c₁', hc₁, hrun, -, hp⟩ := parseBytes_eq_ok.mp h
  have hlexes := Lexer.lexes_of_faultless (Nat.le_refl _) hfault
  obtain ⟨ts, hts, hsame, htokens⟩ := hlexes.exists_tokens_framed
  obtain ⟨k₁, hk₁, hu₁⟩ := htokens [] (',' :: rest) (by simp) (Lexer.breaks_comma rest)
  obtain ⟨k₂, -, hu₂⟩ := htokens [] [] (by simp) Lexer.breaks_nil
  simp only [List.nil_append, List.append_nil, byteLength, Nat.zero_add, Lexer.tokensFrom_nil] at hts hu₁ hu₂
  obtain ⟨k₁, rfl⟩ : ∃ j, k₁ = j + 1 := ⟨k₁ - 1, by simp at hk₁; omega⟩
  rw [tokensFrom_comma] at hu₁
  have hbehind : (Lexer.tokensFrom k₁ (byteLength u + 1) rest).All
      (fun t => byteLength u < t.start) fun stop => byteLength u < stop :=
    Lexer.tokensFrom_all _ _ _ (fun _ _ _ _ hle _ => Nat.lt_of_lt_of_le hle (Nat.le_add_right _ _))
      fun _ hle => hle
  generalize hcomma : TokenStream.token ⟨.symbol, ",", byteLength u, byteLength u + 1⟩
    (Lexer.tokensFrom k₁ (byteLength u + 1) rest) = e₁ at hu₁
  have hcloses : Closes e₁ := hcomma ▸ .comma rfl rfl _
  obtain ⟨c, c₂, hc, hc₂, halign⟩ := exists_aligned hcloses (.eof _) (hsame 0 0) (fun t ht => (hts 0 t ht).1) hu₁ hu₂
  rw [hc₁] at hc
  cases hc
  have hpassing : Passing (byteLength u) e₁ c₁' := by
    obtain ⟨t, tail, hn, rfl⟩ := ofText_eq_ok.mp hc₁
    rw [hu₁] at hn
    have hstart := passing_of_next (fun t ht => by simpa using (hts 0 t ht).2) hn []
    subst hcomma
    exact keeps_parse (steady_passing hbehind) s _ _ c₁' hstart hrun
  -- of all tokens, only the comma starts where reading stopped
  have hstart : c₁'.token.start = byteLength u := by rw [← hstop, hp]
  have hnext : e₁.next = (.ok c₁'.token, c₁'.rest) := by
    rcases hpassing with ⟨hlt, -⟩ | hnext | ⟨hlt, -⟩
    · omega
    · exact hnext
    · omega
  have hsize : c₁'.remaining = e₁.size := by
    obtain ⟨t, tail, hn, -, hremaining⟩ := hcloses.next
    rw [hnext] at hn
    cases hn
    exact hremaining c₁'.used
  obtain ⟨c₂', hrun₂, halign'⟩ := follows_parse hcloses (.eof _) s halign _ _ hrun (Nat.le_of_eq hsize.symm)
  rcases halign' with hlive | hclosed
  · have := hlive.size_lt
    omega
  · have htoken : .eof (byteLength u) = c₂'.token := Except.ok.inj (Prod.mk.inj hclosed.next₂).1
    refine parseBytes_eq_ok.mpr ⟨c₂, c₂', hc₂, hrun₂, fun _ => ?_, ?_⟩
    · rw [← htoken]
      rfl
    · rw [← htoken, ← hclosed.used, hp, hstart]
      rfl

/-! ## Commas -/

theorem parseText_eq_ok {text : String} {whole : Bool} {p : Parsed} :
    parseText s text whole = .ok p ↔ parseBytes s text.toList whole = .ok p := by
  unfold parseText
  cases parseBytes s text.toList whole <;> simp [Except.mapError]

/-- An expression fills a text exactly if it is read from the front of the text with a comma and anything
behind it, up to the comma, and the text has no fault. -/
theorem parseText_comma_iff (s : Setting) (u r : String) (e : Expr) (namespaces : List MarkupNamespace) :
    (∃ stop, parseText s u true = .ok ⟨e, namespaces, stop⟩) ↔
      parseText s (u ++ "," ++ r) false = .ok ⟨e, namespaces, byteLength u.toList⟩ ∧
        (Lexer.tokens u.toList).Faultless := by
  have htext : (u ++ "," ++ r).toList = u.toList ++ ',' :: r.toList := by simp
  simp only [parseText_eq_ok, htext]
  constructor
  · rintro ⟨stop, h⟩
    exact ⟨parseBytes_append h (Or.inr ⟨r.toList, rfl⟩), faultless_of_parseBytes h⟩
  · rintro ⟨h, hfault⟩
    exact ⟨_, parseBytes_of_append hfault h rfl⟩

def titlePage : Setting where
  registry := ⟨Registry.systemTypes ++
    [{ name := "Page", properties := [{ name := "Title", type := .string }] }]⟩
  root := rootExpr (.named "Page") "dataRoot" false
  expected := none
  namespaces := []

/-- A comma in a string literal counts as the place where reading stops, since the place of the literal
leaves out its quote. The text before the comma is no expression. -/
theorem quoted_comma_ends_title :
    (∃ e : Expr, e.key = "dataRoot.Title" ∧
      parseText titlePage ("Title '" ++ "," ++ "b'") false = .ok ⟨e, [], byteLength "Title '".toList⟩) ∧
    ∀ p, parseText titlePage "Title '" true ≠ .ok p := by
  constructor
  · have hread : (parseText titlePage ("Title '" ++ "," ++ "b'") false).toOption.any (fun p =>
        p.expr.key == "dataRoot.Title" && p.namespaces.isEmpty && p.stop == 7) = true := by
      decide +kernel
    cases h : parseText titlePage ("Title '" ++ "," ++ "b'") false with
    | error fault =>
      rw [h] at hread
      cases hread
    | ok p =>
      rw [h] at hread
      obtain ⟨e, namespaces, stop⟩ := p
      simp only [Except.toOption, Option.any_some, Bool.and_eq_true, beq_iff_eq,
        List.isEmpty_iff] at hread
      obtain ⟨⟨hkey, rfl⟩, rfl⟩ := hread
      exact ⟨e, hkey, rfl⟩
  · intro p hp
    have hfault : (parseText titlePage "Title '" true).toOption.isNone = true := by decide +kernel
    simp [hp, Except.toOption] at hfault

end DataBinding.Grammar
