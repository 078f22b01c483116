import DataBinding.Text.Quoted
import DataBinding.Text.Slice
import Mathlib.Data.List.Basic

/-!
# Names in written forms

A written form is read character by character. Outside of quotes it consists of words and symbols, a text
with placeholders goes back to that between its braces, and a word names something of its own unless a
point stands before it. Reading tells the words that are names from all other text, so names can be
spelled in another way in a text alone. What has no name of a given kind in it is copied by that.
-/
namespace DataBinding.Text

theorem isNameChar_of_isDigit {c : Char} (h : c.isDigit) : isNameChar c = true := by
  have hascii : isAscii c = true := by
    have hle := (Char.isDigit_iff_toNat.mp h).2
    have hnine : '9'.toNat < 0x80 := by decide
    simp only [isAscii, decide_eq_true_eq]
    omega
  simp [isNameChar, isNumeral, hascii, h]

theorem isNameChar_toString (n : Nat) : ∀ c ∈ (toString n).toList, isNameChar c = true := by
  intro c hc
  rw [show (toString n).toList = Nat.toDigits 10 n by simp] at hc
  exact isNameChar_of_isDigit (Nat.isDigit_of_mem_toDigits (by decide) (by decide) hc)

/-- Names of one kind. They are words that start with a `v`. -/
structure NameKind where
  has : String → Bool
  spelled : ∀ x, has x = true → ∃ tail, x.toList = 'v' :: tail ∧ ∀ c ∈ tail, isNameChar c = true

namespace NameKind

variable {names : NameKind} {x : String}

theorem not_has_of_head (h : x.toList.head? ≠ some 'v') : names.has x = false := by
  by_contra hx
  obtain ⟨tail, htail, -⟩ := names.spelled x (Bool.not_eq_false _ ▸ hx)
  simp [htail] at h

theorem not_has_empty (names : NameKind) : names.has "" = false := not_has_of_head (by decide)

theorem isNameChar_of_has (h : names.has x) : ∀ c ∈ x.toList, isNameChar c = true := by
  obtain ⟨tail, htail, hall⟩ := names.spelled x h
  rw [htail]
  exact List.forall_mem_cons.mpr ⟨by decide, hall⟩

/-- Does the function spell all other words as they are? -/
def Spells (names : NameKind) (σ : String → String) : Prop := ∀ x, names.has x = false → σ x = x

theorem spells_id (names : NameKind) : names.Spells id := fun _ _ => rfl

/-- One name of the kind may get another text. -/
theorem Spells.update {σ : String → String} (hσ : names.Spells σ) (hx : names.has x) (text : String) :
    names.Spells (Function.update σ x text) := by
  intro y hy
  have hne : y ≠ x := by
    rintro rfl
    simp [hx] at hy
  rw [Function.update_of_ne hne, hσ y hy]

theorem spells_update (hx : names.has x) (text : String) : names.Spells (Function.update id x text) :=
  names.spells_id.update hx text

end NameKind

/-- Where a character stands in a written form. -/
inductive Region where
  /-- Outside of quotes, behind a symbol and the beginning of a word. -/
  | code (symbol : Char) (word : List Char)
  | literal
  | escaped
  /-- In a text with placeholders, outside of the braces and behind a character. -/
  | text (before : Char)
  deriving DecidableEq

namespace Region

def next : Region → Char → Region
  | .code symbol word, c =>
    if isNameChar c then .code symbol (word ++ [c])
    else if c = '\x7d' then .text c
    else if c ≠ '"' || symbol = '\\' then .code c []
    else if symbol = '$' then .text c
    else .literal
  | .literal, c => if c = '\\' then .escaped else if c = '"' then .code c [] else .literal
  | .escaped, _ => .literal
  | .text before, c => if c = '\x7b' || c = '"' && before ≠ '\\' then .code c [] else .text c

def continues : Region → Char → Bool
  | .code _ _, c => isNameChar c
  | _, _ => false

def word : Region → List Char
  | .code _ word => word
  | _ => []

/-- The word up to here, in another spelling when it is a name. -/
def spelled (σ : String → String) : Region → List Char
  | .code symbol word => if symbol = '.' then word else (σ (String.ofList word)).toList
  | _ => []

/-- Is the word up to here no name of the kind? -/
def isFree (names : NameKind) : Region → Bool
  | .code symbol word => symbol = '.' || !names.has (String.ofList word)
  | _ => true

theorem spelled_eq_word {names : NameKind} {σ : String → String} (hσ : names.Spells σ) {p : Region}
    (h : p.isFree names) : p.spelled σ = p.word := by
  cases p with
  | code symbol word =>
    by_cases hpoint : symbol = '.'
    · simp [spelled, Region.word, hpoint]
    · have hword : names.has (String.ofList word) = false := by simpa [isFree, hpoint] using h
      simp [spelled, Region.word, hpoint, hσ _ hword]
  | _ => rfl

theorem isFree_nil (names : NameKind) (symbol : Char) : (code symbol []).isFree names := by
  simp [isFree, names.not_has_empty]

end Region

/-- The text with its names in another spelling, from a place on. -/
def rename (σ : String → String) : Region → List Char → List Char
  | p, [] => p.spelled σ
  | p, c :: cs =>
    if p.continues c then rename σ (p.next c) cs else p.spelled σ ++ c :: rename σ (p.next c) cs

/-- The place behind a text in which no name of the kind ends. -/
def pass? (names : NameKind) : Region → List Char → Option Region
  | p, [] => some p
  | p, c :: cs => if p.continues c || p.isFree names then pass? names (p.next c) cs else none

section Copying

variable {names : NameKind} {σ : String → String} {p q : Region} {cs ds : List Char} {symbol c : Char}

theorem pass?_append : pass? names p (cs ++ ds) = (pass? names p cs).bind (pass? names · ds) := by
  induction cs generalizing p with
  | nil => rfl
  | cons c cs ih =>
    simp only [List.cons_append, pass?]
    split
    · exact ih
    · rfl

theorem pass?_word {word : List Char} (h : ∀ c ∈ cs, isNameChar c = true) :
    pass? names (.code symbol word) cs = some (.code symbol (word ++ cs)) := by
  induction cs generalizing word with
  | nil => simp [pass?]
  | cons c cs ih =>
    obtain ⟨hc, hcs⟩ := List.forall_mem_cons.mp h
    simp [pass?, Region.continues, Region.next, hc, ih hcs]

theorem word_next (h : p.continues c) : (p.next c).word = p.word ++ [c] := by
  cases p with
  | code symbol word => simp_all [Region.continues, Region.next, Region.word]
  | _ => cases h

theorem word_next_of_not_continues (h : p.continues c = false) : (p.next c).word = [] := by
  cases p with
  | code symbol word =>
    simp only [Region.continues] at h
    simp only [Region.next, h, Bool.false_eq_true, if_false]
    split
    · rfl
    · split
      · rfl
      · split <;> rfl
  | literal =>
    simp only [Region.next]
    split
    · rfl
    · split <;> rfl
  | escaped => rfl
  | text before =>
    simp only [Region.next]
    split <;> rfl

/-- From one place to another the text is spelled in the other way, up to the word that may still go on. -/
def Spelled (σ : String → String) (p : Region) (text text' : List Char) (q : Region) : Prop :=
  ∃ written, p.word ++ text' = written ++ q.word ∧
    ∀ rest, rename σ p (text ++ rest) = written ++ rename σ q rest

theorem spelled_nil : Spelled σ p [] [] p := ⟨[], by simp, by simp⟩

theorem Spelled.cons (hσ : names.Spells σ) (hc : p.continues c || p.isFree names)
    (h : Spelled σ (p.next c) cs ds q) : Spelled σ p (c :: cs) (c :: ds) q := by
  obtain ⟨written, hwritten, hrename⟩ := h
  by_cases hcontinues : p.continues c
  · rw [word_next hcontinues] at hwritten
    exact ⟨written, by simpa using hwritten, fun rest => by simp [rename, hcontinues, hrename]⟩
  · have hfree : p.isFree names := by simpa [hcontinues] using hc
    rw [word_next_of_not_continues (by simpa using hcontinues)] at hwritten
    refine ⟨p.word ++ c :: written, by simpa using hwritten, fun rest => ?_⟩
    simp [rename, hcontinues, hrename, Region.spelled_eq_word hσ hfree]

/-- What is passed is copied. -/
theorem spelled_of_pass? (hσ : names.Spells σ) (h : pass? names p cs = some q) :
    Spelled σ p cs cs q := by
  fun_induction pass? names p cs with
  | case1 p =>
    obtain rfl : p = q := Option.some.inj h
    exact spelled_nil
  | case2 p c cs hc ih => exact .cons hσ hc (ih h)
  | case3 p c cs hc => cases h

end Copying

/-! ## Texts that stand on their own -/

/-- Can the text stand behind a word or a literal? It starts neither a word nor a literal. -/
def Delimits (cs : List Char) : Prop := ∀ c ∈ cs.head?, isNameChar c = false ∧ c ≠ '"'

/-- Can a name or a literal stand behind the symbol? -/
def opens (symbol : Char) : Bool := symbol ≠ '.' && symbol ≠ '\\' && symbol ≠ '$'

/-- Is the text of symbols alone, with a name or a literal allowed behind it? -/
def isOpening (cs : List Char) : Bool :=
  cs.all (fun c => !isNameChar c && c ≠ '"' && c ≠ '\x7d') && cs.getLast?.all opens

/-- Does no name of the kind stand in the text, and does it end outside of quotes? -/
def isClear (names : NameKind) (text : String) : Bool :=
  match pass? names (.code ' ' []) text.toList with
  | some (.code symbol word) => (Region.code symbol word).isFree names
  | _ => false

/-- The other spelling of a text that stands on its own. -/
def Reads (σ : String → String) (text text' : String) : Prop :=
  ∀ rest, Delimits rest →
    rename σ (.code ' ' []) (text.toList ++ rest) = text'.toList ++ rename σ (.code ' ' []) rest

theorem opens_iff {symbol : Char} :
    opens symbol = true ↔ symbol ≠ '.' ∧ symbol ≠ '\\' ∧ symbol ≠ '$' := by
  simp [opens, and_assoc]

theorem delimits_nil : Delimits [] := by simp [Delimits]

theorem delimits_of_head {cs : List Char} (h : cs.head?.any fun c => !isNameChar c && c ≠ '"') :
    Delimits cs := by
  intro c hc
  rw [Option.mem_def] at hc
  simpa [hc] using h

/-- Symbols may stand behind a word or a literal, whatever follows them. -/
theorem delimits_symbols {s t : String} (h : s.toList.head?.any fun c => !isNameChar c && c ≠ '"') :
    Delimits (s ++ t).toList := by
  apply delimits_of_head
  rw [String.toList_append, List.head?_append]
  cases hs : s.toList.head? with
  | none => simp [hs] at h
  | some c => simpa [hs] using h

theorem delimits_append {cs ds : List Char} (hcs : Delimits cs) (hds : Delimits ds) :
    Delimits (cs ++ ds) := by
  cases cs with
  | nil => exact hds
  | cons c cs => exact hcs

section Reading

variable {names : NameKind} {σ : String → String} {symbol : Char} {word cs rest : List Char}
  {s t t' k k' x : String}

/-- A word ends before a text that starts neither a word nor a literal. -/
theorem rename_of_delimits (hσ : names.Spells σ) (h : Delimits rest) :
    rename σ (.code symbol word) rest =
      (Region.code symbol word).spelled σ ++ rename σ (.code ' ' []) rest := by
  have hnil : (Region.code ' ' []).spelled σ = [] := Region.spelled_eq_word hσ (Region.isFree_nil names ' ')
  cases rest with
  | nil => simp [rename, hnil]
  | cons c cs =>
    obtain ⟨hname, hquote⟩ := h c rfl
    simp [rename, Region.continues, Region.next, hname, hquote, hnil]

/-- Which of the symbols stands before a name or a literal does not count. -/
theorem rename_of_opens (h : opens symbol) :
    rename σ (.code symbol word) cs = rename σ (.code ' ' word) cs := by
  obtain ⟨hpoint, hbackslash, hdollar⟩ := opens_iff.mp h
  induction cs generalizing word with
  | nil => simp [rename, Region.spelled, hpoint]
  | cons c cs ih =>
    by_cases hc : isNameChar c
    · simp [rename, Region.continues, Region.next, hc, ih]
    · simp [rename, Region.continues, Region.next, Region.spelled, hc, hpoint, hbackslash, hdollar]

theorem rename_append_word (h : ∀ c ∈ cs, isNameChar c = true) :
    rename σ (.code symbol word) (cs ++ rest) = rename σ (.code symbol (word ++ cs)) rest := by
  induction cs generalizing word with
  | nil => simp
  | cons c cs ih =>
    obtain ⟨hc, hcs⟩ := List.forall_mem_cons.mp h
    simp [rename, Region.continues, Region.next, hc, ih hcs]

theorem reads_nil : Reads σ "" "" := fun _ _ => rfl

theorem Reads.unique (h : Reads σ s t) (h' : Reads σ s t') : t = t' := by
  have hsame := (h [] delimits_nil).symm.trans (h' [] delimits_nil)
  exact String.toList_injective (List.append_cancel_right hsame)

theorem reads_name (hσ : names.Spells σ) (hx : names.has x) : Reads σ x (σ x) := by
  intro rest hrest
  rw [rename_append_word (NameKind.isNameChar_of_has hx), rename_of_delimits hσ hrest]
  simp [Region.spelled]

theorem reads_of_isClear (hσ : names.Spells σ) (h : isClear names s) : Reads σ s s := by
  unfold isClear at h
  split at h
  · rename_i symbol word hpass
    intro rest hrest
    obtain ⟨written, hwritten, hrename⟩ := spelled_of_pass? hσ hpass
    rw [hrename, rename_of_delimits hσ hrest, Region.spelled_eq_word hσ h, ← List.append_assoc, ← hwritten]
    rfl
  · cases h

theorem isClear_of_word (hword : s.toList.all isNameChar)
    (h : s.toList.head? ≠ some 'v') : isClear names s := by
  simp [isClear, pass?_word (List.all_eq_true.mp hword), Region.isFree, NameKind.not_has_of_head h]

theorem pass?_literal (h : ∀ c ∈ cs, c ≠ '"' ∧ c ≠ '\\') :
    pass? names .literal cs = some .literal := by
  induction cs with
  | nil => rfl
  | cons c cs ih =>
    obtain ⟨⟨hquote, hbackslash⟩, hcs⟩ := List.forall_mem_cons.mp h
    simp [pass?, Region.isFree, Region.next, hquote, hbackslash, ih hcs]

theorem hexDigits_plain (n : Nat) : ∀ c ∈ hexDigits n, c ≠ '"' ∧ c ≠ '\\' := by
  have hdigit : ∀ k < 16, k.digitChar ≠ '"' ∧ k.digitChar ≠ '\\' := by decide
  induction n using Nat.strongRecOn with
  | _ n ih =>
    rw [hexDigits, Nat.toDigits_eq_if (by decide)]
    split
    · rename_i hn
      exact List.forall_mem_singleton.mpr (hdigit n hn)
    · intro c hc
      rcases List.mem_append.mp hc with hc | hc
      · exact ih (n / 16) (by omega) c hc
      · obtain rfl := List.mem_singleton.mp hc
        exact hdigit (n % 16) (Nat.mod_lt n (by decide))

theorem pass?_quotedChar (c : Char) : pass? names .literal (quotedChar c) = some .literal := by
  unfold quotedChar
  split_ifs with h₁ h₂ h₃ h₄ h₅ h₆ h₇
  any_goals rfl
  · have hcode : ∀ d ∈ '\x7b' :: hexDigits c.toNat ++ ['\x7d'], d ≠ '"' ∧ d ≠ '\\' := by
      simp only [List.cons_append, List.forall_mem_cons, List.forall_mem_append]
      exact ⟨by decide, hexDigits_plain c.toNat, by simp⟩
    simpa [pass?, Region.isFree, Region.next] using pass?_literal hcode
  · exact pass?_literal (by simpa using ⟨h₁, h₂⟩)

theorem pass?_quotedChars (cs : List Char) :
    pass? names .literal (cs.flatMap quotedChar) = some .literal := by
  induction cs with
  | nil => rfl
  | cons c cs ih => rw [List.flatMap_cons, pass?_append, pass?_quotedChar, Option.bind_some, ih]

theorem isClear_quoted (value : String) : isClear names (quoted value) := by
  have hopen : pass? names (.code ' ' []) ['"'] = some .literal := by
    simp only [pass?, Region.isFree_nil, Bool.or_true, if_true]
    rfl
  have hpass : pass? names (.code ' ' []) (quoted value).toList = some (.code '"' []) := by
    rw [quoted, String.toList_ofList, ← List.singleton_append, List.append_assoc, pass?_append, hopen,
      Option.bind_some, pass?_append, pass?_quotedChars]
    rfl
  simp [isClear, hpass, Region.isFree_nil]

/-- Other text goes on behind a text that is copied. -/
theorem Reads.append (hs : Reads σ k k') (hd : Delimits t.toList) (ht : Reads σ t t') :
    Reads σ (k ++ t) (k' ++ t') := by
  intro rest hrest
  rw [String.toList_append, List.append_assoc, hs _ (delimits_append hd hrest), ht rest hrest,
    String.toList_append, List.append_assoc]

theorem rename_opening (hσ : names.Spells σ) (hcs : isOpening cs) (h : cs = [] → opens symbol) :
    rename σ (.code symbol []) (cs ++ rest) = cs ++ rename σ (.code ' ' []) rest := by
  induction cs generalizing symbol with
  | nil => simpa using rename_of_opens (h rfl)
  | cons c cs ih =>
    simp only [isOpening, List.all_cons, Bool.and_eq_true] at hcs
    obtain ⟨⟨⟨⟨hname, hquote⟩, hbrace⟩, hall⟩, hlast⟩ := hcs
    have hopening : isOpening cs := by
      cases cs <;> simp_all [isOpening]
    have hopens : cs = [] → opens c := by
      rintro rfl
      simpa using hlast
    have hnil := Region.spelled_eq_word hσ (Region.isFree_nil names symbol)
    simp_all [rename, Region.continues, Region.next, Region.word]

theorem Reads.behind (hσ : names.Spells σ) (hs : isOpening s.toList) (ht : Reads σ t t') :
    Reads σ (s ++ t) (s ++ t') := by
  intro rest hrest
  rw [String.toList_append, List.append_assoc, rename_opening hσ hs fun _ => rfl, ht rest hrest,
    String.toList_append, List.append_assoc]

theorem reads_symbols (hσ : names.Spells σ) (hs : isOpening s.toList) : Reads σ s s := by
  simpa using Reads.behind hσ hs reads_nil

/-- A word, which is none of the names, before an opening parenthesis is copied. -/
theorem Reads.behind_word (hσ : names.Spells σ) (hword : s.toList.all isNameChar)
    (hhead : s.toList.head? ≠ some 'v') (ht : Reads σ t t') :
    Reads σ (s ++ ("(" ++ t)) (s ++ ("(" ++ t')) :=
  (reads_of_isClear hσ (isClear_of_word hword hhead)).append (delimits_symbols (by decide))
    (.behind hσ (by decide) ht)

/-- A list of texts with commas between them is spelled in the other way text by text. -/
theorem reads_commas (hσ : names.Spells σ) {α : Type} {as : List α} {f g : α → String}
    (has : ∀ a ∈ as, Reads σ (f a) (g a)) (hd : Delimits t.toList) (ht : Reads σ t t') :
    Reads σ (", ".intercalate (as.map f) ++ t) (", ".intercalate (as.map g) ++ t') := by
  induction as with
  | nil => simpa using ht
  | cons a as ih =>
    obtain ⟨ha, has⟩ := List.forall_mem_cons.mp has
    cases as with
    | nil => simpa using ha.append hd ht
    | cons b as =>
      simp only [List.map_cons, String.intercalate_cons_cons, String.append_assoc] at ih ⊢
      exact ha.append (delimits_symbols (by decide)) (.behind hσ (by decide) (ih has))

end Reading

end DataBinding.Text
