import DataBinding.Proofs.Grammar.Invariants
import DataBinding.Proofs.Token.Endings

/-!
# Reading up to an ending

At the end of the text and at a comma outside of parentheses every reader stops, and it stops in the same
way. So two texts with the same tokens up to such an ending are read alike, as long as reading does not
get past it. Readers of arguments get past commas, but only up to their closing symbol.
-/
namespace DataBinding

namespace Token

def Closing (t : Token) : Prop := t.kind = .eof ∨ (t.kind = .symbol ∧ t.text = ",")

namespace Closing

variable {t : Token} (h : t.Closing)
include h

theorem isSymbol {text : String} (hne : text ≠ ",") : t.isSymbol text = false := by
  rcases h with h | ⟨-, h⟩
  · simp [Token.isSymbol, h]
  · simp [Token.isSymbol, h, Ne.symm hne]

theorem isKeyword (text : String) : t.isKeyword text = false := by
  rcases h with h | ⟨h, -⟩ <;> simp [Token.isKeyword, h]

theorem word_ne {text : String} (hempty : text ≠ "") (hne : text ≠ ",") : t.word ≠ text := by
  rcases h with h | ⟨hk, ht⟩
  · simp [Token.word, h, Ne.symm hempty]
  · simp [Token.word, hk, ht, Ne.symm hne]

theorem kind_ne {kind : TokenKind} (heof : kind ≠ .eof) (hsymbol : kind ≠ .symbol) : t.kind ≠ kind := by
  rcases h with h | ⟨h, -⟩
  · rw [h]
    exact Ne.symm heof
  · rw [h]
    exact Ne.symm hsymbol

end Closing

end Token

namespace Grammar

variable {α β : Type} {e₁ e₂ : TokenStream} {n : Nat}

/-! ## Closing tokens start and continue nothing -/

section Closing

variable {t : Token} (h : t.Closing)
include h

theorem spells_of_closing (op : BinaryOp) : spells t op = false := by
  have hsymbol : op.symbol ≠ "," := by cases op <;> decide
  have hkeyword : op.keyword?.any t.isKeyword = false := by
    cases op.keyword? <;> simp [h.isKeyword]
  simp [spells, h.isSymbol hsymbol, hkeyword]

theorem memberSign?_of_closing : memberSign? t = none := by
  simp [memberSign?, h.isSymbol]

theorem startsOperand_of_closing : startsOperand t = false := by
  rcases h with h | ⟨hk, ht⟩
  · simp [startsOperand, h]
  · simp [startsOperand, hk, ht]

end Closing

section Same

variable {t₁ t₂ : Token} (h : t₁.Same t₂)
include h

theorem spells_of_same : spells t₁ = spells t₂ := by
  funext op
  have hkeyword : t₁.isKeyword = t₂.isKeyword := funext h.isKeyword
  rw [spells, spells, h.isSymbol, hkeyword]

theorem memberSign?_of_same : memberSign? t₁ = memberSign? t₂ := by simp [memberSign?, h.isSymbol]

theorem startsOperand_of_same : startsOperand t₁ = startsOperand t₂ := by
  simp [startsOperand, h.kind, h.text]

end Same

/-! ## Two texts with the same tokens before their endings -/

/-- The end of the text or a comma comes first. -/
inductive Closes : TokenStream → Prop where
  | eof (offset : Nat) : Closes (.eof offset)
  | comma {t : Token} (hk : t.kind = .symbol) (ht : t.text = ",") (rest : TokenStream) :
    Closes (.token t rest)

theorem Closes.next {e : TokenStream} (h : Closes e) :
    ∃ t rest, e.next = (.ok t, rest) ∧ t.Closing ∧ ∀ used, Cursor.remaining ⟨t, rest, used⟩ = e.size := by
  cases h with
  | eof offset =>
    exact ⟨_, _, rfl, Or.inl rfl, fun used => by simp [Cursor.remaining, Token.eof]⟩
  | comma hk ht rest =>
    exact ⟨_, _, rfl, Or.inr ⟨hk, ht⟩, fun used => by simp [Cursor.remaining, hk, TokenStream.size]⟩

/-- Both cursors are at the same token, with the same tokens behind it before the endings. -/
structure Live (e₁ e₂ : TokenStream) (c₁ c₂ : Cursor) : Prop where
  kind : c₁.token.kind ≠ .eof
  same : c₁.token.Same c₂.token
  behind : ∃ ts₁ ts₂, List.Forall₂ Token.Same ts₁ ts₂ ∧ (∀ t ∈ ts₁, t.kind ≠ TokenKind.eof) ∧
    c₁.rest = .prepend ts₁ e₁ ∧ c₂.rest = .prepend ts₂ e₂
  used : c₁.used = c₂.used

/-- Both cursors are at their endings. -/
structure Closed (e₁ e₂ : TokenStream) (c₁ c₂ : Cursor) : Prop where
  next₁ : e₁.next = (.ok c₁.token, c₁.rest)
  next₂ : e₂.next = (.ok c₂.token, c₂.rest)
  used : c₁.used = c₂.used

/-- Both cursors have the same tokens before the endings. -/
def Aligned (e₁ e₂ : TokenStream) (c₁ c₂ : Cursor) : Prop :=
  Live e₁ e₂ c₁ c₂ ∨ Closed e₁ e₂ c₁ c₂

/-- What the first reader reads when it leaves at least the given number of tokens, the second one reads
as well. The number keeps the first reader from passing its ending. -/
def Follows (e₁ e₂ : TokenStream) (n : Nat) (m₁ m₂ : ParseM α) (c₁ c₂ : Cursor) : Prop :=
  ∀ a c₁', m₁.run.run c₁ = (.ok a, c₁') → n ≤ c₁'.remaining →
    ∃ c₂', m₂.run.run c₂ = (.ok a, c₂') ∧ Aligned e₁ e₂ c₁' c₂'

theorem Closed.closing (h₁ : Closes e₁) (h₂ : Closes e₂) {c₁ c₂ : Cursor} (h : Closed e₁ e₂ c₁ c₂) :
    c₁.token.Closing ∧ c₂.token.Closing ∧ c₁.remaining = e₁.size := by
  obtain ⟨t₁, r₁, hn₁, hc₁, hr₁⟩ := h₁.next
  obtain ⟨t₂, r₂, hn₂, hc₂, -⟩ := h₂.next
  obtain ⟨ht₁, hrest₁⟩ := Prod.mk.inj (h.next₁.symm.trans hn₁)
  obtain ⟨ht₂, -⟩ := Prod.mk.inj (h.next₂.symm.trans hn₂)
  cases ht₁
  cases ht₂
  cases hrest₁
  exact ⟨hc₁, hc₂, hr₁ c₁.used⟩

namespace Live

variable {c₁ c₂ : Cursor} (h : Live e₁ e₂ c₁ c₂)
include h

theorem kind₂ : c₂.token.kind ≠ .eof := h.same.kind ▸ h.kind

theorem size_lt : e₁.size < c₁.remaining := by
  obtain ⟨ts₁, ts₂, -, -, hrest, -⟩ := h.behind
  simp only [Cursor.remaining, h.kind, if_false, hrest, TokenStream.size_prepend]
  omega

theorem remaining_pos : 0 < c₂.remaining := by
  simp [Cursor.remaining, h.kind₂]

theorem exists_advance (h₁ : Closes e₁) (h₂ : Closes e₂) :
    ∃ c₁' c₂', advance.run.run c₁ = (.ok (), c₁') ∧ advance.run.run c₂ = (.ok (), c₂') ∧
      Aligned e₁ e₂ c₁' c₂' ∧ c₁'.remaining < c₁.remaining ∧ c₂'.remaining < c₂.remaining := by
  obtain ⟨c₁', c₂', hrun₁, hrun₂, halign⟩ : ∃ c₁' c₂', advance.run.run c₁ = (.ok (), c₁') ∧
      advance.run.run c₂ = (.ok (), c₂') ∧ Aligned e₁ e₂ c₁' c₂' := by
    obtain ⟨ts₁, ts₂, hsame, hkind, hrest₁, hrest₂⟩ := h.behind
    cases hsame with
    | nil =>
      obtain ⟨t₁, r₁, hn₁, -, -⟩ := h₁.next
      obtain ⟨t₂, r₂, hn₂, -, -⟩ := h₂.next
      refine ⟨⟨t₁, r₁, c₁.used⟩, ⟨t₂, r₂, c₂.used⟩, ?_, ?_, Or.inr ⟨hn₁, hn₂, h.used⟩⟩
      · simp [run_advance, hrest₁, hn₁]
      · simp [run_advance, hrest₂, hn₂]
    | @cons t₁ t₂ ts₁ ts₂ ht hts =>
      refine ⟨⟨t₁, .prepend ts₁ e₁, c₁.used⟩, ⟨t₂, .prepend ts₂ e₂, c₂.used⟩, ?_, ?_, Or.inl ?_⟩
      · simp [run_advance, hrest₁, TokenStream.next]
      · simp [run_advance, hrest₂, TokenStream.next]
      · exact ⟨hkind t₁ (by simp), ht, ⟨ts₁, ts₂, hts, fun t ht => hkind t (by simp [ht]), rfl, rfl⟩, h.used⟩
  exact ⟨c₁', c₂', hrun₁, hrun₂, halign, remaining_lt_of_advance h.kind hrun₁,
    remaining_lt_of_advance h.kind₂ hrun₂⟩

end Live

/-- A test that no closing token passes gives both cursors the same answer. -/
theorem Aligned.test (h₁ : Closes e₁) (h₂ : Closes e₂) {c₁ c₂ : Cursor} (h : Aligned e₁ e₂ c₁ c₂)
    (p : Token → Bool) (hp : ∀ t, t.Closing → p t = false)
    (hsame : ∀ t₁ t₂ : Token, t₁.Same t₂ → p t₁ = p t₂) :
    (Live e₁ e₂ c₁ c₂ ∧ p c₁.token = true ∧ p c₂.token = true) ∨
      (p c₁.token = false ∧ p c₂.token = false) := by
  rcases h with h | h
  · rw [hsame _ _ h.same]
    cases hc : p c₂.token
    · exact Or.inr ⟨rfl, rfl⟩
    · exact Or.inl ⟨h, rfl, rfl⟩
  · have hclosing := h.closing h₁ h₂
    exact Or.inr ⟨hp _ hclosing.1, hp _ hclosing.2.1⟩

theorem Aligned.symbol (h₁ : Closes e₁) (h₂ : Closes e₂) {c₁ c₂ : Cursor} (h : Aligned e₁ e₂ c₁ c₂)
    (text : String) (hne : text ≠ ",") :
    (Live e₁ e₂ c₁ c₂ ∧ c₁.token.isSymbol text = true ∧ c₂.token.isSymbol text = true) ∨
      (c₁.token.isSymbol text = false ∧ c₂.token.isSymbol text = false) :=
  h.test h₁ h₂ (·.isSymbol text) (fun _ ht => ht.isSymbol hne) fun _ _ ht => ht.isSymbol text

theorem Aligned.isSymbol_eq (h₁ : Closes e₁) (h₂ : Closes e₂) {c₁ c₂ : Cursor}
    (h : Aligned e₁ e₂ c₁ c₂) (text : String) (hne : text ≠ ",") :
    c₁.token.isSymbol text = c₂.token.isSymbol text := by
  rcases h.symbol h₁ h₂ text hne with ⟨h, hc₁, hc₂⟩ | ⟨hc₁, hc₂⟩ <;> rw [hc₁, hc₂]

theorem Aligned.ident (h₁ : Closes e₁) (h₂ : Closes e₂) {c₁ c₂ : Cursor} (h : Aligned e₁ e₂ c₁ c₂) :
    (Live e₁ e₂ c₁ c₂ ∧ c₁.token.kind = .ident ∧ c₂.token.kind = .ident) ∨
      (c₁.token.kind ≠ .ident ∧ c₂.token.kind ≠ .ident) := by
  simpa using h.test h₁ h₂ (fun t => t.kind = .ident)
    (fun _ ht => by simpa using ht.kind_ne (by decide) (by decide)) (fun _ _ ht => by simp [ht.kind])

theorem Aligned.record {c₁ c₂ : Cursor} (h : Aligned e₁ e₂ c₁ c₂) (via : List MarkupNamespace) :
    Aligned e₁ e₂ { c₁ with used := addAllDistinct c₁.used via }
      { c₂ with used := addAllDistinct c₂.used via } := by
  rcases h with h | h
  · exact Or.inl ⟨h.kind, h.same, h.behind, by simp [h.used]⟩
  · exact Or.inr ⟨h.next₁, h.next₂, by simp [h.used]⟩

/-! ## Steps of two runs -/

section Follows

variable {m₁ m₂ : ParseM α} {f₁ f₂ : α → ParseM β} {c₁ c₂ : Cursor}

theorem follows_pure (h : Aligned e₁ e₂ c₁ c₂) (a : α) : Follows e₁ e₂ n (pure a) (pure a) c₁ c₂ := by
  intro b c₁' hrun _
  cases hrun
  exact ⟨c₂, rfl, h⟩

theorem follows_throw (fault : Fault) (m₂ : ParseM α) :
    Follows e₁ e₂ n (throw fault : ParseM α) m₂ c₁ c₂ := by
  intro b c₁' hrun
  cases hrun

theorem follows_current {g₁ g₂ : Token → ParseM β}
    (h : Follows e₁ e₂ n (g₁ c₁.token) (g₂ c₂.token) c₁ c₂) :
    Follows e₁ e₂ n (current >>= g₁) (current >>= g₂) c₁ c₂ := h

theorem follows_get {g₁ g₂ : Cursor → ParseM β} (h : Follows e₁ e₂ n (g₁ c₁) (g₂ c₂) c₁ c₂) :
    Follows e₁ e₂ n (get >>= g₁) (get >>= g₂) c₁ c₂ := h

theorem follows_remaining {g₁ g₂ : Nat → ParseM β}
    (h : Follows e₁ e₂ n (g₁ c₁.remaining) (g₂ c₂.remaining) c₁ c₂) :
    Follows e₁ e₂ n (remaining >>= g₁) (remaining >>= g₂) c₁ c₂ := h

theorem follows_advance (h₁ : Closes e₁) (h₂ : Closes e₂) (hlive : Live e₁ e₂ c₁ c₂)
    (h : ∀ c₁' c₂', Aligned e₁ e₂ c₁' c₂' → c₁'.remaining < c₁.remaining →
      c₂'.remaining < c₂.remaining → Follows e₁ e₂ n m₁ m₂ c₁' c₂') :
    Follows e₁ e₂ n (do advance; m₁) (do advance; m₂) c₁ c₂ := by
  obtain ⟨c₁', c₂', hrun₁, hrun₂, halign, hlt₁, hlt₂⟩ := hlive.exists_advance h₁ h₂
  intro a c₁'' hrun hsize
  rw [run_bind, hrun₁] at hrun
  rw [run_bind, hrun₂]
  exact h c₁' c₂' halign hlt₁ hlt₂ a c₁'' hrun hsize

/-- What the first part leaves has to be enough when what the whole leaves is. -/
theorem Follows.bind {k : Nat} (hm : Follows e₁ e₂ k m₁ m₂ c₁ c₂)
    (hback : ∀ a c₁' b c₁'', m₁.run.run c₁ = (.ok a, c₁') → (f₁ a).run.run c₁' = (.ok b, c₁'') →
      n ≤ c₁''.remaining → k ≤ c₁'.remaining)
    (hf : ∀ a c₁' c₂', m₁.run.run c₁ = (.ok a, c₁') → m₂.run.run c₂ = (.ok a, c₂') →
      Aligned e₁ e₂ c₁' c₂' → Follows e₁ e₂ n (f₁ a) (f₂ a) c₁' c₂') :
    Follows e₁ e₂ n (m₁ >>= f₁) (m₂ >>= f₂) c₁ c₂ := by
  intro b c₁'' hrun hsize
  obtain ⟨a, c₁', ha, hb⟩ := run_bind_eq_ok.mp hrun
  obtain ⟨c₂', ha₂, halign⟩ := hm a c₁' ha (hback a c₁' b c₁'' ha hb hsize)
  obtain ⟨c₂'', hb₂, halign'⟩ := hf a c₁' c₂' ha ha₂ halign b c₁'' hb hsize
  exact ⟨c₂'', run_bind_eq_ok.mpr ⟨a, c₂', ha₂, hb₂⟩, halign'⟩

theorem follows_resolveType (halign : Aligned e₁ e₂ c₁ c₂) (s : Setting) (name : String)
    {g₁ g₂ : Option TypeRef → ParseM β}
    (h : ∀ found c₁' c₂', Aligned e₁ e₂ c₁' c₂' → c₁'.remaining = c₁.remaining →
      c₂'.remaining = c₂.remaining → Follows e₁ e₂ n (g₁ found) (g₂ found) c₁' c₂') :
    Follows e₁ e₂ n (resolveType s name >>= g₁) (resolveType s name >>= g₂) c₁ c₂ := by
  unfold resolveType
  split
  · exact h none c₁ c₂ halign rfl rfl
  · rename_i found _
    exact h (some found.type) _ _ (halign.record found.via.toList) rfl rfl

end Follows

/-! ## Readers that behave alike -/

/-- Both readers never leave more tokens than there were, and the second one follows the first where the
cursors are related and leave less than the given numbers of tokens. -/
structure Similar (e₁ e₂ : TokenStream) (P : Cursor → Cursor → Prop) (k₁ k₂ : Nat)
    (m₁ m₂ : ParseM α) : Prop where
  falls₁ : Falls m₁
  falls₂ : Falls m₂
  follows : ∀ c₁ c₂, P c₁ c₂ → c₁.remaining < k₁ → c₂.remaining < k₂ →
    Follows e₁ e₂ e₁.size m₁ m₂ c₁ c₂

section Similar

variable {P : Cursor → Cursor → Prop} {k₁ k₂ : Nat} {m₁ m₂ : ParseM α}

theorem Similar.mono (h : Similar e₁ e₂ P k₁ k₂ m₁ m₂) {j₁ j₂ : Nat} (hj₁ : j₁ ≤ k₁) (hj₂ : j₂ ≤ k₂) :
    Similar e₁ e₂ P j₁ j₂ m₁ m₂ :=
  ⟨h.falls₁, h.falls₂, fun c₁ c₂ hc hc₁ hc₂ => h.follows c₁ c₂ hc (by omega) (by omega)⟩

theorem Similar.live (h : Similar e₁ e₂ (Aligned e₁ e₂) k₁ k₂ m₁ m₂) :
    Similar e₁ e₂ (Live e₁ e₂) k₁ k₂ m₁ m₂ :=
  ⟨h.falls₁, h.falls₂, fun c₁ c₂ hc => h.follows c₁ c₂ (Or.inl hc)⟩

theorem Similar.closed (h : Similar e₁ e₂ (Aligned e₁ e₂) k₁ k₂ m₁ m₂) :
    Similar e₁ e₂ (Closed e₁ e₂) k₁ k₂ m₁ m₂ :=
  ⟨h.falls₁, h.falls₂, fun c₁ c₂ hc => h.follows c₁ c₂ (Or.inr hc)⟩

theorem similar_pure (a : α) : Similar e₁ e₂ (Aligned e₁ e₂) k₁ k₂ (pure a) (pure a) :=
  ⟨fun _ => keeps_pure a, fun _ => keeps_pure a, fun _ _ hc _ _ => follows_pure hc a⟩

theorem similar_throw (fault₁ fault₂ : Fault) :
    Similar e₁ e₂ P k₁ k₂ (throw fault₁ : ParseM α) (throw fault₂) :=
  ⟨fun _ => keeps_throw _, fun _ => keeps_throw _, fun _ _ _ _ _ => follows_throw _ _⟩

/-- What the first part does not pass, the whole does not pass either. -/
theorem Similar.bind {f₁ f₂ : α → ParseM β} (hm : Similar e₁ e₂ P k₁ k₂ m₁ m₂)
    (hf : ∀ a, Similar e₁ e₂ (Aligned e₁ e₂) k₁ k₂ (f₁ a) (f₂ a)) :
    Similar e₁ e₂ P k₁ k₂ (m₁ >>= f₁) (m₂ >>= f₂) where
  falls₁ := hm.falls₁.bind fun a => (hf a).falls₁
  falls₂ := hm.falls₂.bind fun a => (hf a).falls₂
  follows c₁ c₂ hc hk₁ hk₂ := by
    refine (hm.follows c₁ c₂ hc hk₁ hk₂).bind
      (fun a c₁' b c₁'' _ hrun hsize => Nat.le_trans hsize ((hf a).falls₁.le hrun)) ?_
    intro a c₁' c₂' ha₁ ha₂ halign
    have hle₁ := hm.falls₁.le ha₁
    have hle₂ := hm.falls₂.le ha₂
    exact (hf a).follows c₁' c₂' halign (by omega) (by omega)

theorem Similar.map {f : α → β} (h : Similar e₁ e₂ P k₁ k₂ m₁ m₂) :
    Similar e₁ e₂ P k₁ k₂ (f <$> m₁) (f <$> m₂) := by
  rw [map_eq_pure_bind, map_eq_pure_bind]
  exact h.bind fun a => similar_pure (f a)

/-- The bounds of a loop may be any numbers of tokens that are large enough. -/
theorem similar_remaining {f₁ f₂ : Nat → ParseM β}
    (h : ∀ b₁ b₂ j₁ j₂, j₁ ≤ k₁ → j₂ ≤ k₂ → j₁ ≤ b₁ + 1 → j₂ ≤ b₂ + 1 →
      Similar e₁ e₂ (Aligned e₁ e₂) j₁ j₂ (f₁ b₁) (f₂ b₂)) :
    Similar e₁ e₂ (Aligned e₁ e₂) k₁ k₂ (remaining >>= f₁) (remaining >>= f₂) where
  falls₁ n := keeps_remaining.bind fun b =>
    (h b b 0 0 (by omega) (by omega) (by omega) (by omega)).falls₁ n
  falls₂ n := keeps_remaining.bind fun b =>
    (h b b 0 0 (by omega) (by omega) (by omega) (by omega)).falls₂ n
  follows c₁ c₂ hc hk₁ hk₂ :=
    follows_remaining ((h c₁.remaining c₂.remaining (c₁.remaining + 1) (c₂.remaining + 1)
      (by omega) (by omega) (by omega) (by omega)).follows c₁ c₂ hc (by omega) (by omega))

variable (h₁ : Closes e₁) (h₂ : Closes e₂)
include h₁ h₂

/-- The token is the same for both before the endings, and it is a closing one at the endings. -/
theorem similar_current {f₁ f₂ : Token → ParseM β}
    (hlive : ∀ t₁ t₂ : Token, t₁.Same t₂ → Similar e₁ e₂ (Live e₁ e₂) k₁ k₂ (f₁ t₁) (f₂ t₂))
    (hclosed : ∀ t₁ t₂ : Token, t₁.Closing → t₂.Closing →
      Similar e₁ e₂ (Closed e₁ e₂) k₁ k₂ (f₁ t₁) (f₂ t₂)) :
    Similar e₁ e₂ (Aligned e₁ e₂) k₁ k₂ (current >>= f₁) (current >>= f₂) where
  falls₁ n := keeps_current.bind fun t => (hlive t t (.refl t)).falls₁ n
  falls₂ n := keeps_current.bind fun t => (hlive t t (.refl t)).falls₂ n
  follows c₁ c₂ hc hk₁ hk₂ := by
    apply follows_current
    rcases hc with hc | hc
    · exact (hlive _ _ hc.same).follows c₁ c₂ hc hk₁ hk₂
    · have hclosing := hc.closing h₁ h₂
      exact (hclosed c₁.token c₂.token hclosing.1 hclosing.2.1).follows c₁ c₂ hc hk₁ hk₂

theorem similar_advance (h : Similar e₁ e₂ (Aligned e₁ e₂) k₁ k₂ m₁ m₂) :
    Similar e₁ e₂ (Live e₁ e₂) (k₁ + 1) (k₂ + 1) (do advance; m₁) (do advance; m₂) where
  falls₁ n := (keeps_advance (steady_remaining n)).bind fun _ => h.falls₁ n
  falls₂ n := (keeps_advance (steady_remaining n)).bind fun _ => h.falls₂ n
  follows c₁ c₂ hc hk₁ hk₂ :=
    follows_advance h₁ h₂ hc fun c₁' c₂' halign hlt₁ hlt₂ =>
      h.follows c₁' c₂' halign (by omega) (by omega)

theorem similar_advance_of_same (h : Similar e₁ e₂ (Aligned e₁ e₂) k₁ k₂ m₁ m₂) :
    Similar e₁ e₂ (Live e₁ e₂) k₁ k₂ (do advance; m₁) (do advance; m₂) :=
  (similar_advance h₁ h₂ h).mono (Nat.le_succ k₁) (Nat.le_succ k₂)

/-- A symbol other than a comma is expected in vain at an ending. -/
theorem similar_expect (text : String) (hempty : text ≠ "") (hcomma : text ≠ ",") (context : String)
    (h : Similar e₁ e₂ (Aligned e₁ e₂) k₁ k₂ m₁ m₂) :
    Similar e₁ e₂ (Aligned e₁ e₂) (k₁ + 1) (k₂ + 1) (do expect text context; m₁)
      (do expect text context; m₂) := by
  simp only [expect, bind_assoc]
  apply similar_current h₁ h₂
  · intro t₁ t₂ hsame
    rw [hsame.word]
    by_cases ht : t₂.word = text
    · simp only [ht, if_true]
      exact similar_advance h₁ h₂ h
    · simp only [ht, if_false]
      exact similar_throw _ _
  · intro t₁ t₂ ht₁ ht₂
    simp only [ht₁.word_ne hempty hcomma, ht₂.word_ne hempty hcomma, if_false]
    exact similar_throw _ _

theorem similar_literal (e : Expr) :
    Similar e₁ e₂ (Live e₁ e₂) (k₁ + 1) (k₂ + 1) (literal e) (literal e) :=
  similar_advance h₁ h₂ (similar_pure e)

end Similar

/-! ## Type names -/

/-- Both places were found for one type and have the same tokens before the endings. -/
def Matched (e₁ e₂ : TokenStream) : Option (TypeRef × Cursor) → Option (TypeRef × Cursor) → Prop :=
  Option.Rel fun p₁ p₂ => p₁.1 = p₂.1 ∧ Aligned e₁ e₂ p₁.2 p₂.2

theorem matched_some (type : TypeRef) {c₁ c₂ : Cursor} (h : Aligned e₁ e₂ c₁ c₂) :
    Matched e₁ e₂ (some (type, c₁)) (some (type, c₂)) := .some ⟨rfl, h⟩

theorem follows_settle {start₁ start₂ c₁ c₂ : Cursor} (hstart : Aligned e₁ e₂ start₁ start₂)
    {found₁ found₂ : Option (TypeRef × Cursor)} (hfound : Matched e₁ e₂ found₁ found₂) :
    Follows e₁ e₂ n (settle start₁ found₁) (settle start₂ found₂) c₁ c₂ := by
  intro a c₁' hrun _
  cases hfound with
  | none =>
    cases hrun
    exact ⟨start₂, rfl, hstart⟩
  | @some p₁ p₂ h =>
    obtain ⟨type, behind₁⟩ := p₁
    obtain ⟨_, behind₂⟩ := p₂
    obtain ⟨rfl, halign⟩ := h
    cases hrun
    exact ⟨behind₂, rfl, halign⟩

/-- Without a point behind it, the name that was found counts. -/
theorem follows_dottedTypeName_settle (s : Setting) {start₁ start₂ c₁ c₂ : Cursor}
    (hstart : Aligned e₁ e₂ start₁ start₂) {found₁ found₂ : Option (TypeRef × Cursor)}
    (hfound : Matched e₁ e₂ found₁ found₂) (b₁ b₂ : Nat) (name : String)
    (hc₁ : c₁.token.isSymbol "." = false) (hc₂ : c₂.token.isSymbol "." = false) :
    Follows e₁ e₂ n (dottedTypeName s start₁ b₁ name found₁) (dottedTypeName s start₂ b₂ name found₂)
      c₁ c₂ := by
  have hsettle : ∀ (start c : Cursor) (b : Nat) (found : Option (TypeRef × Cursor)),
      c.token.isSymbol "." = false →
        (dottedTypeName s start b name found).run.run c = (settle start found).run.run c := by
    intro start c b found hc
    cases b with
    | zero => rfl
    | succ b =>
      unfold dottedTypeName
      rw [run_current_bind, hc]
      rfl
  intro a c₁'
  rw [hsettle start₁ c₁ b₁ found₁ hc₁, hsettle start₂ c₂ b₂ found₂ hc₂]
  exact follows_settle hstart hfound a c₁'

section TypeNames

variable (h₁ : Closes e₁) (h₂ : Closes e₂)
include h₁ h₂

theorem follows_dottedTypeName (s : Setting) {start₁ start₂ : Cursor}
    (hstart : Aligned e₁ e₂ start₁ start₂) (b₁ b₂ : Nat) (name : String)
    {found₁ found₂ : Option (TypeRef × Cursor)} (hfound : Matched e₁ e₂ found₁ found₂)
    {c₁ c₂ : Cursor} (hc : Aligned e₁ e₂ c₁ c₂) (hb₁ : c₁.remaining ≤ b₁) (hb₂ : c₂.remaining ≤ b₂) :
    Follows e₁ e₂ n (dottedTypeName s start₁ b₁ name found₁) (dottedTypeName s start₂ b₂ name found₂)
      c₁ c₂ := by
  induction b₁ generalizing b₂ name found₁ found₂ c₁ c₂ with
  | zero =>
    rcases hc.symbol h₁ h₂ "." (by decide) with ⟨hc, -⟩ | ⟨hc₁, hc₂⟩
    · have := hc.size_lt
      omega
    · exact follows_dottedTypeName_settle s hstart hfound _ _ _ hc₁ hc₂
  | succ b₁ ih =>
    rcases hc.symbol h₁ h₂ "." (by decide) with ⟨hc, ht₁, ht₂⟩ | ⟨hc₁, hc₂⟩
    · obtain ⟨b₂, rfl⟩ : ∃ b, b₂ = b + 1 := ⟨b₂ - 1, by have := hc.remaining_pos; omega⟩
      unfold dottedTypeName
      apply follows_current
      rw [ht₁, ht₂]
      refine follows_advance h₁ h₂ hc fun c₁' c₂' hc' hlt₁ hlt₂ => follows_current ?_
      rcases hc'.ident h₁ h₂ with ⟨hc', hpart₁, hpart₂⟩ | ⟨hc₁, hc₂⟩
      · rw [hc'.same.text, if_neg (not_not_intro hpart₁), if_neg (not_not_intro hpart₂)]
        refine follows_advance h₁ h₂ hc' fun d₁ d₂ hd hlt₁' hlt₂' => ?_
        refine follows_resolveType hd s _ fun resolved d₁' d₂' hd' heq₁ heq₂ => ?_
        cases resolved with
        | some type =>
          apply follows_get
          exact ih b₂ _ (matched_some type hd') hd' (by omega) (by omega)
        | none => exact ih b₂ _ hfound hd' (by omega) (by omega)
      · rw [if_pos hc₁, if_pos hc₂]
        exact follows_settle hstart hfound
    · exact follows_dottedTypeName_settle s hstart hfound _ _ _ hc₁ hc₂

theorem follows_labelledTypeName (s : Setting) {start₁ start₂ c₁ c₂ : Cursor}
    (hstart : Aligned e₁ e₂ start₁ start₂) (label : String) (hc : Aligned e₁ e₂ c₁ c₂) :
    Follows e₁ e₂ n (labelledTypeName s start₁ label) (labelledTypeName s start₂ label) c₁ c₂ := by
  unfold labelledTypeName
  apply follows_current
  rcases hc.ident h₁ h₂ with ⟨hc, hpart₁, hpart₂⟩ | ⟨hc₁, hc₂⟩
  · rw [hc.same.text, if_neg (not_not_intro hpart₁), if_neg (not_not_intro hpart₂)]
    refine follows_advance h₁ h₂ hc fun d₁ d₂ hd _ _ => ?_
    refine follows_resolveType hd s _ fun resolved d₁' d₂' hd' _ _ => ?_
    cases resolved with
    | some type => exact follows_pure hd' _
    | none => exact follows_settle hstart .none
  · rw [if_pos hc₁, if_pos hc₂]
    exact follows_settle hstart .none

theorem follows_typeName? (s : Setting) {c₁ c₂ : Cursor} (hc : Aligned e₁ e₂ c₁ c₂) :
    Follows e₁ e₂ n (typeName? s) (typeName? s) c₁ c₂ := by
  unfold typeName?
  apply follows_get
  rcases hc.ident h₁ h₂ with ⟨hlive, ht₁, ht₂⟩ | ⟨hc₁, hc₂⟩
  · rw [hlive.same.text, if_neg (not_not_intro ht₁), if_neg (not_not_intro ht₂)]
    refine follows_advance h₁ h₂ hlive fun c₁' c₂' hc' _ _ => follows_current ?_
    rcases hc'.symbol h₁ h₂ ":" (by decide) with ⟨hlive', ht₁, ht₂⟩ | ⟨hc₁, hc₂⟩
    · rw [if_pos ht₁, if_pos ht₂]
      exact follows_advance h₁ h₂ hlive' fun d₁ d₂ hd _ _ => follows_labelledTypeName h₁ h₂ s hc _ hd
    · rw [hc₁, hc₂, if_neg (by decide), if_neg (by decide)]
      refine follows_resolveType hc' s _ fun resolved d₁ d₂ hd _ _ => ?_
      cases resolved with
      | some type =>
        apply follows_remaining
        apply follows_get
        exact follows_dottedTypeName h₁ h₂ s hc _ _ _ (matched_some type hd) hd (Nat.le_refl _) (Nat.le_refl _)
      | none =>
        apply follows_remaining
        exact follows_dottedTypeName h₁ h₂ s hc _ _ _ .none hd (Nat.le_refl _) (Nat.le_refl _)
  · rw [if_pos hc₁, if_pos hc₂]
    exact follows_pure hc _

theorem similar_typeName? (s : Setting) (k₁ k₂ : Nat) :
    Similar e₁ e₂ (Aligned e₁ e₂) k₁ k₂ (typeName? s) (typeName? s) where
  falls₁ n := keeps_typeName? (steady_remaining n) s
  falls₂ n := keeps_typeName? (steady_remaining n) s
  follows _ _ hc _ _ := follows_typeName? h₁ h₂ s hc

theorem similar_typeName_of_token (s : Setting) (t₁ t₂ : Token) (k₁ k₂ : Nat) :
    Similar e₁ e₂ (Aligned e₁ e₂) k₁ k₂
      (typeName? s >>= fun | some type => pure type | none => throw (t₁.fault .expectedTypeName))
      (typeName? s >>= fun | some type => pure type | none => throw (t₂.fault .expectedTypeName)) := by
  refine (similar_typeName? h₁ h₂ s k₁ k₂).bind fun found => ?_
  cases found with
  | some type => exact similar_pure type
  | none => exact similar_throw _ _

theorem similar_typeName (s : Setting) (k₁ k₂ : Nat) :
    Similar e₁ e₂ (Aligned e₁ e₂) k₁ k₂ (typeName s) (typeName s) := by
  have hread := fun t₁ t₂ => similar_typeName_of_token h₁ h₂ s t₁ t₂ k₁ k₂
  exact similar_current h₁ h₂ (fun t₁ t₂ _ => (hread t₁ t₂).live) fun t₁ t₂ _ _ => (hread t₁ t₂).closed

theorem similar_typeOperand (s : Setting) (keyword : String) (k₁ k₂ : Nat) :
    Similar e₁ e₂ (Aligned e₁ e₂) k₁ k₂ (typeOperand s keyword) (typeOperand s keyword) := by
  have h := similar_expect h₁ h₂ "(" (by decide) (by decide) ("after `" ++ keyword ++ "`")
    ((similar_typeName h₁ h₂ s (k₁ + 1) (k₂ + 1)).bind fun type =>
      similar_expect h₁ h₂ ")" (by decide) (by decide) ("after `" ++ keyword ++ "` operand")
        (similar_pure type))
  exact h.mono (by omega) (by omega)

theorem follows_castType? (s : Setting) {c₁ c₂ : Cursor} (hc : Live e₁ e₂ c₁ c₂) :
    Follows e₁ e₂ n (castType? s) (castType? s) c₁ c₂ := by
  have hstart : Aligned e₁ e₂ c₁ c₂ := Or.inl hc
  unfold castType?
  apply follows_get
  refine follows_advance h₁ h₂ hc fun c₁' c₂' hc' _ _ => ?_
  refine (follows_typeName? h₁ h₂ s hc').bind (k := 0) (fun _ _ _ _ _ _ _ => Nat.zero_le _)
    fun found d₁ d₂ _ _ hd => ?_
  cases found with
  | none => exact follows_settle hstart .none
  | some type =>
    apply follows_current
    rcases hd.symbol h₁ h₂ ")" (by decide) with ⟨hlive, hd₁, hd₂⟩ | ⟨hd₁, hd₂⟩
    · rw [hd₁, hd₂]
      refine follows_advance h₁ h₂ hlive fun d₁' d₂' hd' _ _ => follows_current ?_
      rcases hd'.test h₁ h₂ startsOperand (fun _ => startsOperand_of_closing)
        (fun _ _ => startsOperand_of_same) with ⟨-, ht₁, ht₂⟩ | ⟨ht₁, ht₂⟩
      · rw [if_pos ht₁, if_pos ht₂]
        exact follows_pure hd' _
      · rw [ht₁, ht₂]
        exact follows_settle hstart .none
    · rw [hd₁, hd₂]
      exact follows_settle hstart .none

end TypeNames

/-! ## Accesses -/

/-- The readers of nested expressions behave alike where less than the given numbers of tokens are left. -/
structure Nested.Similar (e₁ e₂ : TokenStream) (k₁ k₂ : Nat) (nested₁ nested₂ : Nested) : Prop where
  expression : Grammar.Similar e₁ e₂ (Aligned e₁ e₂) k₁ k₂ nested₁.expression nested₂.expression
  coalesced : Grammar.Similar e₁ e₂ (Aligned e₁ e₂) k₁ k₂ nested₁.coalesced nested₂.coalesced
  operand : Grammar.Similar e₁ e₂ (Aligned e₁ e₂) k₁ k₂ nested₁.operand nested₂.operand

namespace Nested.Similar

variable {k₁ k₂ : Nat} {nested₁ nested₂ : Nested} (hn : Nested.Similar e₁ e₂ k₁ k₂ nested₁ nested₂)
include hn

theorem keeps₁ (n : Nat) : nested₁.Keeps fun c => c.remaining ≤ n :=
  ⟨hn.expression.falls₁ n, hn.coalesced.falls₁ n, hn.operand.falls₁ n⟩

theorem keeps₂ (n : Nat) : nested₂.Keeps fun c => c.remaining ≤ n :=
  ⟨hn.expression.falls₂ n, hn.coalesced.falls₂ n, hn.operand.falls₂ n⟩

end Nested.Similar

section Readers

variable (h₁ : Closes e₁) (h₂ : Closes e₂) {k₁ k₂ : Nat} {nested₁ nested₂ : Nested}
  (hn : Nested.Similar e₁ e₂ k₁ k₂ nested₁ nested₂)
include h₁ h₂ hn

/-- A comma may end an expression or go on with arguments. Where the closing symbol comes behind them, it
goes on with them. -/
theorem follows_moreArguments (b₁ b₂ : Nat) {c₁ c₂ : Cursor} (hc : Aligned e₁ e₂ c₁ c₂)
    (hk₁ : c₁.remaining < k₁) (hk₂ : c₂.remaining < k₂) (hb₁ : c₁.remaining ≤ b₁)
    (hb₂ : c₂.remaining ≤ b₂) :
    Follows e₁ e₂ (e₁.size + 1) (moreArguments nested₁ b₁) (moreArguments nested₂ b₂) c₁ c₂ := by
  have hfalls : ∀ b, Falls (moreArguments nested₁ b) :=
    fun b n => keeps_moreArguments (steady_remaining n) (hn.keeps₁ n) b
  have hclosed : ∀ b {c₁ c₂}, Closed e₁ e₂ c₁ c₂ → ∀ m₂,
      Follows e₁ e₂ (e₁.size + 1) (moreArguments nested₁ b) m₂ c₁ c₂ := by
    intro b c₁ c₂ hc m₂ es c₁' hrun hsize
    have := (hfalls b).le hrun
    have := (hc.closing h₁ h₂).2.2
    omega
  induction b₁ generalizing b₂ c₁ c₂ with
  | zero =>
    rcases hc with hc | hc
    · have := hc.size_lt
      omega
    · exact hclosed 0 hc _
  | succ b₁ ih =>
    rcases hc with hc | hc
    · obtain ⟨b₂, rfl⟩ : ∃ b, b₂ = b + 1 := ⟨b₂ - 1, by have := hc.remaining_pos; omega⟩
      unfold moreArguments
      apply follows_current
      rw [hc.same.isSymbol]
      by_cases ht : c₂.token.isSymbol "," = true
      · rw [if_pos ht, if_pos ht]
        refine follows_advance h₁ h₂ hc fun d₁ d₂ hd hlt₁ hlt₂ => ?_
        refine (hn.expression.follows d₁ d₂ hd (by omega) (by omega)).bind ?_ ?_
        · intro e d₁' es d₁'' _ hrun hsize
          have := ((hfalls b₁).bind fun es => fun n => keeps_pure (e :: es)).le hrun
          omega
        · intro e d₁' d₂' he₁ he₂ hd'
          have hle₁ := hn.expression.falls₁.le he₁
          have hle₂ := hn.expression.falls₂.le he₂
          refine (ih b₂ hd' (by omega) (by omega) (by omega) (by omega)).bind ?_ ?_
          · intro es c es' c' _ hrun hsize
            cases hrun
            exact hsize
          · intro es c₁' c₂' _ _ hc'
            exact follows_pure hc' _
      · rw [if_neg ht, if_neg ht]
        exact follows_pure (Or.inl hc) _
    · exact hclosed (b₁ + 1) hc _

/-- Arguments end with a closing symbol, so they hold no ending. -/
theorem similar_arguments (close : String) (hempty : close ≠ "") (hcomma : close ≠ ",") :
    Similar e₁ e₂ (Aligned e₁ e₂) k₁ k₂ (arguments nested₁ close) (arguments nested₂ close) := by
  have hexpect : ∀ es : List Expr, Similar e₁ e₂ (Aligned e₁ e₂) k₁ k₂
      (do expect close "after arguments"; return es) (do expect close "after arguments"; return es) :=
    fun es => (similar_expect h₁ h₂ close hempty hcomma _ (similar_pure es)).mono
      (Nat.le_succ k₁) (Nat.le_succ k₂)
  have hmore : ∀ e : Expr, Similar e₁ e₂ (Aligned e₁ e₂) k₁ k₂
      (do let es ← moreArguments nested₁ (← remaining); expect close "after arguments"; return e :: es)
      (do let es ← moreArguments nested₂ (← remaining); expect close "after arguments"; return e :: es) := by
    intro e
    refine ⟨fun n => ?_, fun n => ?_, ?_⟩
    · exact keeps_remaining.bind fun b => (keeps_moreArguments (steady_remaining n) (hn.keeps₁ n) b).bind
        fun es => (hexpect _).falls₁ n
    · exact keeps_remaining.bind fun b => (keeps_moreArguments (steady_remaining n) (hn.keeps₂ n) b).bind
        fun es => (hexpect _).falls₂ n
    · intro c₁ c₂ hc hk₁ hk₂
      apply follows_remaining
      refine (follows_moreArguments h₁ h₂ hn _ _ hc hk₁ hk₂ (Nat.le_refl _) (Nat.le_refl _)).bind ?_ ?_
      · intro es c b c' _ hrun hsize
        obtain ⟨u, d, hexpect, hpure⟩ := run_bind_eq_ok.mp hrun
        cases hpure
        have := remaining_lt_of_expect hempty hexpect
        omega
      · intro es c₁' c₂' hes₁ hes₂ hc'
        have hle₁ := Falls.le (fun n => keeps_moreArguments (steady_remaining n) (hn.keeps₁ n) _) hes₁
        have hle₂ := Falls.le (fun n => keeps_moreArguments (steady_remaining n) (hn.keeps₂ n) _) hes₂
        exact (hexpect _).follows c₁' c₂' hc' (by omega) (by omega)
  have hargs := hn.expression.bind hmore
  apply similar_current h₁ h₂
  · intro t₁ t₂ hsame
    rw [hsame.word]
    split
    · exact (hexpect []).live
    · exact hargs.live
  · intro t₁ t₂ ht₁ ht₂
    rw [if_neg (ht₁.word_ne hempty hcomma), if_neg (ht₂.word_ne hempty hcomma)]
    exact hargs.closed

omit h₁ h₂ hn in
theorem similar_element (s : Setting) (target : Expr) (marker : Option Marker) (t₁ t₂ : Token) (args : List Expr) :
    Similar e₁ e₂ (Aligned e₁ e₂) k₁ k₂
      (match s.registry.indexer? target.type with
        | none => throw (t₁.fault (.notIndexable target.type))
        | some indexer =>
          if args.length = indexer.parameters.length
              && s.registry.fits indexer.parameters (args.map (·.type)) then
            return .element target indexer args marker
          else throw (t₁.fault (.indexerRejected target.type)) : ParseM Expr)
      (match s.registry.indexer? target.type with
        | none => throw (t₂.fault (.notIndexable target.type))
        | some indexer =>
          if args.length = indexer.parameters.length
              && s.registry.fits indexer.parameters (args.map (·.type)) then
            return .element target indexer args marker
          else throw (t₂.fault (.indexerRejected target.type))) := by
  split
  · exact similar_throw _ _
  · split
    · exact similar_pure _
    · exact similar_throw _ _

theorem similar_elementAccess (s : Setting) (target : Expr) (marker : Option Marker) :
    Similar e₁ e₂ (Aligned e₁ e₂) (k₁ + 1) (k₂ + 1) (elementAccess s nested₁ target marker)
      (elementAccess s nested₂ target marker) := by
  have hread := fun t₁ t₂ => similar_expect h₁ h₂ "[" (by decide) (by decide) "in element access"
    ((similar_arguments h₁ h₂ hn "]" (by decide) (by decide)).bind (similar_element s target marker t₁ t₂))
  exact similar_current h₁ h₂ (fun t₁ t₂ _ => (hread t₁ t₂).live) fun t₁ t₂ _ _ => (hread t₁ t₂).closed

theorem similar_callAccess (s : Setting) (target : Expr) {name₁ name₂ : Token}
    (hname : name₁.Same name₂) (nullSafe : Bool) :
    Similar e₁ e₂ (Aligned e₁ e₂) (k₁ + 1) (k₂ + 1) (callAccess s nested₁ target name₁ nullSafe)
      (callAccess s nested₂ target name₂ nullSafe) := by
  refine similar_expect h₁ h₂ "(" (by decide) (by decide) "in method call" ?_
  refine (similar_arguments h₁ h₂ hn ")" (by decide) (by decide)).bind fun args => ?_
  rw [hname.text]
  split
  · exact similar_pure _
  · split
    · exact similar_throw _ _
    · exact similar_throw _ _

omit h₁ h₂ hn in
theorem similar_memberAccess (s : Setting) (target : Expr) {name₁ name₂ : Token}
    (hname : name₁.Same name₂) (marker : Option Marker) (nullSafe : Bool) :
    Similar e₁ e₂ (Aligned e₁ e₂) k₁ k₂ (memberAccess s target name₁ marker nullSafe)
      (memberAccess s target name₂ marker nullSafe) := by
  unfold memberAccess
  rw [hname.text]
  split
  · exact similar_pure _
  · exact similar_throw _ _

theorem similar_access? (s : Setting) (target : Expr) :
    Similar e₁ e₂ (Aligned e₁ e₂) (k₁ + 1) (k₂ + 1) (access? s nested₁ target)
      (access? s nested₂ target) := by
  have helement := fun marker => similar_elementAccess h₁ h₂ hn s target marker
  have hcall : ∀ {name₁ name₂ : Token}, name₁.Same name₂ → ∀ nullSafe,
      Similar e₁ e₂ (Aligned e₁ e₂) k₁ k₂ (some <$> callAccess s nested₁ target name₁ nullSafe)
        (some <$> callAccess s nested₂ target name₂ nullSafe) :=
    fun hname nullSafe => (similar_callAccess h₁ h₂ hn s target hname nullSafe).map.mono
      (Nat.le_succ k₁) (Nat.le_succ k₂)
  apply similar_current h₁ h₂
  · intro sign₁ sign₂ hsign
    rw [hsign.isSymbol, memberSign?_of_same hsign]
    split
    · exact (helement none).map.live
    · split
      · exact (similar_pure none).live
      · apply similar_advance h₁ h₂
        apply similar_current h₁ h₂
        · intro name₁ name₂ hname
          rw [hname.isSymbol, hname.kind]
          split
          · exact ((helement _).map.mono (Nat.le_succ k₁) (Nat.le_succ k₂)).live
          · split
            · exact similar_throw _ _
            · apply similar_advance_of_same h₁ h₂
              apply similar_current h₁ h₂
              · intro t₁ t₂ ht
                rw [ht.isSymbol]
                split
                · exact (hcall hname _).live
                · exact (similar_memberAccess s target hname _ _).map.live
              · intro t₁ t₂ ht₁ ht₂
                rw [ht₁.isSymbol (by decide), ht₂.isSymbol (by decide)]
                exact (similar_memberAccess s target hname _ _).map.closed
        · intro t₁ t₂ ht₁ ht₂
          have hs₁ : t₁.isSymbol "[" = false := ht₁.isSymbol (by decide)
          have hs₂ : t₂.isSymbol "[" = false := ht₂.isSymbol (by decide)
          have hi₁ : t₁.kind ≠ .ident := ht₁.kind_ne (by decide) (by decide)
          have hi₂ : t₂.kind ≠ .ident := ht₂.kind_ne (by decide) (by decide)
          simp only [hs₁, hs₂, Bool.and_false, Bool.false_eq_true, if_false, if_pos hi₁, if_pos hi₂]
          exact similar_throw _ _
  · intro t₁ t₂ ht₁ ht₂
    rw [memberSign?_of_closing ht₁, memberSign?_of_closing ht₂, ht₁.isSymbol (by decide),
      ht₂.isSymbol (by decide)]
    exact (similar_pure none).closed

omit h₁ h₂ hn in
theorem accesses_of_closing {c : Cursor} (hc : c.token.Closing) (s : Setting) (nested : Nested) (b : Nat)
    (e : Expr) : (accesses s nested b e).run.run c = (.ok e, c) := by
  cases b with
  | zero => rfl
  | succ b =>
    have hnone : (access? s nested e).run.run c = (.ok none, c) := by
      unfold access?
      rw [run_current_bind, memberSign?_of_closing hc, hc.isSymbol (by decide)]
      rfl
    unfold accesses
    rw [run_bind, hnone]
    rfl

theorem similar_accesses (s : Setting) (b₁ b₂ j₁ j₂ : Nat) (hj₁ : j₁ ≤ k₁ + 1) (hj₂ : j₂ ≤ k₂ + 1)
    (hb₁ : j₁ ≤ b₁ + 1) (hb₂ : j₂ ≤ b₂ + 1) (e : Expr) :
    Similar e₁ e₂ (Aligned e₁ e₂) j₁ j₂ (accesses s nested₁ b₁ e) (accesses s nested₂ b₂ e) where
  falls₁ n := keeps_accesses (steady_remaining n) (hn.keeps₁ n) s b₁ e
  falls₂ n := keeps_accesses (steady_remaining n) (hn.keeps₂ n) s b₂ e
  follows c₁ c₂ hc hk₁ hk₂ := by
    have hclosed : ∀ b₁ b₂ e {c₁ c₂}, Closed e₁ e₂ c₁ c₂ →
        Follows e₁ e₂ e₁.size (accesses s nested₁ b₁ e) (accesses s nested₂ b₂ e) c₁ c₂ := by
      intro b₁ b₂ e c₁ c₂ hc a c₁' hrun _
      have hclosing := hc.closing h₁ h₂
      rw [accesses_of_closing hclosing.1] at hrun
      cases hrun
      exact ⟨c₂, accesses_of_closing hclosing.2.1 s nested₂ b₂ e, Or.inr hc⟩
    induction b₁ generalizing b₂ j₁ j₂ e c₁ c₂ with
    | zero =>
      rcases hc with hc | hc
      · have := hc.size_lt
        omega
      · exact hclosed 0 b₂ e hc
    | succ b₁ ih =>
      rcases hc with hc | hc
      · obtain ⟨b₂, rfl⟩ : ∃ b, b₂ = b + 1 := ⟨b₂ - 1, by have := hc.remaining_pos; omega⟩
        unfold accesses
        refine ((similar_access? h₁ h₂ hn s e).follows c₁ c₂ (Or.inl hc) (by omega)
          (by omega)).bind ?_ ?_
        · intro found c a c' _ hrun hsize
          cases found with
          | none =>
            cases hrun
            exact hsize
          | some e' =>
            exact Nat.le_trans hsize
              (Falls.le (fun n => keeps_accesses (steady_remaining n) (hn.keeps₁ n) s b₁ e') hrun)
        · intro found c₁' c₂' hrun₁ hrun₂ hc'
          cases found with
          | none => exact follows_pure hc' e
          | some e' =>
            have hlt₁ : c₁'.remaining < c₁.remaining :=
              gainsAt_access? hn.keeps₁ s e hc.kind _ _ hrun₁
            have hlt₂ : c₂'.remaining < c₂.remaining :=
              gainsAt_access? hn.keeps₂ s e hc.kind₂ _ _ hrun₂
            exact ih b₂ (j₁ - 1) (j₂ - 1) (by omega) (by omega) (by omega) (by omega) e' c₁' c₂' hc'
              (by omega) (by omega)
      · exact hclosed (b₁ + 1) b₂ e hc

/-! ## Primary expressions -/

theorem similar_rootAccess? (s : Setting) :
    Similar e₁ e₂ (Live e₁ e₂) (k₁ + 1) (k₂ + 1) (rootAccess? s nested₁) (rootAccess? s nested₂) where
  falls₁ n := keeps_rootAccess? (steady_remaining n) (hn.keeps₁ n) s
  falls₂ n := keeps_rootAccess? (steady_remaining n) (hn.keeps₂ n) s
  follows c₁ c₂ hc hk₁ hk₂ := by
    have hnone : ∀ c₁' c₂', Follows e₁ e₂ e₁.size (do set c₁; return none : ParseM (Option Expr))
        (do set c₂; return none) c₁' c₂' := by
      intro c₁' c₂' a c hrun _
      cases hrun
      exact ⟨c₂, rfl, Or.inl hc⟩
    unfold rootAccess?
    apply follows_get
    dsimp only
    rw [hc.same.text]
    refine follows_advance h₁ h₂ hc fun c₁' c₂' hc' hlt₁ hlt₂ => follows_current ?_
    rw [hc'.isSymbol_eq h₁ h₂ "(" (by decide), hc'.isSymbol_eq h₁ h₂ ":" (by decide)]
    split
    · split
      · exact hnone c₁' c₂'
      · exact (similar_callAccess h₁ h₂ hn s s.root hc.same false).map.follows c₁' c₂' hc' (by omega) (by omega)
    · split
      · exact hnone c₁' c₂'
      · split
        · exact follows_pure hc' _
        · exact hnone c₁' c₂'

theorem similar_reference (s : Setting) :
    Similar e₁ e₂ (Live e₁ e₂) (k₁ + 1) (k₂ + 1) (reference s nested₁) (reference s nested₂) where
  falls₁ n := keeps_reference (steady_remaining n) (hn.keeps₁ n) s
  falls₂ n := keeps_reference (steady_remaining n) (hn.keeps₂ n) s
  follows c₁ c₂ hc hk₁ hk₂ := by
    unfold reference
    apply follows_current
    rw [hc.same.text]
    refine ((similar_rootAccess? h₁ h₂ hn s).follows c₁ c₂ hc hk₁ hk₂).bind ?_ ?_
    · intro found c a c' hroot hrun hsize
      cases found with
      | some e =>
        cases hrun
        exact hsize
      | none =>
        obtain rfl : c = c₁ := gainsAt_rootAccess? hn.keeps₁ s hc.kind _ _ hroot
        exact Nat.le_of_lt hc.size_lt
    · intro found c₁' c₂' hroot₁ hroot₂ hc'
      cases found with
      | some e => exact follows_pure hc' e
      | none =>
        obtain rfl : c₁' = c₁ := gainsAt_rootAccess? hn.keeps₁ s hc.kind _ _ hroot₁
        obtain rfl : c₂' = c₂ := gainsAt_rootAccess? hn.keeps₂ s hc.kind₂ _ _ hroot₂
        refine (follows_typeName? h₁ h₂ s hc').bind (k := 0) (fun _ _ _ _ _ _ _ => Nat.zero_le _) ?_
        intro found d₁ d₂ htype₁ htype₂ hd
        cases found with
        | some type => exact follows_pure hd _
        | none =>
          obtain rfl : d₁ = c₁' := gainsAt_typeName? s hc.kind _ _ htype₁
          obtain rfl : d₂ = c₂' := gainsAt_typeName? s hc.kind₂ _ _ htype₂
          dsimp only
          cases enumMember? s d₂.token.text with
          | some e => exact (similar_literal h₁ h₂ e).follows d₁ d₂ hc hk₁ hk₂
          | none => exact follows_throw _ _

theorem similar_named (s : Setting) :
    Similar e₁ e₂ (Live e₁ e₂) (k₁ + 1) (k₂ + 1) (named s nested₁) (named s nested₂) where
  falls₁ n := keeps_named (steady_remaining n) (hn.keeps₁ n) s
  falls₂ n := keeps_named (steady_remaining n) (hn.keeps₂ n) s
  follows c₁ c₂ hc hk₁ hk₂ := by
    unfold named
    apply follows_current
    rw [hc.same.text]
    refine Similar.follows ?_ c₁ c₂ hc hk₁ hk₂
    split
    · exact similar_literal h₁ h₂ _
    · exact similar_literal h₁ h₂ _
    · exact similar_literal h₁ h₂ _
    · exact similar_literal h₁ h₂ _
    · exact similar_advance h₁ h₂ ((similar_typeOperand h₁ h₂ s "typeof" k₁ k₂).bind fun _ => similar_pure _)
    · exact similar_advance h₁ h₂ ((similar_typeOperand h₁ h₂ s "default" k₁ k₂).bind fun _ => similar_pure _)
    · apply similar_advance h₁ h₂
      refine (similar_typeName h₁ h₂ s k₁ k₂).bind fun type => ?_
      refine (similar_expect h₁ h₂ "(" (by decide) (by decide) _ ?_).mono (Nat.le_succ k₁) (Nat.le_succ k₂)
      exact (similar_arguments h₁ h₂ hn ")" (by decide) (by decide)).bind fun args => similar_pure _
    · exact similar_reference h₁ h₂ hn s

theorem similar_parenthesized (s : Setting) :
    Similar e₁ e₂ (Live e₁ e₂) (k₁ + 1) (k₂ + 1) (parenthesized s nested₁)
      (parenthesized s nested₂) where
  falls₁ n := keeps_parenthesized (steady_remaining n) (hn.keeps₁ n) s
  falls₂ n := keeps_parenthesized (steady_remaining n) (hn.keeps₂ n) s
  follows c₁ c₂ hc hk₁ hk₂ := by
    unfold parenthesized
    refine (follows_castType? h₁ h₂ s hc).bind (k := 0) (fun _ _ _ _ _ _ _ => Nat.zero_le _) ?_
    intro found c₁' c₂' hcast₁ hcast₂ hc'
    cases found with
    | some type =>
      have hlt₁ : c₁'.remaining < c₁.remaining := gainsAt_castType? s hc.kind _ _ hcast₁
      have hlt₂ : c₂'.remaining < c₂.remaining := gainsAt_castType? s hc.kind₂ _ _ hcast₂
      exact (hn.operand.bind fun e => similar_pure _).follows c₁' c₂' hc' (by omega) (by omega)
    | none =>
      obtain rfl : c₁' = c₁ := gainsAt_castType? s hc.kind _ _ hcast₁
      obtain rfl : c₂' = c₂ := gainsAt_castType? s hc.kind₂ _ _ hcast₂
      have hgroup := hn.expression.bind fun e => (similar_expect h₁ h₂ ")" (by decide) (by decide)
        "to close parenthesized expression" (similar_pure (Expr.paren e))).mono
          (Nat.le_succ k₁) (Nat.le_succ k₂)
      exact (similar_advance h₁ h₂ hgroup).follows c₁' c₂' hc hk₁ hk₂

theorem similar_primary (s : Setting) :
    Similar e₁ e₂ (Aligned e₁ e₂) (k₁ + 1) (k₂ + 1) (primary s nested₁) (primary s nested₂) where
  falls₁ n := keeps_primary (steady_remaining n) (hn.keeps₁ n) s
  falls₂ n := keeps_primary (steady_remaining n) (hn.keeps₂ n) s
  follows c₁ c₂ hc hk₁ hk₂ := by
    unfold primary
    apply follows_current
    rcases hc with hc | hc
    · rw [hc.same.kind, hc.same.text]
      refine Similar.follows ?_ c₁ c₂ hc hk₁ hk₂
      split
      · exact similar_literal h₁ h₂ _
      · exact similar_literal h₁ h₂ _
      · exact similar_named h₁ h₂ hn s
      · split
        · exact similar_parenthesized h₁ h₂ hn s
        · exact similar_throw _ _
      · exact similar_throw _ _
    · rcases (hc.closing h₁ h₂).1 with hkind | ⟨hkind, htext⟩
      · rw [hkind]
        exact follows_throw _ _
      · rw [hkind, htext]
        exact follows_throw _ _

/-! ## Operators -/

theorem similar_unary (s : Setting) :
    Similar e₁ e₂ (Aligned e₁ e₂) (k₁ + 1) (k₂ + 1) (unary s nested₁) (unary s nested₂) := by
  have hprimary := (similar_primary h₁ h₂ hn s).bind fun e =>
    similar_remaining fun b₁ b₂ j₁ j₂ hj₁ hj₂ hb₁ hb₂ =>
      similar_accesses h₁ h₂ hn s b₁ b₂ j₁ j₂ hj₁ hj₂ hb₁ hb₂ e
  apply similar_current h₁ h₂
  · intro t₁ t₂ ht
    rw [ht.isSymbol, ht.isKeyword, ht.isSymbol]
    split
    · refine similar_advance h₁ h₂ (hn.operand.bind fun e => ?_)
      split
      · exact similar_pure _
      · exact similar_throw _ _
    · split
      · apply similar_advance h₁ h₂
        apply similar_current h₁ h₂
        · intro operand₁ operand₂ hoperand
          rw [hoperand.kind, hoperand.text]
          split
          · exact (similar_literal h₁ h₂ _).mono (Nat.le_succ k₁) (Nat.le_succ k₂)
          · refine (hn.operand.bind fun e => ?_).live
            split
            · exact similar_pure _
            · exact similar_throw _ _
        · intro t₁ t₂ ht₁ ht₂
          rw [if_neg (ht₁.kind_ne (by decide) (by decide)), if_neg (ht₂.kind_ne (by decide) (by decide))]
          refine (hn.operand.bind fun e => ?_).closed
          split
          · exact similar_pure _
          · exact similar_throw _ _
      · exact hprimary.live
  · intro t₁ t₂ ht₁ ht₂
    have hnot : ∀ t : Token, t.Closing → (t.isSymbol "!" || t.isKeyword "not") = false := by
      intro t ht
      simp [ht.isSymbol, ht.isKeyword]
    rw [hnot t₁ ht₁, hnot t₂ ht₂, ht₁.isSymbol (by decide), ht₂.isSymbol (by decide)]
    exact hprimary.closed

omit h₁ h₂ hn in
theorem chain_of_closing {c : Cursor} (hc : c.token.Closing) (s : Setting) (ops : List BinaryOp)
    (operand : ParseM Expr) (b : Nat) (left : Expr) :
    (chain s ops operand b left).run.run c = (.ok left, c) := by
  cases b with
  | zero => rfl
  | succ b =>
    have hnone : ops.find? (spells c.token) = none := by simp [spells_of_closing hc]
    unfold chain
    rw [run_current_bind, hnone]
    rfl

omit hn in
theorem similar_chain {operand₁ operand₂ : ParseM Expr}
    (ho : Similar e₁ e₂ (Aligned e₁ e₂) k₁ k₂ operand₁ operand₂) (s : Setting) (ops : List BinaryOp)
    (b₁ b₂ j₁ j₂ : Nat) (hj₁ : j₁ ≤ k₁) (hj₂ : j₂ ≤ k₂) (hb₁ : j₁ ≤ b₁ + 1) (hb₂ : j₂ ≤ b₂ + 1)
    (left : Expr) :
    Similar e₁ e₂ (Aligned e₁ e₂) j₁ j₂ (chain s ops operand₁ b₁ left) (chain s ops operand₂ b₂ left) where
  falls₁ n := keeps_chain (steady_remaining n) (ho.falls₁ n) s ops b₁ left
  falls₂ n := keeps_chain (steady_remaining n) (ho.falls₂ n) s ops b₂ left
  follows c₁ c₂ hc hk₁ hk₂ := by
    have hclosed : ∀ b₁ b₂ left {c₁ c₂}, Closed e₁ e₂ c₁ c₂ → Follows e₁ e₂ e₁.size
        (chain s ops operand₁ b₁ left) (chain s ops operand₂ b₂ left) c₁ c₂ := by
      intro b₁ b₂ left c₁ c₂ hc a c₁' hrun _
      have hclosing := hc.closing h₁ h₂
      rw [chain_of_closing hclosing.1] at hrun
      cases hrun
      exact ⟨c₂, chain_of_closing hclosing.2.1 s ops operand₂ b₂ left, Or.inr hc⟩
    induction b₁ generalizing b₂ j₁ j₂ left c₁ c₂ with
    | zero =>
      rcases hc with hc | hc
      · have := hc.size_lt
        omega
      · exact hclosed 0 b₂ left hc
    | succ b₁ ih =>
      rcases hc with hc | hc
      · obtain ⟨b₂, rfl⟩ : ∃ b, b₂ = b + 1 := ⟨b₂ - 1, by have := hc.remaining_pos; omega⟩
        unfold chain
        apply follows_current
        rw [spells_of_same hc.same]
        split
        · exact follows_pure (Or.inl hc) left
        · rename_i op _
          refine follows_advance h₁ h₂ hc fun c₁' c₂' hc' hlt₁ hlt₂ => ?_
          refine (ho.follows c₁' c₂' hc' (by omega) (by omega)).bind ?_ ?_
          · intro right d e d' _ hrun hsize
            refine Nat.le_trans hsize (Falls.le (fun n => ?_) hrun)
            split
            · exact keeps_chain (steady_remaining n) (ho.falls₁ n) s ops b₁ _
            · exact keeps_throw _
          · intro right d₁ d₂ hright₁ hright₂ hd
            have hle₁ := ho.falls₁.le hright₁
            have hle₂ := ho.falls₂.le hright₂
            split
            · exact ih b₂ (j₁ - 1) (j₂ - 1) (by omega) (by omega) (by omega) (by omega) _ d₁ d₂ hd
                (by omega) (by omega)
            · exact follows_throw _ _
      · exact hclosed (b₁ + 1) b₂ left hc

omit hn in
theorem similar_binary {operand₁ operand₂ : ParseM Expr}
    (ho : Similar e₁ e₂ (Aligned e₁ e₂) k₁ k₂ operand₁ operand₂) (s : Setting)
    (levels : List (List BinaryOp)) :
    Similar e₁ e₂ (Aligned e₁ e₂) k₁ k₂ (binary s operand₁ levels) (binary s operand₂ levels) := by
  induction levels with
  | nil => exact ho
  | cons ops tighter ih =>
    exact ih.bind fun left => similar_remaining fun b₁ b₂ j₁ j₂ hj₁ hj₂ hb₁ hb₂ =>
      similar_chain h₁ h₂ ih s ops b₁ b₂ j₁ j₂ hj₁ hj₂ hb₁ hb₂ left

theorem similar_coalesced (s : Setting) :
    Similar e₁ e₂ (Aligned e₁ e₂) (k₁ + 1) (k₂ + 1) (coalesced s nested₁) (coalesced s nested₂) := by
  refine (similar_binary h₁ h₂ (similar_unary h₁ h₂ hn s) s levels).bind fun left => ?_
  apply similar_current h₁ h₂
  · intro t₁ t₂ ht
    rw [ht.isSymbol]
    split
    · refine similar_advance h₁ h₂ (hn.coalesced.bind fun right => ?_)
      split
      · exact similar_pure _
      · exact similar_throw _ _
    · exact (similar_pure left).live
  · intro t₁ t₂ ht₁ ht₂
    rw [ht₁.isSymbol (by decide), ht₂.isSymbol (by decide)]
    exact (similar_pure left).closed

theorem similar_expression (s : Setting) :
    Similar e₁ e₂ (Aligned e₁ e₂) (k₁ + 1) (k₂ + 1) (expression s nested₁) (expression s nested₂) := by
  refine (similar_coalesced h₁ h₂ hn s).bind fun test => ?_
  apply similar_current h₁ h₂
  · intro t₁ t₂ ht
    rw [ht.isSymbol]
    split
    · refine similar_advance h₁ h₂ (hn.expression.bind fun ifTrue => ?_)
      refine (similar_expect h₁ h₂ ":" (by decide) (by decide) _
        (hn.expression.bind fun ifFalse => ?_)).mono (Nat.le_succ k₁) (Nat.le_succ k₂)
      split
      · split
        · exact similar_pure _
        · exact similar_throw _ _
      · exact similar_throw _ _
    · exact (similar_pure test).live
  · intro t₁ t₂ ht₁ ht₂
    rw [ht₁.isSymbol (by decide), ht₂.isSymbol (by decide)]
    exact (similar_pure test).closed

end Readers

section Parse

variable (h₁ : Closes e₁) (h₂ : Closes e₂)
include h₁ h₂

theorem similar_nestedWithin (s : Setting) (k₁ k₂ : Nat) :
    Nested.Similar e₁ e₂ k₁ k₂ (nestedWithin s k₁) (nestedWithin s k₂) := by
  have hzero : ∀ j₁ j₂, j₁ = 0 ∨ j₂ = 0 →
      Nested.Similar e₁ e₂ j₁ j₂ (nestedWithin s j₁) (nestedWithin s j₂) := by
    intro j₁ j₂ hj
    have hk₁ := fun n => keeps_nestedWithin (steady_remaining n) s j₁
    have hk₂ := fun n => keeps_nestedWithin (steady_remaining n) s j₂
    have hvacuous : ∀ {m₁ m₂ : ParseM Expr}, Falls m₁ → Falls m₂ →
        Similar e₁ e₂ (Aligned e₁ e₂) j₁ j₂ m₁ m₂ :=
      fun hm₁ hm₂ => ⟨hm₁, hm₂, fun c₁ c₂ _ hlt₁ hlt₂ => by omega⟩
    exact ⟨hvacuous (fun n => (hk₁ n).expression) fun n => (hk₂ n).expression,
      hvacuous (fun n => (hk₁ n).coalesced) fun n => (hk₂ n).coalesced,
      hvacuous (fun n => (hk₁ n).operand) fun n => (hk₂ n).operand⟩
  induction k₁ generalizing k₂ with
  | zero => exact hzero 0 k₂ (Or.inl rfl)
  | succ k₁ ih =>
    cases k₂ with
    | zero => exact hzero (k₁ + 1) 0 (Or.inr rfl)
    | succ k₂ =>
      exact ⟨similar_expression h₁ h₂ (ih k₂) s, similar_coalesced h₁ h₂ (ih k₂) s,
        similar_unary h₁ h₂ (ih k₂) s⟩

/-- Up to their endings, two texts with the same tokens hold the same expression. -/
theorem follows_parse (s : Setting) {c₁ c₂ : Cursor} (hc : Aligned e₁ e₂ c₁ c₂) :
    Follows e₁ e₂ e₁.size (parse s) (parse s) c₁ c₂ := by
  apply follows_remaining
  exact (similar_nestedWithin h₁ h₂ s _ _).expression.follows c₁ c₂ hc (Nat.lt_succ_self _)
    (Nat.lt_succ_self _)

end Parse

end Grammar
end DataBinding
