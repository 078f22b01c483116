import DataBinding.Text.Quoted
import Mathlib.Data.List.Basic

/-!
# Reading quoted text back

The written forms of characters can be told apart from the left, whatever follows them, and none of them
starts with a quote. So a quoted text ends at one place only, and it is the written form of one text only.
-/
namespace DataBinding.Text

/-! ## Numbers by their digits -/

theorem mem_hexDigits {n : Nat} {c : Char} (hc : c ∈ hexDigits n) : ∃ k < 16, c = k.digitChar := by
  induction n using Nat.strongRecOn with
  | _ n ih =>
    rw [hexDigits, Nat.toDigits_eq_if (by decide)] at hc
    split at hc
    · rename_i hn
      exact ⟨n, hn, List.mem_singleton.mp hc⟩
    · rcases List.mem_append.mp hc with hc | hc
      · exact ih (n / 16) (by omega) hc
      · exact ⟨n % 16, Nat.mod_lt n (by decide), List.mem_singleton.mp hc⟩

theorem hexDigits_ne_nil (n : Nat) : hexDigits n ≠ [] := by
  rw [hexDigits, Nat.toDigits_eq_if (by decide)]
  split <;> simp

theorem hexDigits_injective {m n : Nat} (h : hexDigits m = hexDigits n) : m = n := by
  have hdigit : ∀ i < 16, ∀ j < 16, i.digitChar = j.digitChar → i = j := by decide
  induction m using Nat.strongRecOn generalizing n with
  | _ m ih =>
    have hm : hexDigits m = if m < 16 then [m.digitChar] else hexDigits (m / 16) ++ [(m % 16).digitChar] :=
      Nat.toDigits_eq_if (by decide)
    have hn : hexDigits n = if n < 16 then [n.digitChar] else hexDigits (n / 16) ++ [(n % 16).digitChar] :=
      Nat.toDigits_eq_if (by decide)
    rw [hm, hn] at h
    split at h <;> split at h
    · exact hdigit m (by assumption) n (by assumption) (List.singleton_inj.mp h)
    · have := congrArg List.length h
      simp [hexDigits_ne_nil] at this
    · have := congrArg List.length h
      simp [hexDigits_ne_nil] at this
    · obtain ⟨hfront, hlast⟩ := List.append_inj' h rfl
      have hdiv := ih (m / 16) (by omega) hfront
      have hmod := hdigit (m % 16) (by omega) (n % 16) (by omega) (List.singleton_inj.mp hlast)
      omega

/-- What is before a mark that it lacks is told apart from what follows the mark. -/
theorem append_cons_inj {α : Type} {mark : α} {as bs u v : List α} (has : mark ∉ as) (hbs : mark ∉ bs)
    (h : as ++ mark :: u = bs ++ mark :: v) : as = bs ∧ u = v := by
  induction as generalizing bs with
  | nil =>
    cases bs with
    | nil => exact ⟨rfl, (List.cons.inj h).2⟩
    | cons b bs => exact absurd (List.mem_cons.mpr (Or.inl (List.cons.inj h).1)) hbs
  | cons a as ih =>
    cases bs with
    | nil => exact absurd (List.mem_cons.mpr (Or.inl (List.cons.inj h).1.symm)) has
    | cons b bs =>
      obtain ⟨rfl, htail⟩ := List.cons.inj h
      obtain ⟨rfl, rfl⟩ := ih (fun hmem => has (List.mem_cons_of_mem a hmem))
        (fun hmem => hbs (List.mem_cons_of_mem a hmem)) htail
      exact ⟨rfl, rfl⟩

/-! ## Characters -/

/-- The characters with a letter of their own, and the letters. -/
def escapes : List (Char × Char) :=
  [('"', '"'), ('\\', '\\'), ('\x00', '0'), ('\t', 't'), ('\n', 'n'), ('\r', 'r')]

theorem quotedChar_cases (c : Char) :
    (∃ x, (c, x) ∈ escapes ∧ quotedChar c = ['\\', x]) ∨
    quotedChar c = '\\' :: 'u' :: '\x7b' :: (hexDigits c.toNat ++ ['\x7d']) ∨
    c ≠ '\\' ∧ c ≠ '"' ∧ quotedChar c = [c] := by
  by_cases hc : ∃ x, (c, x) ∈ escapes
  · obtain ⟨x, hx⟩ := hc
    have hall : escapes.all fun (c, x) => quotedChar c == ['\\', x] := by decide
    exact Or.inl ⟨x, hx, by simpa using List.all_eq_true.mp hall _ hx⟩
  · have hne : ∀ p ∈ escapes, c ≠ p.1 := fun p hp heq => hc ⟨p.2, heq ▸ hp⟩
    simp only [escapes, List.forall_mem_cons] at hne
    obtain ⟨hquote, hbackslash, hzero, htab, hline, hreturn, -⟩ := hne
    refine Or.inr ?_
    rw [quotedChar, if_neg hquote, if_neg hbackslash, if_neg hzero, if_neg htab, if_neg hline,
      if_neg hreturn]
    split
    · exact Or.inl rfl
    · exact Or.inr ⟨hbackslash, hquote, rfl⟩

theorem quotedChar_append_inj {c d : Char} {u v : List Char} (h : quotedChar c ++ u = quotedChar d ++ v) :
    c = d ∧ u = v := by
  have hletters : ∀ p ∈ escapes, ∀ q ∈ escapes, p.2 = q.2 → p.1 = q.1 := by decide
  have hcode : ∀ p ∈ escapes, p.2 ≠ 'u' := by decide
  have hbrace (n : Nat) : '\x7d' ∉ hexDigits n := by
    intro hmem
    obtain ⟨k, hk, heq⟩ := mem_hexDigits hmem
    have hdigits : ∀ k < 16, '\x7d' ≠ k.digitChar := by decide
    exact hdigits k hk heq
  rcases quotedChar_cases c with ⟨x, hx, hc⟩ | hc | ⟨hcb, -, hc⟩ <;>
    rcases quotedChar_cases d with ⟨y, hy, hd⟩ | hd | ⟨hdb, -, hd⟩ <;>
    simp only [hc, hd, List.cons_append, List.nil_append, List.cons.injEq, true_and, List.append_assoc] at h
  · exact ⟨hletters _ hx _ hy h.1, h.2⟩
  · exact absurd h.1 (hcode _ hx)
  · exact absurd h.1.symm hdb
  · exact absurd h.1.symm (hcode _ hy)
  · obtain ⟨hhex, rfl⟩ := append_cons_inj (hbrace _) (hbrace _) h
    exact ⟨Char.toNat_inj.mp (hexDigits_injective hhex), rfl⟩
  · exact absurd h.1.symm hdb
  · exact absurd h.1 hcb
  · exact absurd h.1 hcb
  · exact h

theorem quotedChar_ne_quote (c : Char) : ∃ d ds, quotedChar c = d :: ds ∧ d ≠ '"' := by
  rcases quotedChar_cases c with ⟨x, -, hc⟩ | hc | ⟨-, hquote, hc⟩
  · exact ⟨_, _, hc, by decide⟩
  · exact ⟨_, _, hc, by decide⟩
  · exact ⟨c, [], hc, hquote⟩

/-! ## Texts -/

/-- A quoted text is told apart from what follows it. -/
theorem quoted_append_inj {s t : String} {u v : List Char}
    (h : (quoted s).toList ++ u = (quoted t).toList ++ v) : s = t ∧ u = v := by
  suffices hchars : ∀ as bs : List Char, as.flatMap quotedChar ++ '"' :: u = bs.flatMap quotedChar ++ '"' :: v →
      as = bs ∧ u = v by
    obtain ⟨hst, huv⟩ := hchars s.toList t.toList (by simpa [quoted] using h)
    exact ⟨String.toList_inj.mp hst, huv⟩
  intro as
  induction as with
  | nil =>
    intro bs h
    cases bs with
    | nil => exact ⟨rfl, (List.cons.inj h).2⟩
    | cons b bs =>
      obtain ⟨d, ds, hd, hne⟩ := quotedChar_ne_quote b
      rw [List.flatMap_cons, hd] at h
      exact absurd (List.cons.inj h).1.symm hne
  | cons a as ih =>
    intro bs h
    cases bs with
    | nil =>
      obtain ⟨d, ds, hd, hne⟩ := quotedChar_ne_quote a
      rw [List.flatMap_cons, hd] at h
      exact absurd (List.cons.inj h).1 hne
    | cons b bs =>
      rw [List.flatMap_cons, List.flatMap_cons, List.append_assoc, List.append_assoc] at h
      obtain ⟨rfl, htail⟩ := quotedChar_append_inj h
      obtain ⟨rfl, rfl⟩ := ih bs htail
      exact ⟨rfl, rfl⟩

end DataBinding.Text
