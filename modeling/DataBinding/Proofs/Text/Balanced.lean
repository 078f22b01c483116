import DataBinding.Proofs.Text.Names
import DataBinding.Proofs.Text.Quoted

/-!
# Balanced texts

In a balanced text brackets and quotes are closed. Braces and backslashes stand between quotes only, colons between
quotes or in brackets. So what is left of a balanced text behind a balanced beginning is balanced too: nothing can go
on behind a balanced text with a brace or a colon.
-/
namespace DataBinding.Text

/-- Where a place in a text is: in a number of brackets, and there outside of quotes, between quotes, or between
quotes and behind a backslash. -/
inductive Nesting where
  | code (depth : Nat)
  | literal (depth : Nat)
  | escape (depth : Nat)
  deriving DecidableEq

namespace Nesting

def next? : Nesting → Char → Option Nesting
  | .code depth, c =>
    if c = '"' then some (.literal depth)
    else if c = '(' ∨ c = '[' then some (.code (depth + 1))
    else if c = ')' ∨ c = ']' then if depth = 0 then none else some (.code (depth - 1))
    else if c = '\x7b' ∨ c = '\x7d' ∨ c = '\\' ∨ c = ':' ∧ depth = 0 then none
    else some (.code depth)
  | .literal depth, c =>
    some (if c = '"' then .code depth else if c = '\\' then .escape depth else .literal depth)
  | .escape depth, _ => some (.literal depth)

def through? (p : Nesting) (cs : List Char) : Option Nesting := cs.foldlM next? p

def within (depth : Nat) : Nesting → Nesting
  | .code inner => .code (inner + depth)
  | .literal inner => .literal (inner + depth)
  | .escape inner => .escape (inner + depth)

variable {p q : Nesting} {c : Char} {cs ds : List Char}

theorem through?_cons (p : Nesting) (c : Char) (cs : List Char) :
    p.through? (c :: cs) = (p.next? c).bind (·.through? cs) := by
  simp [through?, List.foldlM_cons]

theorem through?_append (p : Nesting) (cs ds : List Char) :
    p.through? (cs ++ ds) = (p.through? cs).bind (·.through? ds) := by
  simp [through?, List.foldlM_append]

/-- More brackets around a place allow no less. -/
theorem next?_within (h : p.next? c = some q) (depth : Nat) : (p.within depth).next? c = some (q.within depth) := by
  cases p with
  | code inner =>
    simp only [next?, within] at h ⊢
    grind [within]
  | literal inner =>
    simp only [next?, within] at h ⊢
    grind [within]
  | escape inner =>
    simp only [next?, within] at h ⊢
    grind [within]

theorem through?_within (h : p.through? cs = some q) (depth : Nat) :
    (p.within depth).through? cs = some (q.within depth) := by
  induction cs generalizing p with
  | nil =>
    cases h
    rfl
  | cons c cs ih =>
    rw [through?_cons] at h ⊢
    obtain ⟨p', hnext, hrest⟩ := Option.bind_eq_some_iff.mp h
    rw [next?_within hnext, Option.bind_some, ih hrest]

/-- The characters that change the place or are not allowed everywhere. -/
def reserved : List Char := ['"', '(', '[', ')', ']', '\x7b', '\x7d', '\\', ':']

theorem next?_code (hc : c ∉ reserved) (depth : Nat) : (code depth).next? c = some (code depth) := by
  simp only [reserved, List.mem_cons, List.not_mem_nil, or_false, not_or] at hc
  simp [next?, hc]

theorem through?_code (hcs : ∀ c ∈ cs, c ∉ reserved) (depth : Nat) :
    (code depth).through? cs = some (code depth) := by
  induction cs with
  | nil => rfl
  | cons c cs ih =>
    obtain ⟨hc, hcs⟩ := List.forall_mem_cons.mp hcs
    rw [through?_cons, next?_code hc, Option.bind_some, ih hcs]

/-- Only reserved characters lead out of quotes. -/
theorem eq_code_of_through? {depth : Nat} (hcs : ∀ c ∈ cs, c ∉ reserved) (h : p.through? cs = some (code depth)) :
    p = code depth := by
  induction cs generalizing p with
  | nil => exact Option.some.inj h
  | cons c cs ih =>
    obtain ⟨hc, hcs⟩ := List.forall_mem_cons.mp hcs
    rw [through?_cons] at h
    obtain ⟨p', hnext, hrest⟩ := Option.bind_eq_some_iff.mp h
    obtain rfl := ih hcs hrest
    cases p with
    | code inner => rwa [next?_code hc, Option.some.injEq] at hnext
    | literal inner =>
      simp only [reserved, List.mem_cons, List.not_mem_nil, or_false, not_or] at hc
      simp [next?, hc] at hnext
    | escape inner => simp [next?] at hnext

/-- Without a quote, a text keeps outside of quotes. -/
theorem bare_of_through? {depth : Nat} (hquote : '"' ∉ cs) (h : ((code depth).through? (cs ++ ds)).isSome) :
    ∀ c ∈ cs, c ≠ '\x7b' ∧ c ≠ '\\' := by
  induction cs generalizing depth with
  | nil => simp
  | cons c cs ih =>
    rw [List.mem_cons, not_or] at hquote
    rw [List.cons_append, through?_cons] at h
    obtain ⟨q, hq⟩ := Option.isSome_iff_exists.mp h
    obtain ⟨p', hnext, hrest⟩ := Option.bind_eq_some_iff.mp hq
    obtain ⟨inner, rfl⟩ : ∃ inner, p' = code inner := by
      simp only [next?] at hnext
      grind
    refine List.forall_mem_cons.mpr ⟨?_, ih hquote.2 (Option.isSome_iff_exists.mpr ⟨q, hrest⟩)⟩
    constructor <;> rintro rfl <;> simp [next?] at hnext

end Nesting

open Nesting

/-- Brackets and quotes are closed. -/
def Balanced (cs : List Char) : Prop := (code 0).through? cs = some (code 0)

instance (cs : List Char) : Decidable (Balanced cs) := inferInstanceAs (Decidable (_ = _))

namespace Balanced

variable {c : Char} {cs ds : List Char}

theorem of_forall (h : ∀ c ∈ cs, c ∉ reserved) : Balanced cs := through?_code h 0

/-- A balanced text may stand in any number of brackets. -/
theorem through? (h : Balanced cs) (depth : Nat) : (code depth).through? cs = some (code depth) := by
  simpa [within] using through?_within h depth

theorem append (hcs : Balanced cs) (hds : Balanced ds) : Balanced (cs ++ ds) := by
  rw [Balanced, through?_append, hcs, Option.bind_some, hds]

/-- What is left behind a balanced beginning is balanced. -/
theorem of_append (hcs : Balanced cs) (h : Balanced (cs ++ ds)) : Balanced ds := by
  rwa [Balanced, through?_append, hcs, Option.bind_some] at h

/-- What has no meaning may be left out at the end. -/
theorem of_append_idle (hds : ∀ c ∈ ds, c ∉ reserved) (h : Balanced (cs ++ ds)) : Balanced cs := by
  rw [Balanced, through?_append] at h
  obtain ⟨p, hp, hrest⟩ := Option.bind_eq_some_iff.mp h
  rw [Balanced, hp, eq_code_of_through? hds hrest]

/-- A balanced text starts with neither a brace nor a colon. -/
theorem head (h : Balanced (c :: cs)) : c ∉ ['\x7d', ':'] := by
  rw [Balanced, through?_cons] at h
  obtain ⟨p, hnext, -⟩ := Option.bind_eq_some_iff.mp h
  rintro hc
  simp only [List.mem_cons, List.not_mem_nil, or_false] at hc
  rcases hc with rfl | rfl <;> cases hnext

/-- Braces and backslashes come behind a quote only. -/
theorem bare (h : Balanced (cs ++ ds)) (hquote : '"' ∉ cs) : ∀ c ∈ cs, c ≠ '\x7b' ∧ c ≠ '\\' :=
  bare_of_through? hquote (by rw [h]; rfl)

theorem bare_of_not_mem (h : Balanced cs) (hquote : '"' ∉ cs) : ∀ c ∈ cs, c ≠ '\x7b' ∧ c ≠ '\\' :=
  bare (cs.append_nil.symm ▸ h) hquote

theorem intercalate {keys : List String} (h : ∀ k ∈ keys, Balanced k.toList) :
    Balanced (", ".intercalate keys).toList := by
  induction keys with
  | nil => rfl
  | cons k keys ih =>
    obtain ⟨hk, hkeys⟩ := List.forall_mem_cons.mp h
    cases keys with
    | nil => simpa using hk
    | cons k' keys =>
      simp only [String.intercalate_cons_cons, String.toList_append]
      exact (hk.append (by decide)).append (ih hkeys)

end Balanced

/-- The text gets from one place to another. -/
def Leads (p : Nesting) (s : String) (q : Nesting) : Prop := p.through? s.toList = some q

theorem Leads.append {p q r : Nesting} {s t : String} (hs : Leads p s q) (ht : Leads q t r) : Leads p (s ++ t) r := by
  rw [Leads, String.toList_append, through?_append, hs, Option.bind_some, ht]

theorem Balanced.leads {s : String} (h : Balanced s.toList) (depth : Nat) : Leads (code depth) s (code depth) :=
  h.through? depth

/-! ## Names and quoted texts -/

theorem not_mem_reserved_of_isNameChar {c : Char} (h : isNameChar c = true ∨ c = '.') : c ∉ reserved := by
  have hall : ∀ d ∈ reserved, isNameChar d = false ∧ d ≠ '.' := by decide
  intro hmem
  obtain ⟨hname, hpoint⟩ := hall c hmem
  rcases h with h | h
  · rw [h] at hname
    cases hname
  · exact hpoint h

theorem not_mem_reserved_of_isBlank {c : Char} (h : isBlank c = true) : c ∉ reserved := by
  have hall : ∀ d ∈ reserved, isBlank d = false := by decide
  intro hmem
  rw [hall c hmem] at h
  cases h

theorem through?_literal {cs : List Char} (h : ∀ c ∈ cs, c ≠ '"' ∧ c ≠ '\\') (depth : Nat) :
    (literal depth).through? cs = some (literal depth) := by
  induction cs with
  | nil => rfl
  | cons c cs ih =>
    obtain ⟨hc, hcs⟩ := List.forall_mem_cons.mp h
    rw [through?_cons, show (literal depth).next? c = some (literal depth) by simp [next?, hc], Option.bind_some, ih hcs]

theorem through?_quotedChar (depth : Nat) (c : Char) :
    (literal depth).through? (quotedChar c) = some (literal depth) := by
  rcases quotedChar_cases c with ⟨x, -, hc⟩ | hc | ⟨hbackslash, hquote, hc⟩
  · rw [hc]
    rfl
  · have hcode : ∀ d ∈ '\x7b' :: (hexDigits c.toNat ++ ['\x7d']), d ≠ '"' ∧ d ≠ '\\' := by
      simp only [List.forall_mem_cons, List.forall_mem_append]
      exact ⟨by decide, hexDigits_plain c.toNat, by simp⟩
    rw [hc]
    exact through?_literal hcode depth
  · rw [hc]
    exact through?_literal (by simp [hbackslash, hquote]) depth

theorem balanced_quoted (value : String) : Balanced (quoted value).toList := by
  have hchars : ∀ cs : List Char, (literal 0).through? (cs.flatMap quotedChar) = some (literal 0) := by
    intro cs
    induction cs with
    | nil => rfl
    | cons c cs ih => rw [List.flatMap_cons, through?_append, through?_quotedChar, Option.bind_some, ih]
  rw [Balanced, quoted, String.toList_ofList, List.cons_append, through?_cons,
    show (code 0).next? '"' = some (literal 0) from rfl, Option.bind_some, through?_append, hchars]
  rfl

end DataBinding.Text
