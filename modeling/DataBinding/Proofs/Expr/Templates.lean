import DataBinding.Proofs.Expr.Built
import DataBinding.Proofs.Text.Balanced
import Mathlib.Data.List.Infix

/-!
# Texts with a key filled in

A text with placeholders is written with the key of its operand in their places. The written text does not tell in
general what was filled in, since the text itself may spell out a key in braces. If it does not spell out the key of
the other text, placeholders stand at the same places, and since keys are balanced they end at the same places too.
-/
namespace DataBinding
open Text

namespace Template

/-! ## Quotes -/

/-- A backslash in front of every quote. -/
def guardQuotes (cs : List Char) : List Char := cs.flatMap fun c => if c = '"' then ['\\', '"'] else [c]

theorem escaped_eq (template : String) : escaped template = guardQuotes template.toList := replaceAll_quote _ _

@[simp] theorem guardQuotes_nil : guardQuotes [] = [] := rfl

@[simp] theorem guardQuotes_quote (cs : List Char) : guardQuotes ('"' :: cs) = '\\' :: '"' :: guardQuotes cs := rfl

theorem guardQuotes_cons {c : Char} (h : c ≠ '"') (cs : List Char) : guardQuotes (c :: cs) = c :: guardQuotes cs := by
  simp [guardQuotes, h]

theorem getLast?_of_quote {cs front back : List Char} (h : guardQuotes cs = front ++ '"' :: back) :
    front.getLast? = some '\\' := by
  induction cs generalizing front with
  | nil => simp at h
  | cons c cs ih =>
    by_cases hc : c = '"'
    · -- The quote is the one that is written here, or one further behind.
      subst hc
      rw [guardQuotes_quote] at h
      rcases front with _ | ⟨x, _ | ⟨y, front⟩⟩
      · simp at h
      · obtain ⟨rfl, -⟩ := List.cons.inj h
        rfl
      · obtain ⟨-, -, hrest⟩ : '\\' = x ∧ '"' = y ∧ guardQuotes cs = front ++ '"' :: back := by simpa using h
        simp [List.getLast?_cons, ih hrest]
    · rw [guardQuotes_cons hc] at h
      rcases front with _ | ⟨x, front⟩
      · exact absurd (List.cons.inj h).1 hc
      · simp [List.getLast?_cons, ih (List.cons.inj h).2]

theorem guardQuotes_ne_quote (cs back : List Char) : guardQuotes cs ≠ '"' :: back := by
  intro h
  have hsplit : guardQuotes cs = [] ++ '"' :: back := h
  cases getLast?_of_quote hsplit

theorem guardQuotes_injective {cs cs' : List Char} (h : guardQuotes cs = guardQuotes cs') : cs = cs' := by
  induction cs generalizing cs' with
  | nil =>
    rcases cs' with _ | ⟨c', cs'⟩
    · rfl
    · by_cases hc' : c' = '"'
      · simp [hc'] at h
      · simp [guardQuotes_cons hc'] at h
  | cons c cs ih =>
    rcases cs' with _ | ⟨c', cs'⟩
    · by_cases hc : c = '"'
      · simp [hc] at h
      · simp [guardQuotes_cons hc] at h
    · by_cases hc : c = '"' <;> by_cases hc' : c' = '"'
      · subst hc hc'
        simp only [guardQuotes_quote, List.cons.injEq, true_and] at h
        rw [ih h]
      · rw [hc, guardQuotes_quote, guardQuotes_cons hc'] at h
        exact absurd (List.cons.inj h).2.symm (guardQuotes_ne_quote cs' _)
      · rw [hc', guardQuotes_quote, guardQuotes_cons hc] at h
        exact absurd (List.cons.inj h).2 (guardQuotes_ne_quote cs _)
      · rw [guardQuotes_cons hc, guardQuotes_cons hc'] at h
        rw [(List.cons.inj h).1, ih (List.cons.inj h).2]

theorem escaped_injective {template template' : String} (h : escaped template = escaped template') :
    template = template' := by
  rw [escaped_eq, escaped_eq] at h
  exact String.toList_inj.mp (guardQuotes_injective h)

/-- Behind a placeholder, a backslash comes before the first quote. -/
def Guarded (cs : List Char) : Prop := ∀ u, '\\' ∉ u → ¬ '\x7b' :: '0' :: (u ++ ['"']) <:+: cs

theorem guarded_escaped (template : String) : Guarded (escaped template) := by
  rintro u hu ⟨front, back, h⟩
  have hsplit : guardQuotes template.toList = (front ++ '\x7b' :: '0' :: u) ++ '"' :: back := by
    rw [← escaped_eq, ← h]
    simp
  have hlast : ('0' :: u).getLast? = some '\\' := by
    rw [← getLast?_of_quote hsplit]
    simp [List.getLast?_append, List.getLast?_cons]
  rcases List.mem_cons.mp (List.mem_of_getLast? hlast) with hzero | hmem
  · cases hzero
  · exact hu hmem

/-! ## Placeholders -/

/-- A brace that opens no placeholder is followed by a text that begins like the other key. -/
def Mimics (key other cs : List Char) : Prop :=
  ∃ front back, cs = front ++ '\x7b' :: back ∧ back.head? ≠ some '0' ∧ other <+: fill key back

instance (key other cs : List Char) : Decidable (Mimics key other cs) :=
  decidable_of_iff (∃ rest ∈ cs.tails, rest.head? = some '\x7b' ∧ rest.tail.head? ≠ some '0' ∧
    other <+: fill key rest.tail) <| by
    constructor
    · rintro ⟨rest, hrest, hopen, hback⟩
      obtain ⟨back, rfl⟩ := List.head?_eq_some_iff.mp hopen
      obtain ⟨front, rfl⟩ := (List.mem_tails _ cs).mp hrest
      exact ⟨front, back, rfl, hback⟩
    · rintro ⟨front, back, rfl, hback⟩
      exact ⟨'\x7b' :: back, (List.mem_tails _ _).mpr (List.suffix_append front _), rfl, hback⟩

variable {key key' cs cs' : List Char}

theorem fill_cons {c : Char} (h : ¬ ['\x7b', '0'] <+: c :: cs) : fill key (c :: cs) = c :: fill key cs := by
  rw [fill]
  rintro rest rfl rfl
  exact h ⟨rest, rfl⟩

theorem Mimics.append (h : Mimics key key' cs) (front : List Char) : Mimics key key' (front ++ cs) := by
  obtain ⟨front', back, rfl, hback⟩ := h
  exact ⟨front ++ front', back, by simp, hback⟩

theorem Guarded.of_suffix (h : Guarded cs) {rest : List Char} (hrest : rest <:+ cs) : Guarded rest :=
  fun u hu hfound => h u hu (hfound.trans hrest.isInfix)

/-- If only one of two texts that are written in the same way begins with a placeholder, the other mimics its key. -/
theorem mimics_of_fill_eq {r r' : List Char} (h : fill key ('\x7b' :: '0' :: r) = fill key' ('\x7b' :: r'))
    (hopen : ¬ ['\x7b', '0'] <+: '\x7b' :: r') : Mimics key' key ('\x7b' :: r') := by
  refine ⟨[], r', rfl, ?_, ?_⟩
  · intro hzero
    obtain ⟨rest, rfl⟩ := List.head?_eq_some_iff.mp hzero
    exact hopen ⟨rest, rfl⟩
  · rw [fill_cons hopen, fill] at h
    exact ⟨fill key r, (List.cons.inj h).2⟩

/-- Texts that are written in the same way begin with the same character or with a placeholder both. -/
theorem fill_eq_cases (h : fill key cs = fill key' cs') (hcs : ¬ Mimics key key' cs)
    (hcs' : ¬ Mimics key' key cs') :
    (cs = [] ∧ cs' = []) ∨
    (∃ c r r', cs = c :: r ∧ cs' = c :: r' ∧ ¬ ['\x7b', '0'] <+: cs ∧ fill key r = fill key' r') ∨
    ∃ r r', cs = '\x7b' :: '0' :: r ∧ cs' = '\x7b' :: '0' :: r' ∧ key ++ fill key r = key' ++ fill key' r' := by
  have hhead : cs.head? = cs'.head? := by rw [← head?_fill key cs, h, head?_fill]
  rcases cs with _ | ⟨c, r⟩
  · exact Or.inl ⟨rfl, List.head?_eq_none_iff.mp hhead.symm⟩
  · obtain ⟨r', rfl⟩ : ∃ r', cs' = c :: r' := List.head?_eq_some_iff.mp hhead.symm
    refine Or.inr ?_
    by_cases hopen : ['\x7b', '0'] <+: c :: r <;> by_cases hopen' : ['\x7b', '0'] <+: c :: r'
    · obtain ⟨s, hs⟩ := hopen
      obtain ⟨s', hs'⟩ := hopen'
      rw [← hs, ← hs'] at h ⊢
      exact Or.inr ⟨s, s', rfl, rfl, (List.cons.inj h).2⟩
    · obtain ⟨s, hs⟩ := hopen
      obtain ⟨rfl, rfl⟩ := List.cons.inj hs
      exact absurd (mimics_of_fill_eq h hopen') hcs'
    · obtain ⟨s', hs'⟩ := hopen'
      obtain ⟨rfl, rfl⟩ := List.cons.inj hs'
      exact absurd (mimics_of_fill_eq h.symm hopen) hcs
    · rw [fill_cons hopen, fill_cons hopen'] at h
      exact Or.inl ⟨c, r, r', rfl, rfl, hopen, (List.cons.inj h).2⟩

/-! ## Keys in one text -/

theorem length_fill_le (h : key.length ≤ key'.length) (cs : List Char) :
    (fill key cs).length ≤ (fill key' cs).length := by
  fun_induction fill key cs with
  | case1 cs ih =>
    simp only [fill, List.length_cons, List.length_append]
    omega
  | case2 c cs hne ih =>
    rw [fill]
    · simpa using ih
    · exact hne
  | case3 => simp [fill]

theorem key_eq_of_fill_eq (h : fill key cs = fill key' cs) (hcs : ['\x7b', '0'] <:+: cs) : key = key' := by
  fun_induction fill key cs with
  | case1 cs ih =>
    have hrest : key ++ fill key cs = key' ++ fill key' cs := (List.cons.inj h).2
    have hlength := congrArg List.length hrest
    simp only [List.length_append] at hlength
    refine (List.append_inj hrest ?_).1
    rcases Nat.le_total key.length key'.length with hle | hle
    · have := length_fill_le hle cs
      omega
    · have := length_fill_le hle cs
      omega
  | case2 c cs hne ih =>
    have hopen : ¬ ['\x7b', '0'] <+: c :: cs := by
      rintro ⟨rest, hrest⟩
      obtain ⟨rfl, rfl⟩ := List.cons.inj hrest
      exact hne rest rfl rfl
    rw [fill_cons hopen] at h
    exact ih (List.cons.inj h).2 ((List.infix_cons_iff.mp hcs).resolve_left hopen)
  | case3 => simp at hcs

/-! ## Keys in two texts -/

/-- With one key, the written form tells the text. -/
theorem eq_of_fill_eq (h : fill key cs = fill key cs') (hcs : ¬ Mimics key key cs) (hcs' : ¬ Mimics key key cs') :
    cs = cs' := by
  induction hn : cs.length using Nat.strong_induction_on generalizing cs cs' with
  | h n ih =>
    rcases fill_eq_cases h hcs hcs' with ⟨rfl, rfl⟩ | ⟨c, r, r', rfl, rfl, -, hrest⟩ | ⟨r, r', rfl, rfl, hrest⟩
    · rfl
    · rw [ih r.length (by simp [← hn]) hrest (fun hr => hcs (hr.append [c])) (fun hr => hcs' (hr.append [c])) rfl]
    · have hshorter : r.length < n := by simp only [← hn, List.length_cons]; omega
      rw [ih r.length hshorter (List.append_cancel_left hrest) (fun hr => hcs (hr.append ['\x7b', '0']))
        (fun hr => hcs' (hr.append ['\x7b', '0'])) rfl]

/-- One of the keys begins with the other, since placeholders come at the same places. -/
theorem prefix_or_prefix_of_fill_eq (h : fill key cs = fill key' cs') (hcs : ¬ Mimics key key' cs)
    (hcs' : ¬ Mimics key' key cs') (hopen : ['\x7b', '0'] <:+: cs) : key <+: key' ∨ key' <+: key := by
  induction cs generalizing cs' with
  | nil => simp at hopen
  | cons c cs ih =>
    rcases fill_eq_cases h hcs hcs' with ⟨hnil, -⟩ | ⟨c, r, r', hr, rfl, hclosed, hrest⟩ | ⟨r, r', -, -, hrest⟩
    · cases hnil
    · obtain ⟨rfl, rfl⟩ := List.cons.inj hr
      exact ih hrest (fun hr => hcs (hr.append [_])) (fun hr => hcs' (hr.append [_]))
        ((List.infix_cons_iff.mp hopen).resolve_left hclosed)
    · exact List.prefix_or_prefix_of_prefix (List.prefix_append key _) (hrest ▸ List.prefix_append key' _)

/-- What stands in a written text without a brace stands in the text itself. -/
theorem exists_of_fill_eq_append {u v : List Char} (hu : '\x7b' ∉ u) (h : fill key cs = u ++ v) :
    ∃ r, cs = u ++ r ∧ fill key r = v := by
  induction u generalizing cs with
  | nil => exact ⟨cs, rfl, h⟩
  | cons c u ih =>
    rw [List.mem_cons, not_or] at hu
    obtain ⟨hc, hu⟩ := hu
    have hhead : cs.head? = some c := by rw [← head?_fill key, h]; rfl
    obtain ⟨r, rfl⟩ := List.head?_eq_some_iff.mp hhead
    rw [fill_cons (by rintro ⟨rest, hrest⟩; exact hc (List.cons.inj hrest).1)] at h
    obtain ⟨r, rfl, hr⟩ := ih hu (List.cons.inj h).2
    exact ⟨r, rfl, hr⟩

/-- Behind a placeholder, a balanced text comes from the text itself: it cannot get as far as a quote. -/
theorem exists_of_fill_eq_balanced {w v : List Char} (hw : Balanced w) (hguarded : Guarded ('\x7b' :: '0' :: cs))
    (h : fill key cs = w ++ v) : '\x7b' ∉ w ∧ ∃ r, cs = w ++ r ∧ fill key r = v := by
  have hquote : '"' ∉ w := by
    intro hmem
    obtain ⟨u, back, rfl, hu⟩ := List.eq_append_cons_of_mem hmem
    have hbare := hw.bare hu
    rw [List.append_assoc] at h
    obtain ⟨r, rfl, hr⟩ := exists_of_fill_eq_append (fun hmem => (hbare _ hmem).1 rfl) h
    have hhead : r.head? = some '"' := by rw [← head?_fill key, hr]; rfl
    obtain ⟨rest, rfl⟩ := List.head?_eq_some_iff.mp hhead
    exact hguarded u (fun hmem => (hbare _ hmem).2 rfl) ⟨[], rest, by simp⟩
  have hbrace : '\x7b' ∉ w := fun hmem => (hw.bare_of_not_mem hquote _ hmem).1 rfl
  exact ⟨hbrace, exists_of_fill_eq_append hbrace h⟩

theorem infix_of_infix_append {w r : List Char} {c : Char} (hw : '\x7b' ∉ w)
    (h : ['\x7b', '0', c] <:+: w ++ r) : ['\x7b', '0', c] <:+: r := by
  induction w with
  | nil => exact h
  | cons d w ih =>
    rw [List.mem_cons, not_or] at hw
    refine ih hw.2 ((List.infix_cons_iff.mp h).resolve_left ?_)
    rintro ⟨rest, hrest⟩
    exact hw.1 (List.cons.inj hrest).1

/-- If one key goes on behind the other, every placeholder of the text with the shorter one is followed by the
character with which it goes on. -/
theorem head?_of_fill_eq {w : List Char} (hw : Balanced w) (hne : w ≠ []) (h : fill key cs = fill (key ++ w) cs')
    (hcs : ¬ Mimics key (key ++ w) cs) (hcs' : ¬ Mimics (key ++ w) key cs') (hguarded : Guarded cs) {c : Char}
    (hc : ['\x7b', '0', c] <:+: cs) : w.head? = some c := by
  induction hn : cs.length using Nat.strong_induction_on generalizing cs cs' with
  | h n ih =>
    rcases fill_eq_cases h hcs hcs' with ⟨rfl, -⟩ | ⟨d, r, r', rfl, rfl, hclosed, hrest⟩ | ⟨r, r', rfl, rfl, hrest⟩
    · simp at hc
    · have hr : ['\x7b', '0', c] <:+: r := by
        refine (List.infix_cons_iff.mp hc).resolve_left fun hhere => hclosed ?_
        exact List.IsPrefix.trans ⟨[c], rfl⟩ hhere
      exact ih r.length (by simp [← hn]) hrest (fun hr => hcs (hr.append [d])) (fun hr => hcs' (hr.append [d]))
        (hguarded.of_suffix (List.suffix_cons d r)) hr rfl
    · rw [List.append_assoc] at hrest
      obtain ⟨hbrace, r, rfl, hr⟩ := exists_of_fill_eq_balanced hw hguarded (List.append_cancel_left hrest)
      have hsplit : '\x7b' :: '0' :: (w ++ r) = ('\x7b' :: '0' :: w) ++ r := rfl
      rcases List.infix_cons_iff.mp hc with ⟨rest, hhere⟩ | hlater
      · -- The placeholder is the one at the front, which is followed by `w`.
        obtain ⟨d, w, rfl⟩ := List.exists_cons_of_ne_nil hne
        simp only [List.cons_append, List.cons.injEq, true_and] at hhere
        rw [hhere.1]
        rfl
      · have hr' : ['\x7b', '0', c] <:+: r :=
          infix_of_infix_append (w := '0' :: w) (by simpa using hbrace) hlater
        refine ih r.length ?_ hr (fun hm => hcs (hsplit ▸ hm.append _)) (fun hm => hcs' (hm.append ['\x7b', '0']))
          (hguarded.of_suffix (hsplit ▸ List.suffix_append _ r)) hr' rfl
        simp only [← hn, List.length_cons, List.length_append]
        omega

/-- A placeholder is closed or goes on with a specification. -/
def HasSlot (cs : List Char) : Prop := ∃ c ∈ ['\x7d', ':'], ['\x7b', '0', c] <:+: cs

theorem HasSlot.placeholder (h : HasSlot cs) : ['\x7b', '0'] <:+: cs := by
  obtain ⟨c, -, hslot⟩ := h
  exact List.IsInfix.trans ⟨[], [c], rfl⟩ hslot

/-- Balanced keys do not go on behind one another where a placeholder is closed. -/
theorem key_eq_of_begins (hkey : Balanced key) (hkey' : Balanced key') (hbegins : key <+: key')
    (h : fill key cs = fill key' cs') (hcs : ¬ Mimics key key' cs) (hcs' : ¬ Mimics key' key cs')
    (hguarded : Guarded cs) (hslot : HasSlot cs) : key = key' := by
  obtain ⟨w, rfl⟩ := hbegins
  have hw : Balanced w := hkey.of_append hkey'
  rcases w with _ | ⟨d, w⟩
  · simp
  · obtain ⟨c, hc, hfound⟩ := hslot
    obtain rfl : d = c := by simpa using head?_of_fill_eq hw (by simp) h hcs hcs' hguarded hfound
    exact absurd hc hw.head

/-- If neither text mimics the key of the other, the written form tells the text and the key. -/
theorem eq_and_eq_of_fill_eq (hkey : Balanced key) (hkey' : Balanced key') (h : fill key cs = fill key' cs')
    (hcs : ¬ Mimics key key' cs) (hcs' : ¬ Mimics key' key cs') (hguarded : Guarded cs) (hguarded' : Guarded cs')
    (hslot : HasSlot cs) (hslot' : HasSlot cs') : cs = cs' ∧ key = key' := by
  have heq : key = key' := by
    rcases prefix_or_prefix_of_fill_eq h hcs hcs' hslot.placeholder with hbegins | hbegins
    · exact key_eq_of_begins hkey hkey' hbegins h hcs hcs' hguarded hslot
    · exact (key_eq_of_begins hkey' hkey hbegins h.symm hcs' hcs hguarded' hslot').symm
  subst heq
  exact ⟨eq_of_fill_eq h hcs hcs', rfl⟩

theorem hasSlot_escaped (format : String) : HasSlot (escaped (Format.template format)) := by
  obtain ⟨c, hc, hslot⟩ := Format.slot_template format
  refine ⟨c, hc, infix_escaped ?_ hslot⟩
  simp only [List.mem_cons, List.not_mem_nil, or_false] at hc
  rcases hc with rfl | rfl <;> decide

end Template

namespace Expr

/-- The written forms are the same if the texts are with the keys filled in. -/
theorem interpolated_key_eq_iff {template template' : String} {e e' : Expr} :
    (interpolated template [e]).key = (interpolated template' [e']).key ↔
      Template.fill e.key.toList (Template.escaped template) =
        Template.fill e'.key.toList (Template.escaped template') := by
  simp only [interpolated, key_eq, Form.key, List.map_cons, List.map_nil, Template.fillTemplate_singleton]
  constructor
  · intro h
    simpa using congrArg String.toList h
  · intro h
    rw [h]

end Expr

end DataBinding
