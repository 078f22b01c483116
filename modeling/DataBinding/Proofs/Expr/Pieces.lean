import DataBinding.Proofs.Text.Quoted

/-!
# Pieces of written forms

A written form falls into characters, quoted texts and bracketed groups of such pieces. Brackets and
quotes occur in it for nothing else, so a text is the written form of one list of pieces at most.
-/
namespace DataBinding
open Text

inductive Piece where
  | char (c : Char)
  | text (value : String)
  | round (parts : List Piece)
  | square (parts : List Piece)

namespace Piece

mutual

def write : Piece → List Char
  | .char c => [c]
  | .text value => (quoted value).toList
  | .round parts => '(' :: (writeAll parts ++ [')'])
  | .square parts => '[' :: (writeAll parts ++ [']'])

def writeAll : List Piece → List Char
  | [] => []
  | p :: ps => p.write ++ writeAll ps

end

@[simp] theorem writeAll_append (ps qs : List Piece) : writeAll (ps ++ qs) = writeAll ps ++ writeAll qs := by
  induction ps with
  | nil => rfl
  | cons p ps ih => simp [writeAll, ih]

/-- The characters that stand for brackets and quotes only. -/
def marks : List Char := ['"', '(', ')', '[', ']']

/-- No single character is a bracket or a quote. -/
inductive Proper : Piece → Prop where
  | char {c : Char} (h : c ∉ marks) : Proper (.char c)
  | text (value : String) : Proper (.text value)
  | round {parts : List Piece} (h : ∀ p ∈ parts, p.Proper) : Proper (.round parts)
  | square {parts : List Piece} (h : ∀ p ∈ parts, p.Proper) : Proper (.square parts)

def first : Piece → Char
  | .char c => c
  | .text _ => '"'
  | .round _ => '('
  | .square _ => '['

theorem write_eq (p : Piece) : ∃ cs, p.write = p.first :: cs := by
  cases p with
  | char c => exact ⟨[], rfl⟩
  | text value => exact ⟨value.toList.flatMap quotedChar ++ ['"'], by simp [write, quoted, first]⟩
  | round parts => exact ⟨_, rfl⟩
  | square parts => exact ⟨_, rfl⟩

/-- Nothing, or a closing bracket, comes next. -/
def Closing (cs : List Char) : Prop := ∀ c ∈ cs.head?, c = ')' ∨ c = ']'

theorem Proper.first_ne {p : Piece} (h : p.Proper) : p.first ≠ ')' ∧ p.first ≠ ']' := by
  cases h with
  | char h => exact ⟨fun hc => h (by simp_all [first, marks]), fun hc => h (by simp_all [first, marks])⟩
  | _ => exact ⟨by simp [first], by simp [first]⟩

theorem Closing.not_write {p : Piece} {ps : List Piece} {x y : List Char} (hx : Closing x) (hp : p.Proper) :
    x ≠ writeAll (p :: ps) ++ y := by
  rintro rfl
  obtain ⟨cs, hcs⟩ := p.write_eq
  have hfirst := hx p.first (by simp [writeAll, hcs])
  exact hfirst.elim hp.first_ne.1 hp.first_ne.2

theorem closing_cons {c : Char} (hc : c = ')' ∨ c = ']') (cs : List Char) : Closing (c :: cs) := by
  intro d hd
  cases hd
  exact hc

/-- Pieces with the same first character are of one kind. -/
theorem Proper.eq_char {p : Piece} {c : Char} (hp : p.Proper) (hc : c ∉ marks) (h : p.first = c) :
    p = .char c := by
  cases p with
  | char d => exact congrArg Piece.char h
  | _ => exact absurd (h ▸ by simp [first, marks]) hc

mutual

/-- A piece is read back from its written form, whatever follows. -/
theorem write_append_inj (p q : Piece) {x y : List Char} (hp : p.Proper) (hq : q.Proper)
    (h : p.write ++ x = q.write ++ y) : p = q ∧ x = y := by
  have hfirst : p.first = q.first := by
    obtain ⟨cs, hcs⟩ := p.write_eq
    obtain ⟨ds, hds⟩ := q.write_eq
    rw [hcs, hds] at h
    exact (List.cons.inj h).1
  cases hp with
  | char hc =>
    obtain rfl := hq.eq_char hc hfirst.symm
    simpa [write] using h
  | text s =>
    cases hq with
    | char hd => cases (Proper.text s).eq_char hd hfirst
    | text t =>
      obtain ⟨rfl, hrest⟩ := quoted_append_inj h
      exact ⟨rfl, hrest⟩
    | _ => cases hfirst
  | @round ps hps =>
    cases hq with
    | char hd => cases (Proper.round hps).eq_char hd hfirst
    | @round qs hqs =>
      simp only [write, List.cons_append, List.append_assoc, List.cons.injEq, true_and] at h
      obtain ⟨rfl, hrest⟩ := writeAll_append_inj ps qs hps hqs (closing_cons (Or.inl rfl) _)
        (closing_cons (Or.inl rfl) _) h
      exact ⟨rfl, (List.cons.inj hrest).2⟩
    | _ => cases hfirst
  | @square ps hps =>
    cases hq with
    | char hd => cases (Proper.square hps).eq_char hd hfirst
    | @square qs hqs =>
      simp only [write, List.cons_append, List.append_assoc, List.cons.injEq, true_and] at h
      obtain ⟨rfl, hrest⟩ := writeAll_append_inj ps qs hps hqs (closing_cons (Or.inr rfl) _)
        (closing_cons (Or.inr rfl) _) h
      exact ⟨rfl, (List.cons.inj hrest).2⟩
    | _ => cases hfirst
termination_by sizeOf p

theorem writeAll_append_inj (ps qs : List Piece) {x y : List Char} (hps : ∀ p ∈ ps, p.Proper)
    (hqs : ∀ q ∈ qs, q.Proper) (hx : Closing x) (hy : Closing y) (h : writeAll ps ++ x = writeAll qs ++ y) :
    ps = qs ∧ x = y := by
  match ps, qs with
  | [], [] => exact ⟨rfl, h⟩
  | [], q :: qs => exact absurd h (hx.not_write (hqs q List.mem_cons_self))
  | p :: ps, [] => exact absurd h.symm (hy.not_write (hps p List.mem_cons_self))
  | p :: ps, q :: qs =>
    simp only [writeAll, List.append_assoc] at h
    obtain ⟨rfl, hrest⟩ := write_append_inj p q (hps p List.mem_cons_self) (hqs q List.mem_cons_self) h
    obtain ⟨rfl, rfl⟩ := writeAll_append_inj ps qs (List.forall_mem_cons.mp hps).2
      (List.forall_mem_cons.mp hqs).2 hx hy hrest
    exact ⟨rfl, rfl⟩
termination_by sizeOf ps

end

/-- Pieces are determined by their written form. -/
theorem writeAll_inj {ps qs : List Piece} (hps : ∀ p ∈ ps, p.Proper) (hqs : ∀ q ∈ qs, q.Proper)
    (h : writeAll ps = writeAll qs) : ps = qs :=
  (writeAll_append_inj ps qs hps hqs (by simp [Closing]) (by simp [Closing])
    (congrArg (· ++ ([] : List Char)) h)).1

end Piece

end DataBinding
