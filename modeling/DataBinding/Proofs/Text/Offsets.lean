import DataBinding.Text.Slice
import Mathlib.Data.List.Basic

/-!
# Byte offsets

An offset counts the bytes in front of a character or of the end. What stands from an offset on, and what
stands up to one, is taken with a check: an offset inside a character or beyond the end gives nothing.
-/
namespace DataBinding.Text

theorem byteLength_append (cs ds : List Char) :
    byteLength (cs ++ ds) = byteLength cs + byteLength ds := by
  induction cs with
  | nil => simp [byteLength]
  | cons c cs ih =>
    simp only [List.cons_append, byteLength, ih]
    omega

theorem dropBytes_append (cs ds : List Char) : dropBytes (byteLength cs) (cs ++ ds) = ds := by
  induction cs with
  | nil => cases ds <;> rfl
  | cons c cs ih =>
    have hpos := c.utf8Size_pos
    rw [List.cons_append, byteLength, dropBytes, if_neg (by omega), Nat.add_sub_cancel_left, ih]

theorem byteLength_pos {cs : List Char} (h : cs ≠ []) : 0 < byteLength cs := by
  obtain ⟨c, cs, rfl⟩ := List.exists_cons_of_ne_nil h
  exact Nat.lt_of_lt_of_le c.utf8Size_pos (Nat.le_add_right _ _)

theorem byteLength_le_of_suffix {cs ds : List Char} (h : cs <:+ ds) : byteLength cs ≤ byteLength ds := by
  obtain ⟨front, rfl⟩ := h
  rw [byteLength_append]
  omega

/-! ## Pieces of text -/

/-- What stands from the byte offset on, unless it is inside a character or beyond the end. -/
def fromByte? : Nat → List Char → Option (List Char)
  | offset, [] => if offset = 0 then some [] else none
  | offset, c :: cs =>
    if offset = 0 then some (c :: cs)
    else if c.utf8Size ≤ offset then fromByte? (offset - c.utf8Size) cs
    else none

/-- What stands in front of the byte offset, unless it is inside a character or beyond the end. -/
def upToByte? : Nat → List Char → Option (List Char)
  | offset, [] => if offset = 0 then some [] else none
  | offset, c :: cs =>
    if offset = 0 then some []
    else if c.utf8Size ≤ offset then (upToByte? (offset - c.utf8Size) cs).map (c :: ·)
    else none

theorem fromByte?_zero (text : List Char) : fromByte? 0 text = some text := by
  cases text <;> rfl

theorem fromByte?_byteLength_add (front rest : List Char) (further : Nat) :
    fromByte? (byteLength front + further) (front ++ rest) = fromByte? further rest := by
  induction front with
  | nil => simp [byteLength]
  | cons c front ih =>
    have hpos := c.utf8Size_pos
    have hleft : byteLength (c :: front) + further - c.utf8Size = byteLength front + further := by
      rw [byteLength]
      omega
    rw [List.cons_append, fromByte?, if_neg (by rw [byteLength]; omega), if_pos (by rw [byteLength]; omega), hleft, ih]

theorem fromByte?_byteLength_append (front rest : List Char) :
    fromByte? (byteLength front) (front ++ rest) = some rest :=
  (fromByte?_byteLength_add front rest 0).trans (fromByte?_zero rest)

theorem upToByte?_byteLength_append (front rest : List Char) :
    upToByte? (byteLength front) (front ++ rest) = some front := by
  induction front with
  | nil => cases rest <;> rfl
  | cons c front ih =>
    have hpos := c.utf8Size_pos
    rw [List.cons_append, byteLength, upToByte?, if_neg (by omega), if_pos (by omega), Nat.add_sub_cancel_left, ih]
    rfl

/-- An offset at which something stands is the length of what stands in front. -/
theorem fromByte?_eq_some {offset : Nat} {text rest : List Char} :
    fromByte? offset text = some rest ↔ ∃ front, text = front ++ rest ∧ byteLength front = offset := by
  constructor
  · intro h
    fun_induction fromByte? offset text with
    | case1 | case3 =>
      cases h
      exact ⟨[], rfl, rfl⟩
    | case4 offset c cs _ hfits ih =>
      obtain ⟨front, rfl, hlength⟩ := ih h
      exact ⟨c :: front, rfl, by rw [byteLength]; omega⟩
    | case2 | case5 => cases h
  · rintro ⟨front, rfl, rfl⟩
    exact fromByte?_byteLength_append front rest

section Rest

variable {offset : Nat} {text rest : List Char} (h : fromByte? offset text = some rest)
include h

theorem offset_add_byteLength : offset + byteLength rest = byteLength text := by
  obtain ⟨front, rfl, rfl⟩ := fromByte?_eq_some.mp h
  exact (byteLength_append front rest).symm

theorem dropBytes_of_fromByte? : dropBytes offset text = rest := by
  obtain ⟨front, rfl, rfl⟩ := fromByte?_eq_some.mp h
  exact dropBytes_append front rest

/-- An offset from an offset on is counted in the rest. -/
theorem fromByte?_add {further : Nat} {ending : List Char} (hending : fromByte? further rest = some ending) :
    fromByte? (offset + further) text = some ending := by
  obtain ⟨front, rfl, rfl⟩ := fromByte?_eq_some.mp h
  rw [fromByte?_byteLength_add, hending]

/-- An ending of the rest stands as far from the offset as the rest is longer. -/
theorem fromByte?_of_suffix {ending : List Char} (hending : ending <:+ rest) :
    fromByte? (offset + (byteLength rest - byteLength ending)) text = some ending := by
  obtain ⟨mid, rfl⟩ := hending
  rw [byteLength_append, Nat.add_sub_cancel]
  exact fromByte?_add h (fromByte?_byteLength_append mid ending)

end Rest

/-! ## Characters in front of an offset -/

theorem charsBefore_byteLength_append (front rest : List Char) (further : Nat) :
    charsBefore (byteLength front + further) (front ++ rest) = front.length + charsBefore further rest := by
  induction front with
  | nil => simp [byteLength]
  | cons c front ih =>
    have hpos := c.utf8Size_pos
    have hleft : byteLength (c :: front) + further - c.utf8Size = byteLength front + further := by
      rw [byteLength]
      omega
    rw [List.cons_append, charsBefore, if_neg (by rw [byteLength]; omega), hleft, ih, List.length_cons]
    omega

theorem charsBefore_le_length (offset : Nat) (text : List Char) : charsBefore offset text ≤ text.length := by
  induction text generalizing offset with
  | nil => simp [charsBefore]
  | cons c text ih =>
    rw [charsBefore]
    split
    · exact Nat.zero_le _
    · have hle := ih (offset - c.utf8Size)
      simp only [List.length_cons]
      omega

theorem charsBefore_mono {offset further : Nat} (h : offset ≤ further) (text : List Char) :
    charsBefore offset text ≤ charsBefore further text := by
  induction text generalizing offset further with
  | nil => simp [charsBefore]
  | cons c text ih =>
    rw [charsBefore, charsBefore]
    split
    · exact Nat.zero_le _
    · rw [if_neg (by omega)]
      exact Nat.add_le_add_left (ih (Nat.sub_le_sub_right h _)) 1

end DataBinding.Text
