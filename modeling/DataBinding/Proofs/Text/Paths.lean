import DataBinding.Metadata.TypeRef
import DataBinding.Proofs.Token.Endings

/-!
# Names with points

The name of a type is a path: words with points between them. Blanks, brackets and question marks do not
occur in it, so that it is a written reference to itself.
-/
namespace DataBinding
open Text

theorem Text.after?_eq_some {beginning cs rest : List Char} (h : after? beginning cs = some rest) :
    cs = beginning ++ rest := by
  fun_induction after? beginning cs with
  | case1 cs => exact Option.some.inj h
  | case2 => cases h
  | case3 b bs cs ih => rw [List.cons_append, ih h]
  | case4 => cases h

theorem Text.before?_eq_some {ending cs front : List Char} (h : before? ending cs = some front) :
    cs = front ++ ending := by
  obtain ⟨rest, hrest, rfl⟩ := Option.map_eq_some_iff.mp h
  have hsplit := after?_eq_some hrest
  rw [← List.reverse_inj, hsplit]
  simp

theorem Text.cutAt?_eq_some {mark : Char} {cs front back : List Char} (h : cutAt? mark cs = some (front, back)) :
    cs = front ++ mark :: back := by
  induction cs generalizing front with
  | nil => cases h
  | cons c cs ih =>
    unfold cutAt? at h
    split at h
    · rename_i hc
      cases h
      rw [hc]
      rfl
    · obtain ⟨⟨front', back'⟩, hcut, hcons⟩ := Option.map_eq_some_iff.mp h
      cases hcons
      rw [ih hcut]
      rfl

theorem exists_cons_of_head {cs : List Char} {P : Char → Prop} (h : ∃ c ∈ cs.head?, P c) :
    ∃ c rest, cs = c :: rest ∧ P c := by
  obtain ⟨c, hc, hP⟩ := h
  cases cs with
  | nil => cases hc
  | cons d ds =>
    obtain rfl := Option.some.inj hc
    exact ⟨d, ds, rfl, hP⟩

structure IsWord (name : String) : Prop where
  ne_nil : name.toList ≠ []
  chars : ∀ c ∈ name.toList, isNameChar c = true

theorem IsWord.not_mem {name : String} (h : IsWord name) {c : Char} (hc : isNameChar c = false) :
    c ∉ name.toList := by
  intro hmem
  simp [h.chars c hmem] at hc

/-- A word that does not start with a digit. -/
structure IsIdentifier (name : String) : Prop extends IsWord name where
  head : ∀ c ∈ name.toList.head?, c.isDigit = false

/-- Words with points between them; of the points it matters only that the first word is not empty. -/
def IsPath (name : String) : Prop :=
  (∃ c ∈ name.toList.head?, isNameChar c = true ∧ c.isDigit = false) ∧
    ∀ c ∈ name.toList, isNameChar c = true ∨ c = '.'

-- Only the first character is looked at, not all characters that there are.
instance (name : String) : Decidable (IsPath name) :=
  have := Option.decidableExistsMem (p := fun c => isNameChar c = true ∧ c.isDigit = false) name.toList.head?
  instDecidableAnd

/-- A text is the other or goes on behind it with a point. -/
def Extends (text start : String) : Prop := text = start ∨ ∃ rest, text = start ++ "." ++ rest

theorem extends_iff {text start : String} :
    Extends text start ↔ text = start ∨ (start ++ ".").toList <+: text.toList := by
  unfold Extends
  refine or_congr Iff.rfl ⟨?_, ?_⟩
  · rintro ⟨rest, rfl⟩
    simp
  · rintro ⟨rest, hrest⟩
    exact ⟨String.ofList rest, String.toList_injective (by simp [← hrest])⟩

instance (text start : String) : Decidable (Extends text start) := decidable_of_iff _ extends_iff.symm

theorem Extends.access {text start : String} (h : Extends text start) (name : String) :
    Extends (text ++ "." ++ name) start := by
  rcases h with rfl | ⟨rest, rfl⟩
  · exact Or.inr ⟨name, rfl⟩
  · exact Or.inr ⟨rest ++ "." ++ name, by simp [String.append_assoc]⟩

/-- What goes on behind a longer text goes on behind the shorter one. -/
theorem Extends.of_access {text start name : String} (h : Extends text (start ++ "." ++ name)) :
    Extends text start := by
  rcases h with rfl | ⟨rest, rfl⟩
  · exact Or.inr ⟨name, rfl⟩
  · exact Or.inr ⟨name ++ "." ++ rest, by simp [String.append_assoc]⟩

theorem Extends.prefix {text start : String} (h : Extends text start) : start.toList <+: text.toList := by
  rcases h with rfl | ⟨rest, rfl⟩
  · exact List.prefix_rfl
  · simp [String.append_assoc]

namespace IsPath

variable {name : String} (h : IsPath name)
include h

theorem not_mem {c : Char} (hname : isNameChar c = false) (hpoint : c ≠ '.') : c ∉ name.toList := by
  intro hmem
  rcases h.2 c hmem with hc | hc
  · simp [hname] at hc
  · exact hpoint hc

theorem isBlank {c : Char} (hc : c ∈ name.toList) : isBlank c = false := by
  by_contra hblank
  have hbreaks : Lexer.Breaks [c] := by
    simpa [Lexer.Breaks] using Or.inl (Bool.not_eq_false _ ▸ hblank)
  obtain ⟨hname, -, -, hpoint, -⟩ := hbreaks.head rfl
  exact h.not_mem hname hpoint hc

theorem trim_toList : trim name.toList = name.toList := by
  have hstart (cs : List Char) (hcs : ∀ c ∈ cs, Text.isBlank c = false) : cs.dropWhile Text.isBlank = cs := by
    cases cs with
    | nil => rfl
    | cons c cs => simp [hcs c (by simp)]
  rw [trim, trimStart, trimEnd, hstart _ fun c hc => h.isBlank hc,
    hstart _ fun c hc => h.isBlank (List.mem_reverse.mp hc), List.reverse_reverse]

theorem before?_eq_none {ending : List Char} {c : Char} (hc : c ∈ ending) (hname : isNameChar c = false)
    (hpoint : c ≠ '.') : before? ending name.toList = none := by
  cases hafter : after? ending.reverse name.toList.reverse with
  | none => simp [before?, hafter]
  | some rest =>
    have hsplit := Text.after?_eq_some hafter
    have hmem : c ∈ name.toList.reverse := by simp [hsplit, hc]
    exact absurd (List.mem_reverse.mp hmem) (h.not_mem hname hpoint)

/-- The name is the written reference to the type. -/
theorem parse_eq : TypeRef.parse name = .named name := by
  rw [TypeRef.parse, h.trim_toList, h.before?_eq_none (c := '?') (by decide) (by decide) (by decide)]
  simp [TypeRef.named]

theorem isArray_named : (TypeRef.named name).isArray = false := by
  have hnone : before? ['[', ']'] (TypeRef.named name).name.toList = none :=
    h.before?_eq_none (c := '[') (by decide) (by decide) (by decide)
  simp [TypeRef.isArray, TypeRef.element?, hnone]

end IsPath

end DataBinding
