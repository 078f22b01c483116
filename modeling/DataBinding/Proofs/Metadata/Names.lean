import DataBinding.Metadata.Registry
import DataBinding.Proofs.Text.Paths

/-!
# Names of types

The types that expressions can name are the registered ones and those that keywords abbreviate. A written
name without brackets means one of them, however it is found.
-/
namespace DataBinding.Registry
open Text

variable {r : Registry} {namespaces : List MarkupNamespace} {name : String} {found : FoundType} {t : TypeRef}

/-- A written name can mean the type: it is registered, or a keyword abbreviates it. -/
def Denotes (r : Registry) (t : TypeRef) : Prop :=
  (∃ d ∈ r.types, t = d.ref) ∨ ∃ name ∈ WellKnown.abbreviations.map (·.2), t = .named name

theorem denotes_of_typeDef? {d : TypeDef} (h : r.typeDef? name = some d) : r.Denotes d.ref :=
  Or.inl ⟨d, List.mem_of_find?_eq_some h, rfl⟩

theorem denotes_of_findIn? {ns : MarkupNamespace} (h : r.findIn? ns name = some found) :
    r.Denotes found.type := by
  obtain ⟨d, hd, rfl⟩ := Option.map_eq_some_iff.mp h
  exact denotes_of_typeDef? hd

theorem denotes_of_findSimple? (h : r.findSimple? namespaces name = some found) : r.Denotes found.type := by
  unfold findSimple? at h
  split at h
  · rename_i full hfull
    cases h
    obtain ⟨front, back, habbreviations, -⟩ := List.lookup_eq_some_iff.mp hfull
    exact Or.inr ⟨full, by simp [habbreviations], rfl⟩
  · split at h
    · obtain ⟨ns, -, hns⟩ := Option.bind_eq_some_iff.mp h
      exact denotes_of_findIn? hns
    · split at h
      · rename_i d hd
        cases h
        exact denotes_of_typeDef? hd
      · split at h
        · rename_i hfound
          cases h
          obtain ⟨ns, -, hns⟩ := List.exists_of_findSome?_eq_some hfound
          exact denotes_of_findIn? hns
        · obtain ⟨d, hd, rfl⟩ := Option.map_eq_some_iff.mp h
          exact denotes_of_typeDef? hd

/-- A name without brackets means no array. -/
theorem denotes_of_findType? (hname : ']' ∉ name.toList) (h : r.findType? namespaces name = some found) :
    r.Denotes found.type := by
  have hrank (bound : Nat) : (splitBrackets bound name.toList).2 = 0 := by
    cases bound with
    | zero => rfl
    | succ bound =>
      cases hbefore : before? ['[', ']'] (trim name.toList) with
      | none => simp [splitBrackets, hbefore]
      | some element =>
        obtain ⟨rest, hrest, -⟩ := Option.map_eq_some_iff.mp hbefore
        have hsplit := Text.after?_eq_some hrest
        have hmem : ']' ∈ trim name.toList := by
          rw [← List.mem_reverse, hsplit]
          simp
        obtain ⟨front, back, htrim, -⟩ := Lexer.exists_trim_eq name.toList
        refine absurd ?_ hname
        rw [htrim]
        simp [hmem]
  unfold findType? at h
  obtain ⟨simple, hsimple, rfl⟩ := Option.map_eq_some_iff.mp h
  rw [hrank]
  exact denotes_of_findSimple? hsimple

/-! ## Names that are paths -/

def Names (r : Registry) (name : String) : Prop :=
  name ∈ r.types.map (·.name) ∨ name ∈ WellKnown.abbreviations.map (·.2)

def NamesArePaths (r : Registry) : Prop := ∀ d ∈ r.types, IsPath d.name

theorem NamesArePaths.ref (hr : r.NamesArePaths) {d : TypeDef} (hd : d ∈ r.types) : d.ref = .named d.name :=
  (hr d hd).parse_eq

theorem Denotes.names (hr : r.NamesArePaths) (h : r.Denotes t) : ∃ n, r.Names n ∧ t = .named n := by
  rcases h with ⟨d, hd, rfl⟩ | ⟨name, hname, rfl⟩
  · exact ⟨d.name, Or.inl (List.mem_map.mpr ⟨d, hd, rfl⟩), hr.ref hd⟩
  · exact ⟨name, Or.inr hname, rfl⟩

end DataBinding.Registry
