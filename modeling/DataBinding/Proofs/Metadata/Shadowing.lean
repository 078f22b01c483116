import DataBinding.Proofs.Metadata.Lookup

/-!
# Own declarations and inherited ones

A type comes first among its base types, so what it declares itself hides what it inherits. An interface
comes among its supertypes where the order of names puts it: a supertype with a lesser name that declares a
member too hides the interface's own.
-/
namespace DataBinding

namespace TypeDef

variable {d : TypeDef} {name : String}

/-- The type itself declares a property without parameters or a field of the name. -/
def DeclaresMember (d : TypeDef) (name : String) : Prop :=
  (∃ p ∈ d.properties, p.name = name ∧ p.parameters = []) ∨ ∃ f ∈ d.fields, f.name = name

def DeclaresIndexer (d : TypeDef) : Prop := ∃ p ∈ d.properties, p.parameters ≠ []

def DeclaresEvent (d : TypeDef) (name : String) : Prop := ∃ e ∈ d.events, e.name = name

theorem ownMember?_isSome_iff : (d.ownMember? name).isSome ↔ d.DeclaresMember name := by
  have hproperty : (d.properties.find? fun p => p.name == name && p.parameters.isEmpty).isSome ↔
      ∃ p ∈ d.properties, p.name = name ∧ p.parameters = [] := by
    simp [List.find?_isSome]
  unfold ownMember? DeclaresMember
  split
  · rename_i p hp
    rw [hp] at hproperty
    simp [← hproperty]
  · rename_i hnone
    rw [hnone] at hproperty
    simp [← hproperty, List.find?_isSome]

theorem ownIndexer?_isSome_iff : d.ownIndexer?.isSome ↔ d.DeclaresIndexer := by
  simp [ownIndexer?, DeclaresIndexer, List.find?_isSome]

theorem ownEvent?_isSome_iff : (d.ownEvent? name).isSome ↔ d.DeclaresEvent name := by
  simp [ownEvent?, DeclaresEvent, List.find?_isSome]

end TypeDef

namespace Registry

variable {α : Type} {r : Registry} {t : TypeRef} {d : TypeDef} {own : TypeDef → Option α}

/-- What the type of the name declares itself. -/
def ownOf? (r : Registry) (own : TypeDef → Option α) (name : String) : Option α := (r.typeDef? name).bind own

/-- The type is an interface, and a supertype with a lesser name declares something of the sort. -/
def Preceded (r : Registry) (t : TypeRef) (own : TypeDef → Option α) : Prop :=
  r.isInterface t = true ∧ ∃ name ∈ r.supertypes t, name < t.name ∧ (r.ownOf? own name).isSome

instance (r : Registry) (t : TypeRef) (own : TypeDef → Option α) : Decidable (r.Preceded t own) :=
  inferInstanceAs (Decidable (_ ∧ _))

/-- What is found on the type is what it declares itself, unless it is preceded: then a supertype with a
lesser name declares what is found. -/
structure FindsOwn (r : Registry) (t : TypeRef) (own : TypeDef → Option α) (found : Option α) : Prop where
  isSome : found.isSome
  unpreceded : ¬ r.Preceded t own → found = r.ownOf? own t.name
  preceding : r.Preceded t own → ∃ name ∈ r.supertypes t, name < t.name ∧ found = r.ownOf? own name

/-- Along the order of an interface the least name decides. -/
theorem findsOwn_of_interface (ht : r.isInterface t = true) (hown : (r.ownOf? own t.name).isSome) :
    r.FindsOwn t own ((r.supertypes t).findSome? (r.ownOf? own)) := by
  have hsorted : (r.supertypes t).Pairwise (· ≤ ·) := pairwise_sortNames _
  have hself := r.self_mem_supertypes t
  cases hfind : (r.supertypes t).findSome? (r.ownOf? own) with
  | none =>
    have hnone := List.findSome?_eq_none_iff.mp hfind t.name hself
    simp [hnone] at hown
  | some a =>
    obtain ⟨front, n, back, hsplit, hn, hfront⟩ := List.findSome?_eq_some_iff.mp hfind
    have hmem : n ∈ r.supertypes t := by simp [hsplit]
    have hleast {m : String} (hm : m ∈ r.supertypes t) (hdeclares : (r.ownOf? own m).isSome) : n ≤ m := by
      rw [hsplit, List.mem_append, List.mem_cons] at hm
      rcases hm with hm | rfl | hm
      · simp [hfront m hm] at hdeclares
      · exact Std.le_refl m
      · rw [hsplit, List.pairwise_append] at hsorted
        exact (List.pairwise_cons.mp hsorted.2.1).1 m hm
    refine ⟨rfl, fun hfirst => ?_, ?_⟩
    · have hself : n = t.name := by
        by_contra hne
        have hlt : n < t.name := Std.lt_of_le_of_ne (hleast hself hown) hne
        exact hfirst ⟨ht, n, hmem, hlt, by simp [hn]⟩
      rw [← hself, hn]
    · rintro ⟨-, m, hm, hlt, hdeclares⟩
      exact ⟨n, hmem, Std.lt_of_le_of_lt (hleast hm hdeclares) hlt, hn.symm⟩

/-- Along base types the type itself decides. -/
theorem findsOwn_of_not_interface (ht : r.isInterface t = false) (hown : (r.ownOf? own t.name).isSome) :
    r.FindsOwn t own ((r.baseChain t).findSome? (r.ownOf? own)) := by
  obtain ⟨a, ha⟩ := Option.isSome_iff_exists.mp hown
  obtain ⟨rest, hrest⟩ := r.exists_baseChain_eq_cons t
  rw [hrest, findSome?_cons_self ha]
  refine ⟨rfl, fun _ => ha.symm, ?_⟩
  rintro ⟨hinterface, -⟩
  rw [ht] at hinterface
  cases hinterface

theorem findsOwn (hd : r.typeDef? t.name = some d) (hown : (own d).isSome) :
    r.FindsOwn t own ((r.lookupDefs t).findSome? own) := by
  have hown : (r.ownOf? own t.name).isSome := by simpa [ownOf?, hd] using hown
  rw [findSome?_lookupDefs, lookupOrder]
  split
  · rename_i ht
    exact findsOwn_of_interface ht hown
  · rename_i ht
    exact findsOwn_of_not_interface (by simpa using ht) hown

/-- What a type declares itself is found on it, unless the type is an interface and a supertype with a lesser
name declares something of the sort too, which is then found in its place. -/
theorem declarations_findsOwn (hd : r.typeDef? t.name = some d) :
    (∀ name, t.isArray = false → d.DeclaresMember name →
      r.FindsOwn t (·.ownMember? name) (r.member? t name)) ∧
    (t.isArray = false → d.DeclaresIndexer → r.FindsOwn t (·.ownIndexer?) (r.indexer? t)) ∧
    ∀ name, d.DeclaresEvent name → r.FindsOwn t (·.ownEvent? name) (r.event? t name) := by
  refine ⟨fun name harray hdeclares => ?_, fun harray hdeclares => ?_, fun name hdeclares => ?_⟩
  · rw [member?, if_neg (by simp [harray])]
    exact findsOwn hd (TypeDef.ownMember?_isSome_iff.mpr hdeclares)
  · have helement : t.element? = none := by simpa [TypeRef.isArray] using harray
    rw [indexer?, helement]
    exact findsOwn hd (TypeDef.ownIndexer?_isSome_iff.mpr hdeclares)
  · exact findsOwn hd (TypeDef.ownEvent?_isSome_iff.mpr hdeclares)

/-! ## Two interfaces -/

namespace Figures

/-- An interface with a title, an element and an event. -/
def face (name : String) (bases : List TypeRef) (title : TypeRef) : TypeDef where
  name := name
  kind := .interfaceType
  interfaces := bases
  properties := [
    { name := "Item", type := title, parameters := [{ name := "index", type := .named WellKnown.int32 }] },
    { name := "Title", type := title }]
  events := [{ name := "Moved" }]

def figure (bases : List TypeRef) : TypeDef := face "IFigure" bases .string

def shape (bases : List TypeRef) : TypeDef := face "IShape" bases (.named WellKnown.int32)

def figures : Registry := ⟨Registry.systemTypes ++ [figure [.named "IShape"], shape []]⟩

def shapes : Registry := ⟨Registry.systemTypes ++ [figure [], shape [.named "IFigure"]]⟩

end Figures

open Figures in
/-- The interface with the lesser name finds its own title, element and event. -/
theorem figure_findsOwn :
    figures.typeDef? "IFigure" = some (figure [.named "IShape"]) ∧
      ¬ figures.Preceded (.named "IFigure") (·.ownMember? "Title") ∧
      figures.member? (.named "IFigure") "Title" = (figure [.named "IShape"]).ownMember? "Title" ∧
      ¬ figures.Preceded (.named "IFigure") (·.ownIndexer?) ∧
      figures.indexer? (.named "IFigure") = (figure [.named "IShape"]).ownIndexer? ∧
      ¬ figures.Preceded (.named "IFigure") (·.ownEvent? "Moved") ∧
      figures.event? (.named "IFigure") "Moved" = (figure [.named "IShape"]).ownEvent? "Moved" := by
  have hd : figures.typeDef? "IFigure" = some (figure [.named "IShape"]) := rfl
  obtain ⟨hmember, hindexer, hevent⟩ := declarations_findsOwn (t := .named "IFigure") hd
  have harray : (TypeRef.named "IFigure").isArray = false := by decide
  have htitle := hmember "Title" harray (Or.inl ⟨_, List.mem_cons_of_mem _ List.mem_cons_self, rfl, rfl⟩)
  have hitem := hindexer harray ⟨_, List.mem_cons_self, by simp⟩
  have hmoved := hevent "Moved" ⟨_, List.mem_cons_self, rfl⟩
  have hpreceded : ¬ figures.Preceded (.named "IFigure") (·.ownMember? "Title") := by decide +kernel
  have hpreceded' : ¬ figures.Preceded (.named "IFigure") (·.ownIndexer?) := by decide +kernel
  have hpreceded'' : ¬ figures.Preceded (.named "IFigure") (·.ownEvent? "Moved") := by decide +kernel
  exact ⟨hd, hpreceded, htitle.unpreceded hpreceded, hpreceded', hitem.unpreceded hpreceded', hpreceded'',
    hmoved.unpreceded hpreceded''⟩

open Figures in
/-- The interface with the greater name finds the title, the element and the event of the other one. -/
theorem shape_finds_figure :
    shapes.typeDef? "IShape" = some (shape [.named "IFigure"]) ∧
      (shape [.named "IFigure"]).DeclaresMember "Title" ∧ (shape [.named "IFigure"]).DeclaresIndexer ∧
      (shape [.named "IFigure"]).DeclaresEvent "Moved" ∧
      shapes.member? (.named "IShape") "Title" = (figure []).ownMember? "Title" ∧
      shapes.indexer? (.named "IShape") = (figure []).ownIndexer? ∧
      shapes.event? (.named "IShape") "Moved" = (figure []).ownEvent? "Moved" ∧
      ((figure []).ownMember? "Title").map (·.declaringType) = some (.named "IFigure") := by
  refine ⟨rfl, Or.inl ⟨_, List.mem_cons_of_mem _ List.mem_cons_self, rfl, rfl⟩, ⟨_, List.mem_cons_self, by simp⟩,
    ⟨_, List.mem_cons_self, rfl⟩, ?_, ?_, ?_, by decide +kernel⟩
  · rfl
  · rfl
  · rfl

end Registry

end DataBinding
