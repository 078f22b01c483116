import DataBinding.Proofs.Metadata.Assignability
import DataBinding.Proofs.Metadata.Walks
import DataBinding.Proofs.Text.Paths

/-!
# Conversions between types

What can be assigned to a type gets there in one of six ways. In a registry that extends the system types, that
derives types from classes and interfaces only and that has no arrays among its names, two conversions in a row are
a conversion too. Whether a nullable value may lose its null is asked in one of the ways only: to any other type
than its own a nullable value goes wherever the value itself goes.
-/
namespace DataBinding
open Text

namespace TypeRef

variable {t u element : TypeRef}

theorem element?_congr (h : t.name = u.name) : t.element? = u.element? := by rw [element?, element?, h]

theorem suffix_of_element? (h : t.element? = some element) : ['[', ']'] <:+ t.name.toList := by
  obtain ⟨front, hfront, -⟩ := Option.map_eq_some_iff.mp h
  exact ⟨front, (before?_eq_some hfront).symm⟩

theorem length_name_parse_le (text : List Char) : (parse (String.ofList text)).name.length ≤ text.length := by
  obtain ⟨front, back, htrim, -⟩ := Lexer.exists_trim_eq text
  have hlength : (trim text).length ≤ text.length := by
    rw [congrArg List.length htrim]
    simp
    omega
  rw [parse, String.toList_ofList]
  split
  · rename_i bare hbare
    have hsplit := congrArg List.length (before?_eq_some hbare)
    rw [List.length_append] at hsplit
    rw [String.length_ofList]
    omega
  · rwa [String.length_ofList]

theorem length_element_lt (h : t.element? = some element) : element.name.length < t.name.length := by
  obtain ⟨front, hfront, rfl⟩ := Option.map_eq_some_iff.mp h
  have hsplit := congrArg List.length (before?_eq_some hfront)
  have hle := length_name_parse_le front
  rw [List.length_append, String.length_toList, List.length_cons] at hsplit
  omega

theorem isNull_eq_false_iff : t.isNull = false ↔ t.name ≠ WellKnown.null := by simp [isNull, is]

theorem isNull_eq_false_of_element? (h : t.element? = some element) : t.isNull = false := by
  rw [isNull_eq_false_iff]
  intro hname
  have hsuffix := suffix_of_element? h
  rw [hname] at hsuffix
  exact absurd hsuffix (by decide)

end TypeRef

namespace WellKnown

theorem mem_widened {source target : String} (h : target ∈ widened source) :
    source ∈ [char, int32, int64, single] ∧ target ∈ [int32, int64, single, double, decimal] := by
  unfold widened at h
  split at h
  · subst source
    exact ⟨by decide, h⟩
  · split at h
    · subst source
      exact ⟨by decide, List.mem_cons_of_mem _ h⟩
    · split at h
      · subst source
        exact ⟨by decide, List.mem_cons_of_mem _ (List.mem_cons_of_mem _ h)⟩
      · split at h
        · subst source
          obtain rfl := List.mem_singleton.mp h
          decide
        · cases h

theorem widened_trans {a b c : String} (hab : b ∈ widened a) (hbc : c ∈ widened b) : c ∈ widened a := by
  have hall : ∀ a ∈ [char, int32, int64, single], ∀ b ∈ widened a, ∀ c ∈ widened b, c ∈ widened a := by
    decide
  exact hall a (mem_widened hab).1 b hab c hbc

theorem ne_of_mem_widened {source target : String} (h : target ∈ widened source) : target ≠ source := by
  have hall : ∀ a ∈ [char, int32, int64, single], ∀ b ∈ widened a, b ≠ a := by decide
  exact hall source (mem_widened h).1 target h

end WellKnown

namespace Registry

/-! ## Ways to a type -/

/-- The ways in which a place of the first type takes values of the second. -/
inductive Takes (r : Registry) : TypeRef → TypeRef → Prop where
  | null {target source : TypeRef} (hsource : source.isNull = true)
    (h : r.isValueType target = false ∨ target.nullable = true) : Takes r target source
  | object {target source : TypeRef} (hsource : source.isNull = false) (h : target.name = WellKnown.object) :
    Takes r target source
  | self {target source : TypeRef} (hsource : source.isNull = false) (h : target.name = source.name)
    (hnull : source.nullable = true → target.nullable = true ∨ r.isValueType target = false) :
    Takes r target source
  | widened {target source : TypeRef} (h : target.name ∈ WellKnown.widened source.name) : Takes r target source
  | element {target source targetElement sourceElement : TypeRef} (hne : target.name ≠ source.name)
    (htarget : target.element? = some targetElement) (hsource : source.element? = some sourceElement)
    (hvalue : r.isValueType sourceElement = false) (h : Takes r targetElement sourceElement) :
    Takes r target source
  | supertype {target source : TypeRef} (hsource : source.isNull = false) (hne : target.name ≠ source.name)
    (harray : target.element? = none ∨ source.element? = none) (h : target.name ∈ r.supertypes source) :
    Takes r target source

variable {r : Registry} {a b c target source : TypeRef}

theorem isNull_eq_false_of_widened (h : target.name ∈ WellKnown.widened source.name) : source.isNull = false := by
  have hall : ∀ n ∈ [WellKnown.char, WellKnown.int32, WellKnown.int64, WellKnown.single], n ≠ WellKnown.null := by
    decide
  exact TypeRef.isNull_eq_false_iff.mpr (hall _ (WellKnown.mem_widened h).1)

/-- Where the ways that are tried first are closed, there is one between arrays or one to a supertype. -/
theorem Takes.element_or_supertype (h : r.Takes target source) (hnull : ¬ source.isNull = true)
    (hobject : ¬ target.is WellKnown.object = true) (hself : ¬ target.is source.name = true)
    (hwidened : ¬ (WellKnown.widened source.name).contains target.name = true) :
    (∃ targetElement sourceElement, target.element? = some targetElement ∧ source.element? = some sourceElement ∧
      r.isValueType sourceElement = false ∧ r.Takes targetElement sourceElement) ∨
    (target.element? = none ∨ source.element? = none) ∧ target.name ∈ r.supertypes source := by
  cases h with
  | null h => exact absurd h hnull
  | object _ h => simp [TypeRef.is, h] at hobject
  | self _ h => simp [TypeRef.is, h] at hself
  | widened h => simp [h] at hwidened
  | element _ htarget hsource hvalue h => exact Or.inl ⟨_, _, htarget, hsource, hvalue, h⟩
  | supertype _ _ harray h => exact Or.inr ⟨harray, h⟩

/-- A depth for all brackets of the target is enough to find every way. -/
theorem assignableWithin_iff {depth : Nat} (hdepth : target.name.length ≤ depth) :
    r.assignableWithin depth target source = true ↔ r.Takes target source := by
  fun_induction assignableWithin r depth target source with
  | case1 depth target source hnull =>
    constructor
    · intro h
      exact .null hnull (by simpa using h)
    · intro h
      cases h with
      | null _ h => simpa using h
      | object hsource | self hsource | supertype hsource => simp [hnull] at hsource
      | widened h => simp [isNull_eq_false_of_widened h] at hnull
      | element _ _ hsource => simp [TypeRef.isNull_eq_false_of_element? hsource] at hnull
  | case2 depth target source hnull hobject =>
    simp only [true_iff]
    exact .object (by simpa using hnull) (eq_of_beq hobject)
  | case3 depth target source hnull hobject hself =>
    have hname : target.name = source.name := eq_of_beq hself
    constructor
    · intro h
      refine .self (by simpa using hnull) hname fun hsource => ?_
      simpa [hsource, or_comm] using h
    · intro h
      cases h with
      | null hsource => exact absurd hsource hnull
      | object _ h => simp [TypeRef.is, h] at hobject
      | self _ _ h =>
        cases hsource : source.nullable with
        | false => rfl
        | true => rcases h hsource with h | h <;> simp [h]
      | widened h => exact absurd hname (WellKnown.ne_of_mem_widened h)
      | element hne | supertype _ hne => exact absurd hname hne
  | case4 depth target source hnull hobject hself hwidened =>
    simp only [true_iff]
    exact .widened (by simpa using hwidened)
  | case5 target source hnull hobject hself hwidened depth targetElement sourceElement hsource htarget ih =>
    have hlt := TypeRef.length_element_lt htarget
    rw [Bool.and_eq_true, Bool.not_eq_true', ih (by omega)]
    constructor
    · rintro ⟨hvalue, h⟩
      exact .element (by simpa [TypeRef.is] using hself) htarget hsource hvalue h
    · intro h
      rcases h.element_or_supertype hnull hobject hself hwidened with ⟨_, _, htarget', hsource', h⟩ | ⟨harray, -⟩
      · obtain rfl := Option.some.inj (htarget.symm.trans htarget')
        obtain rfl := Option.some.inj (hsource.symm.trans hsource')
        exact h
      · simp [htarget, hsource] at harray
  | case6 depth target source hnull hobject hself hwidened hother =>
    have harray : target.element? = none ∨ source.element? = none := by
      cases htarget : target.element? with
      | none => exact Or.inl rfl
      | some targetElement =>
        cases hsource : source.element? with
        | none => exact Or.inr rfl
        | some sourceElement =>
          have hlt := TypeRef.length_element_lt htarget
          exact (hother (depth - 1) _ _ (by omega) htarget hsource).elim
    rw [List.contains_iff_mem]
    constructor
    · exact .supertype (by simpa using hnull) (by simpa [TypeRef.is] using hself) harray
    · intro h
      rcases h.element_or_supertype hnull hobject hself hwidened with ⟨_, _, htarget, hsource, -⟩ | ⟨-, hsuper⟩
      · simp [htarget, hsource] at harray
      · exact hsuper

theorem isAssignable_iff : r.isAssignable target source = true ↔ r.Takes target source :=
  assignableWithin_iff (Nat.le_refl _)

/-- Only the name of the source counts, unless it is that of the target. -/
theorem Takes.of_source (h : r.Takes c b) (hname : b.name = a.name)
    (hnull : c.name = b.name → a.nullable = true → c.nullable = true ∨ r.isValueType c = false) :
    r.Takes c a := by
  have hisNull : a.isNull = b.isNull := by rw [TypeRef.isNull, TypeRef.isNull, TypeRef.is, TypeRef.is, hname]
  cases h with
  | null hb h => exact .null (hisNull.trans hb) h
  | object hb h => exact .object (hisNull.trans hb) h
  | self hb h _ => exact .self (hisNull.trans hb) (h.trans hname) (hnull h)
  | widened h => exact .widened (hname ▸ h)
  | element hne hc hb hvalue h => exact .element (hname ▸ hne) hc ((TypeRef.element?_congr hname) ▸ hb) hvalue h
  | supertype hb hne harray h =>
    rw [TypeRef.element?_congr hname] at harray
    have hsuper : c.name ∈ r.supertypes a := by
      rw [mem_supertypes_iff] at h ⊢
      exact hname ▸ h
    exact .supertype (hisNull.trans hb) (hname ▸ hne) harray hsuper

/-! ## Extensions of the system types -/

theorem types_addAll {r' : Registry} {ds : List TypeDef} (h : r.addAll ds = .ok r') : r'.types = r.types ++ ds := by
  induction ds generalizing r with
  | nil =>
    cases h
    simp
  | cons d ds ih =>
    unfold addAll at h
    rw [List.foldlM_cons] at h
    cases hadd : r.add d with
    | error e =>
      rw [hadd] at h
      cases h
    | ok next =>
      rw [hadd] at h
      have hnext : next.types = r.types ++ [d] := by
        unfold add at hadd
        split at hadd
        · cases hadd
        · cases hadd
          rfl
      rw [ih h, hnext]
      simp

/-- What derives from nothing has only itself and the type of all objects as supertypes. -/
theorem mem_supertypes_of_not_inherits {name : String} (ha : ∀ super, ¬ r.Inherits a.name super)
    (h : name ∈ r.supertypes a) : name = a.name ∨ name = WellKnown.object := by
  rcases mem_supertypes_iff.mp h with h | h
  · rcases Relation.ReflTransGen.cases_head h with h | ⟨next, hnext, -⟩
    · exact Or.inl h.symm
    · exact absurd hnext (ha next)
  · exact Or.inr h

section System

variable {ds : List TypeDef} (hr : Registry.system.addAll ds = .ok r)
include hr

theorem typeDef?_of_system {name : String} {d : TypeDef} (hd : Registry.system.typeDef? name = some d) :
    r.typeDef? name = some d := by
  unfold typeDef? at hd ⊢
  rw [types_addAll hr, List.find?_append, hd, Option.some_or]

theorem not_inherits_of_system {name super : String} (hname : name ∈ Registry.systemTypes.map (·.name)) :
    ¬ r.Inherits name super := by
  have hall : ∀ n ∈ Registry.systemTypes.map (·.name),
      ∃ d ∈ Registry.system.typeDef? n, d.base = none ∧ d.interfaces = [] := by decide
  obtain ⟨d, hd, hbase, hinterfaces⟩ := hall name hname
  rintro ⟨d', hd', s, hs, -⟩
  rw [typeDef?_of_system hr hd] at hd'
  cases hd'
  simp [hbase, hinterfaces] at hs

theorem isValueType_object (ha : a.name = WellKnown.object) : r.isValueType a = false := by
  have hobject : ∃ d ∈ Registry.system.typeDef? WellKnown.object, d.kind.isValue = false := by decide
  obtain ⟨d, hd, hkind⟩ := hobject
  simp [isValueType, hasKind, ha, typeDef?_of_system hr hd, hkind]

theorem isValueType_of_widened {name : String} (h : name ∈ WellKnown.widened a.name) : r.isValueType a = true := by
  have hall : ∀ n ∈ [WellKnown.char, WellKnown.int32, WellKnown.int64, WellKnown.single],
      ∃ d ∈ Registry.system.typeDef? n, d.kind.isValue = true := by decide
  obtain ⟨d, hd, hkind⟩ := hall _ (WellKnown.mem_widened h).1
  simp [isValueType, hasKind, typeDef?_of_system hr hd, hkind]

end System

/-- Types derive from registered classes and interfaces only, and no array and no type of the null literal is
registered. -/
structure Orderly (r : Registry) : Prop where
  base : ∀ d ∈ r.types, ∀ s ∈ d.base, r.hasKind s (!·.isValue) = true
  interfaces : ∀ d ∈ r.types, ∀ s ∈ d.interfaces, r.hasKind s (!·.isValue) = true
  arrays : ∀ d ∈ r.types, ¬ ['[', ']'] <:+ d.name.toList
  null : ∀ d ∈ r.types, d.name ≠ WellKnown.null

theorem orderly_system : Registry.system.Orderly where
  base := by decide
  interfaces := by decide
  arrays := by decide +kernel
  null := by decide

section Orderly

theorem isValueType_of_hasKind (h : r.hasKind a (!·.isValue) = true) : r.isValueType a = false := by
  unfold isValueType hasKind at *
  cases hd : r.typeDef? a.name <;> simp_all

variable (ho : r.Orderly)
include ho

theorem Orderly.typeDef?_of_element {element : TypeRef} (h : a.element? = some element) :
    r.typeDef? a.name = none := by
  cases hd : r.typeDef? a.name with
  | none => rfl
  | some d =>
    obtain ⟨hmem, hname⟩ := typeDef?_eq_some hd
    exact absurd (hname ▸ TypeRef.suffix_of_element? h) (ho.arrays d hmem)

theorem Orderly.isValueType_of_element {element : TypeRef} (h : a.element? = some element) :
    r.isValueType a = false := by
  simp [isValueType, hasKind, ho.typeDef?_of_element h]

theorem Orderly.element?_of_hasKind (h : r.hasKind a (!·.isValue) = true) : a.element? = none := by
  cases helement : a.element? with
  | none => rfl
  | some element => simp [hasKind, ho.typeDef?_of_element helement] at h

theorem Orderly.isNull_of_hasKind (h : r.hasKind a (!·.isValue) = true) : a.isNull = false := by
  obtain ⟨d, hd, -⟩ : ∃ d, r.typeDef? a.name = some d ∧ d.kind.isValue = false := by
    simpa [hasKind, Option.any_eq_true] using h
  obtain ⟨hmem, hname⟩ := typeDef?_eq_some hd
  exact TypeRef.isNull_eq_false_iff.mpr (hname ▸ ho.null d hmem)

theorem Orderly.hasKind_of_inherits {name super : String} (h : r.Inherits name super) :
    r.hasKind (.named super) (!·.isValue) = true := by
  obtain ⟨d, hd, s, hs, rfl⟩ := h
  have hmem := (typeDef?_eq_some hd).1
  rcases hs with hs | hs
  · exact ho.base d hmem s hs
  · exact ho.interfaces d hmem s hs

/-- A type is its own supertype; the others are registered classes and interfaces. -/
theorem Orderly.mem_supertypes {ds : List TypeDef} (hr : Registry.system.addAll ds = .ok r)
    (h : b.name ∈ r.supertypes a) (hne : b.name ≠ a.name) : r.hasKind b (!·.isValue) = true := by
  rcases mem_supertypes_iff.mp h with h | h
  · rcases Relation.ReflTransGen.cases_tail h with h | ⟨last, -, hlast⟩
    · exact absurd h hne
    · exact ho.hasKind_of_inherits hlast
  · have hobject : ∃ d ∈ Registry.system.typeDef? WellKnown.object, d.kind.isValue = false := by decide
    obtain ⟨d, hd, hkind⟩ := hobject
    simp [hasKind, h, typeDef?_of_system hr hd, hkind]

end Orderly

/-! ## Two conversions in a row -/

section Transitivity

variable {ds : List TypeDef} (hr : Registry.system.addAll ds = .ok r)
include hr

/-- A system type goes to itself, to the type of all objects, and to what it is widened to. -/
theorem Takes.of_system (h : r.Takes c b) (hb : b.name ∈ Registry.systemTypes.map (·.name)) :
    c.name = b.name ∨ c.name = WellKnown.object ∨ c.name ∈ WellKnown.widened b.name := by
  obtain ⟨d, hd, hname⟩ := List.mem_map.mp hb
  cases h with
  | null h => exact absurd (hname.trans (eq_of_beq h)) (orderly_system.null d hd)
  | object _ h => exact Or.inr (Or.inl h)
  | self _ h => exact Or.inl h
  | widened h => exact Or.inr (Or.inr h)
  | element _ _ hsource => exact absurd (hname ▸ TypeRef.suffix_of_element? hsource) (orderly_system.arrays d hd)
  | supertype _ hne _ h =>
    have hsuper := mem_supertypes_of_not_inherits (fun _ => not_inherits_of_system hr hb) h
    exact Or.inr (Or.inl (hsuper.resolve_left hne))

theorem Takes.of_object (h : r.Takes c b) (hb : b.name = WellKnown.object) : c.name = WellKnown.object := by
  have hsystem : WellKnown.object ∈ Registry.systemTypes.map (·.name) := by decide
  rcases h.of_system hr (hb ▸ hsystem) with h | h | h
  · exact h.trans hb
  · exact h
  · exact absurd (hb ▸ (WellKnown.mem_widened h).1) (by decide)

/-- What a number is widened to goes where the number goes. -/
theorem Takes.of_widened (h : r.Takes c b) (hab : b.name ∈ WellKnown.widened a.name) : r.Takes c a := by
  have hall : ∀ n ∈ [WellKnown.int32, WellKnown.int64, WellKnown.single, WellKnown.double, WellKnown.decimal],
      n ∈ Registry.systemTypes.map (·.name) := by decide
  rcases h.of_system hr (hall b.name (WellKnown.mem_widened hab).2) with h | h | h
  · exact .widened (h ▸ hab)
  · exact .object (isNull_eq_false_of_widened hab) h
  · exact .widened (WellKnown.widened_trans hab h)

variable (ho : r.Orderly)
include ho

/-- What takes references has a place for the null reference. -/
theorem Takes.of_reference (h : r.Takes c b) (hb : r.isValueType b = false) :
    r.isValueType c = false ∨ c.nullable = true := by
  cases h with
  | null _ h => exact h
  | object _ h => exact Or.inl (isValueType_object hr h)
  | self _ h => exact Or.inl ((isValueType_congr h).trans hb)
  | widened h => simp [isValueType_of_widened hr h] at hb
  | element _ htarget => exact Or.inl (ho.isValueType_of_element htarget)
  | supertype _ hne _ h => exact Or.inl (isValueType_of_hasKind (ho.mem_supertypes hr h hne))

theorem Takes.of_supertype (h : r.Takes c b) (ha : a.isNull = false) (hne : b.name ≠ a.name)
    (hab : b.name ∈ r.supertypes a) : r.Takes c a := by
  have hb := ho.mem_supertypes hr hab hne
  cases h with
  | null h => simp [ho.isNull_of_hasKind hb] at h
  | object _ h => exact .object ha h
  | self _ h =>
    refine .supertype ha (h ▸ hne) (Or.inl ?_) (h ▸ hab)
    rw [TypeRef.element?_congr h]
    exact ho.element?_of_hasKind hb
  | widened h =>
    have hvalue := isValueType_of_widened hr h
    simp [isValueType_of_hasKind hb] at hvalue
  | element _ _ hsource => simp [ho.element?_of_hasKind hb] at hsource
  | supertype _ hne' _ h =>
    have hc := ho.mem_supertypes hr h hne'
    by_cases hobject : b.name = WellKnown.object
    · exact .object ha (Takes.of_object hr (.supertype (ho.isNull_of_hasKind hb) hne'
        (Or.inl (ho.element?_of_hasKind hc)) h) hobject)
    · have hca : c.name ∈ r.supertypes a := supertypes_subset hab hobject h
      by_cases heq : c.name = a.name
      · exact .self ha heq fun _ => Or.inr (isValueType_of_hasKind hc)
      · exact .supertype ha heq (Or.inl (ho.element?_of_hasKind hc)) hca

/-- Two conversions in a row are one, unless the null of a nullable value is lost on the way. -/
theorem Takes.trans (hb : b.nullable = true → r.isValueType b = false) (hab : r.Takes b a) (hbc : r.Takes c b) :
    r.Takes c a := by
  induction hab generalizing c with
  | null ha h => exact .null ha (hbc.of_reference hr ho (h.elim id hb))
  | object ha h => exact .object ha (hbc.of_object hr h)
  | self ha h hnull =>
    refine hbc.of_source h fun hcb hnullable => Or.inr ?_
    rw [isValueType_congr hcb]
    exact (hnull hnullable).elim hb id
  | widened h => exact hbc.of_widened hr h
  | @element b a _ _ hne helement ha hvalue h ih =>
    have hnull := TypeRef.isNull_eq_false_of_element? ha
    cases hbc with
    | null hb => simp [TypeRef.isNull_eq_false_of_element? helement] at hb
    | object _ hc => exact .object hnull hc
    | self _ hc => exact .element (hc ▸ hne) ((TypeRef.element?_congr hc).trans helement) ha hvalue h
    | widened hc =>
      have hnumber := isValueType_of_widened hr hc
      simp [ho.isValueType_of_element helement] at hnumber
    | element _ hc helement' hreference hbc =>
      obtain rfl := Option.some.inj (helement.symm.trans helement')
      by_cases hca : c.name = a.name
      · exact .self hnull hca fun _ => Or.inr (ho.isValueType_of_element hc)
      · exact .element hca hc ha hvalue (ih (fun _ => hreference) hbc)
    | supertype _ hcb _ hc =>
      have hunregistered : ∀ super, ¬ r.Inherits b.name super := by
        rintro super ⟨d, hd, -⟩
        simp [ho.typeDef?_of_element helement] at hd
      exact .object hnull ((mem_supertypes_of_not_inherits hunregistered hc).resolve_left hcb)
  | supertype ha hne _ h => exact hbc.of_supertype hr ho ha hne h

/-- Assignability is transitive across every type but the nullable forms of value types. -/
theorem isAssignable_trans (hb : b.nullable = true → r.isValueType b = false) (hab : r.isAssignable b a = true)
    (hbc : r.isAssignable c b = true) : r.isAssignable c a = true := by
  rw [isAssignable_iff] at hab hbc ⊢
  exact hab.trans hr ho hb hbc

end Transitivity

namespace Kennel

/-- Dogs are animals, and animals are beings. -/
def types : List TypeDef := [
  { name := "Being", kind := .interfaceType },
  { name := "Animal", interfaces := [.named "Being"] },
  { name := "Dog", base := some (.named "Animal") }]

def registry : Registry := ⟨Registry.systemTypes ++ types⟩

theorem orderly : registry.Orderly where
  base := by decide +kernel
  interfaces := by decide +kernel
  arrays := by decide +kernel
  null := by decide

end Kennel

/-- Tables of dogs are tables of beings, since they are tables of animals. -/
theorem dogs_are_beings :
    Registry.system.addAll Kennel.types = .ok Kennel.registry ∧ Kennel.registry.Orderly ∧
      Kennel.registry.isAssignable (.named "Animal[][]") (.named "Dog[][]") = true ∧
      Kennel.registry.isAssignable (.named "Being[][]") (.named "Animal[][]") = true ∧
      Kennel.registry.isAssignable (.named "Being[][]") (.named "Dog[][]") = true := by
  have hr : Registry.system.addAll Kennel.types = .ok Kennel.registry := rfl
  have hanimals : Kennel.registry.isAssignable (.named "Animal[][]") (.named "Dog[][]") = true := by decide +kernel
  have hbeings : Kennel.registry.isAssignable (.named "Being[][]") (.named "Animal[][]") = true := by decide +kernel
  exact ⟨hr, Kennel.orderly, hanimals, hbeings,
    isAssignable_trans hr Kennel.orderly (by decide) hanimals hbeings⟩

/-! ## Nullable values -/

section Nullability

variable {ds : List TypeDef} (hr : Registry.system.addAll ds = .ok r) (htarget : r.isValueType target = true)
  (hplain : target.nullable = false)
  (hsource : source.isNull = true ∨ r.isValueType source = true ∧ source.nullable = true)
include hr htarget hplain

include hsource in
/-- What may be null gets into a place for values without null from another type only. -/
theorem Takes.ne_of_nullable (h : r.Takes target source) : source.isNull = false ∧ target.name ≠ source.name := by
  cases h with
  | null _ h => simp [htarget, hplain] at h
  | object _ h => simp [isValueType_object hr h] at htarget
  | self hnull _ h =>
    rcases hsource with hsource | ⟨-, hsource⟩
    · simp [hnull] at hsource
    · simpa [htarget, hplain] using h hsource
  | widened h => exact ⟨isNull_eq_false_of_widened h, WellKnown.ne_of_mem_widened h⟩
  | element hne _ helement => exact ⟨TypeRef.isNull_eq_false_of_element? helement, hne⟩
  | supertype hnull hne => exact ⟨hnull, hne⟩

/-- Where types derive from classes and interfaces only, values come from values of other types by widening. -/
theorem Takes.mem_widened (ho : r.Orderly) (h : r.Takes target source) (hne : target.name ≠ source.name) :
    target.name ∈ WellKnown.widened source.name := by
  cases h with
  | null _ h => simp [htarget, hplain] at h
  | object _ h => simp [isValueType_object hr h] at htarget
  | self _ h => exact absurd h hne
  | widened h => exact h
  | element _ helement => simp [ho.isValueType_of_element helement] at htarget
  | supertype _ _ _ h => simp [isValueType_of_hasKind (ho.mem_supertypes hr h hne)] at htarget

include hsource in
/-- A place for values without null never takes the null literal, and takes a nullable value of another type
whenever it takes the value itself. Where types derive from classes and interfaces only, that is whenever the value
is a number that is widened. -/
theorem isAssignable_nullable_iff :
    (r.isAssignable target source = true ↔
      source.isNull = false ∧ target.name ≠ source.name ∧
        r.isAssignable target (source.withNullable false) = true) ∧
    (r.Orderly → (r.isAssignable target source = true ↔ target.name ∈ WellKnown.widened source.name)) := by
  simp only [isAssignable_iff]
  constructor
  · constructor
    · intro h
      obtain ⟨hnull, hne⟩ := h.ne_of_nullable hr htarget hplain hsource
      exact ⟨hnull, hne, h.of_source rfl fun heq => absurd heq hne⟩
    · rintro ⟨-, hne, h⟩
      exact h.of_source rfl fun heq => absurd heq hne
  · intro ho
    constructor
    · intro h
      exact h.mem_widened hr htarget hplain ho (h.ne_of_nullable hr htarget hplain hsource).2
    · exact .widened

end Nullability

/-- A nullable number goes to a wider number without null, and to no narrower one. -/
theorem nullable_number_goes_wider :
    Registry.system.addAll [] = .ok Registry.system ∧
      Registry.system.isAssignable (.named WellKnown.int64) ⟨WellKnown.int32, true⟩ = true ∧
      ¬ Registry.system.isAssignable (.named WellKnown.int32) ⟨WellKnown.int64, true⟩ = true ∧
      ¬ Registry.system.isAssignable (.named WellKnown.int32) .null = true := by
  have hr : Registry.system.addAll [] = .ok Registry.system := rfl
  have hwider : Registry.system.isAssignable (.named WellKnown.int64) ⟨WellKnown.int32, true⟩ = true ↔
      WellKnown.int64 ∈ WellKnown.widened WellKnown.int32 :=
    (isAssignable_nullable_iff hr (by decide) rfl (Or.inr (by decide))).2 orderly_system
  have hnarrower : Registry.system.isAssignable (.named WellKnown.int32) ⟨WellKnown.int64, true⟩ = true ↔
      WellKnown.int32 ∈ WellKnown.widened WellKnown.int64 :=
    (isAssignable_nullable_iff hr (by decide) rfl (Or.inr (by decide))).2 orderly_system
  have hnull : Registry.system.isAssignable (.named WellKnown.int32) .null = true ↔
      WellKnown.int32 ∈ WellKnown.widened WellKnown.null :=
    (isAssignable_nullable_iff hr (by decide) rfl (Or.inl rfl)).2 orderly_system
  rw [hwider, hnarrower, hnull]
  exact ⟨hr, by decide, by decide, by decide⟩

namespace Measures

/-- A number of its own, and arrays that are registered as values. -/
def types : List TypeDef := [
  { name := "Metre", kind := .structType, base := some (.named WellKnown.int32) },
  { name := "Cell[]", kind := .structType },
  { name := "System.Object[]", kind := .structType }]

def registry : Registry := ⟨Registry.systemTypes ++ types⟩

end Measures

/-- A nullable value gets into a place for values without null by widening, from a base type and between arrays. -/
theorem null_is_lost :
    Registry.system.addAll Measures.types = .ok Measures.registry ∧
      [(WellKnown.int64, WellKnown.int32), (WellKnown.int32, "Metre"), ("System.Object[]", "Cell[]")].Forall
        fun (target, source) =>
          Measures.registry.isValueType (.named target) = true ∧
            Measures.registry.isValueType ⟨source, true⟩ = true ∧
            Measures.registry.isAssignable (.named target) ⟨source, true⟩ = true :=
  ⟨rfl, by decide +kernel⟩

end Registry
end DataBinding
