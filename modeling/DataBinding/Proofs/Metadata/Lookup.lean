import DataBinding.Metadata.Lookup
import DataBinding.Proofs.Membership
import DataBinding.Proofs.Reachability

/-!
# Members on their declaring types

A member that is found on a type is declared by a type of the lookup order. Looked up on the declaring type
it is found again, as long as only interfaces derive from interfaces.
-/
namespace DataBinding

/-! ## First matches -/

theorem pairwise_sortNames (names : List String) : (sortNames names).Pairwise (· ≤ ·) :=
  pairwise_sortBy_key id names

section FirstMatch

variable {β : Type} {g : String → Option β} {names inner : List String} {n : String} {b : β}

theorem findSome?_cons_self (h : g n = some b) : (n :: names).findSome? g = some b := by
  simp [h]

/-- The first match among sorted names is the first match among any of them that include it. -/
theorem findSome?_of_subset (hnames : names.Pairwise (· ≤ ·)) (hinner : inner.Pairwise (· ≤ ·))
    (hsub : inner ⊆ names) {front back : List String} (hsplit : names = front ++ n :: back)
    (hn : g n = some b) (hfront : ∀ a ∈ front, g a = none) (hmem : n ∈ inner) :
    inner.findSome? g = some b := by
  -- Whatever matches and comes no later than `n` is `n`.
  have hfirst {a : String} {b' : β} (ha : a ∈ inner) (hle : a ≤ n) (hg : g a = some b') : a = n := by
    have hmem := hsub ha
    rw [hsplit, List.mem_append, List.mem_cons] at hmem
    rcases hmem with hmem | hmem | hmem
    · simp [hfront a hmem] at hg
    · exact hmem
    · rw [hsplit, List.pairwise_append] at hnames
      exact Std.le_antisymm hle ((List.pairwise_cons.mp hnames.2.1).1 a hmem)
  cases hfind : inner.findSome? g with
  | none =>
    have hnone := List.findSome?_eq_none_iff.mp hfind n hmem
    rw [hn] at hnone
    cases hnone
  | some b' =>
    obtain ⟨before, a, behind, hinner', ha, hbefore⟩ := List.findSome?_eq_some_iff.mp hfind
    have hle : a ≤ n := by
      rw [hinner', List.mem_append, List.mem_cons] at hmem
      rcases hmem with hmem | rfl | hmem
      · simp [hbefore n hmem] at hn
      · exact Std.le_refl n
      · rw [hinner', List.pairwise_append] at hinner
        exact (List.pairwise_cons.mp hinner.2.1).1 n hmem
    obtain rfl := hfirst (by simp [hinner']) hle ha
    rw [← ha, hn]

end FirstMatch

namespace Digraph

theorem prefix_foldl {α β : Type} {f : List α → β → List α} (hf : ∀ v b, v <+: f v b) (bs : List β)
    (v : List α) : v <+: bs.foldl f v := by
  induction bs generalizing v with
  | nil => exact List.prefix_rfl
  | cons b bs ih => exact (hf v b).trans (ih _)

variable {α : Type} [BEq α] (g : Digraph α)

theorem prefix_visit (depth : Nat) (visited : List α) (a : α) : visited <+: g.visit depth visited a := by
  induction depth generalizing visited a with
  | zero =>
    unfold visit
    split
    · exact List.prefix_rfl
    · exact List.prefix_append visited [a]
  | succ depth ih =>
    unfold visit
    split
    · exact List.prefix_rfl
    · exact (List.prefix_append visited [a]).trans (prefix_foldl ih _ _)

theorem exists_preorder_eq_cons (a : α) : ∃ as, g.preorder [a] = a :: as := by
  have hsingle : [a] <+: g.preorder [a] := by
    cases hdepth : g.edges.length with
    | zero => simp [preorder, hdepth, visit]
    | succ depth => simpa [preorder, hdepth, visit] using prefix_foldl (g.prefix_visit depth) (g.next a) [a]
  obtain ⟨as, has⟩ := hsingle
  exact ⟨as, has.symm⟩

end Digraph

/-- The names of the static properties and fields that the type itself declares. -/
def TypeDef.staticNames (d : TypeDef) : List String :=
  (d.properties.filter (·.isStatic)).map (·.name) ++ (d.fields.filter (·.isStatic)).map (·.name)

theorem TypeDef.mem_staticNames {d : TypeDef} {name : String} {m : Member} (h : d.ownMember? name = some m)
    (hstatic : m.isStatic = true) : m.name ∈ d.staticNames := by
  unfold ownMember? at h
  rw [staticNames, List.mem_append]
  split at h
  · rename_i p hp
    cases h
    exact Or.inl (List.mem_map.mpr ⟨p, List.mem_filter.mpr ⟨List.mem_of_find?_eq_some hp, hstatic⟩, rfl⟩)
  · obtain ⟨f, hf, rfl⟩ := Option.map_eq_some_iff.mp h
    exact Or.inr (List.mem_map.mpr ⟨f, List.mem_filter.mpr ⟨List.mem_of_find?_eq_some hf, hstatic⟩, rfl⟩)

namespace Registry

variable {r : Registry} {t : TypeRef} {name : String} {d : TypeDef}

theorem typeDef?_eq_some (h : r.typeDef? name = some d) : d ∈ r.types ∧ d.name = name :=
  ⟨List.mem_of_find?_eq_some h, by simpa using List.find?_some h⟩

theorem lookup_map_name (types : List TypeDef) (f : TypeDef → List String) (name : String) :
    (types.map fun d => (d.name, f d)).lookup name = (types.find? (·.name == name)).map f := by
  induction types with
  | nil => rfl
  | cons d types ih =>
    rw [List.map_cons, List.lookup_cons, List.find?_cons, BEq.comm (a := name)]
    cases d.name == name with
    | true => rfl
    | false => exact ih

/-- Only interfaces derive from interfaces. -/
structure Layered (r : Registry) : Prop where
  base : ∀ d ∈ r.types, d.kind ≠ .interfaceType → ∀ b ∈ d.base, r.isInterface b = false
  object : r.isInterface .object = false

theorem mem_withObject {names : List String} : name ∈ withObject names ↔ name ∈ names ∨ name = WellKnown.object := by
  unfold withObject
  split
  · rename_i h
    have hobject : WellKnown.object ∈ names := by simpa using h
    constructor
    · exact Or.inl
    · rintro (h | rfl)
      · exact h
      · exact hobject
  · simp

theorem exists_baseChain_eq_cons (r : Registry) (t : TypeRef) : ∃ rest, r.baseChain t = t.name :: rest := by
  obtain ⟨names, hnames⟩ := r.baseGraph.exists_preorder_eq_cons t.name
  rw [baseChain, hnames, withObject]
  split
  · exact ⟨names, rfl⟩
  · exact ⟨names ++ [WellKnown.object], rfl⟩

theorem isInterface_iff : r.isInterface t = true ↔ ∃ d, r.typeDef? t.name = some d ∧ d.kind = .interfaceType := by
  simp [isInterface, hasKind, Option.any_eq_true]

/-- The base types of a type that is no interface are none either. -/
theorem Layered.baseChain (hr : r.Layered) (ht : r.isInterface t = false) (h : name ∈ r.baseChain t) :
    r.isInterface (.named name) = false := by
  rcases mem_withObject.mp h with hmem | rfl
  · obtain ⟨root, hroot, hpath⟩ := r.baseGraph.mem_preorder_iff.mp hmem
    obtain rfl := List.mem_singleton.mp hroot
    clear h hmem hroot
    induction hpath with
    | refl => exact ht
    | @tail x y _ hedge ih =>
      have hnext : y ∈ ((r.typeDef? x).map fun d => (d.base.map (·.name)).toList).getD [] := by
        rw [typeDef?, ← lookup_map_name]
        exact hedge
      cases hd : r.typeDef? x with
      | none => simp [hd] at hnext
      | some d =>
        obtain ⟨b, hb, rfl⟩ : ∃ b ∈ d.base, b.name = y := by simpa [hd] using hnext
        have hkind : d.kind ≠ .interfaceType := by
          intro hkind
          rw [isInterface_iff.mpr ⟨d, hd, hkind⟩] at ih
          cases ih
        exact hr.base d (typeDef?_eq_some hd).1 hkind b hb
  · exact hr.object

theorem self_mem_supertypes (r : Registry) (t : TypeRef) : t.name ∈ r.supertypes t := by
  rw [supertypes, sortNames, mem_sortBy, mem_withObject, Digraph.mem_preorder_iff]
  exact Or.inl ⟨t.name, by simp, Relation.ReflTransGen.refl⟩

/-- What a supertype derives from, the type derives from too. -/
theorem supertypes_subset (h : name ∈ r.supertypes t) (hobject : name ≠ WellKnown.object) :
    r.supertypes (.named name) ⊆ r.supertypes t := by
  intro other hother
  simp only [supertypes, sortNames, mem_sortBy, mem_withObject, Digraph.mem_preorder_iff, List.mem_singleton,
    exists_eq_left] at h hother ⊢
  rcases hother with hother | rfl
  · exact Or.inl ((h.resolve_right hobject).trans hother)
  · exact Or.inr rfl

/-! ## Looking up again -/

theorem findSome?_lookupDefs {β : Type} (r : Registry) (t : TypeRef) (f : TypeDef → Option β) :
    (r.lookupDefs t).findSome? f = (r.lookupOrder t).findSome? fun n => (r.typeDef? n).bind f := by
  rw [lookupDefs]
  induction r.lookupOrder t with
  | nil => rfl
  | cons n names ih => cases hd : r.typeDef? n <;> simp [List.findSome?_cons, hd, ih]

section Declaring

variable {f : TypeDef → Option Member} (hf : ∀ d m, f d = some m → m.declaringType = d.ref)
  (hr : r.Layered) (href : ∀ d ∈ r.types, d.ref = .named d.name)
include hf hr href

/-- What is found on a type is found again on the type that declares it. -/
theorem findSome?_lookupDefs_declaringType {m : Member} (h : (r.lookupDefs t).findSome? f = some m) :
    (r.lookupDefs m.declaringType).findSome? f = some m := by
  rw [findSome?_lookupDefs] at h ⊢
  obtain ⟨front, n, back, hsplit, hn, hfront⟩ := List.findSome?_eq_some_iff.mp h
  obtain ⟨d, hd, hm⟩ := Option.bind_eq_some_iff.mp hn
  have hname : m.declaringType = .named n := by
    rw [hf d m hm, href d (typeDef?_eq_some hd).1, (typeDef?_eq_some hd).2]
  have hmem : n ∈ r.lookupOrder t := by simp [hsplit]
  rw [hname]
  by_cases hinterface : r.isInterface (.named n) = true
  · have ht : r.isInterface t = true := by
      by_contra ht
      rw [lookupOrder, if_neg ht] at hmem
      rw [hr.baseChain (Bool.not_eq_true _ ▸ ht) hmem] at hinterface
      cases hinterface
    have hobject : n ≠ WellKnown.object := by
      rintro rfl
      have hnot := hr.object
      rw [TypeRef.object, hinterface] at hnot
      cases hnot
    rw [lookupOrder, if_pos ht] at hmem hsplit
    rw [lookupOrder, if_pos hinterface]
    exact findSome?_of_subset (pairwise_sortNames _) (pairwise_sortNames _) (supertypes_subset hmem hobject)
      hsplit hn hfront (r.self_mem_supertypes (.named n))
  · obtain ⟨rest, hrest⟩ := r.exists_baseChain_eq_cons (.named n)
    rw [lookupOrder, if_neg hinterface, hrest]
    exact findSome?_cons_self hn

end Declaring

theorem ownMember?_eq_some {m : Member} (h : d.ownMember? name = some m) :
    m.name = name ∧ m.declaringType = d.ref := by
  unfold TypeDef.ownMember? at h
  split at h
  · rename_i p hp
    have hname := List.find?_some hp
    simp only [Bool.and_eq_true, beq_iff_eq] at hname
    cases h
    exact ⟨hname.1, rfl⟩
  · obtain ⟨p, hp, rfl⟩ := Option.map_eq_some_iff.mp h
    have hname : p.name = name := by simpa using List.find?_some hp
    exact ⟨hname, rfl⟩

theorem mem_ownMethods {m : Member} (h : m ∈ d.ownMethods name) : m.name = name ∧ m.declaringType = d.ref := by
  obtain ⟨p, hp, rfl⟩ := List.mem_map.mp h
  exact ⟨eq_of_beq (List.mem_filter.mp hp).2, rfl⟩

theorem member?_name {m : Member} (h : r.member? t name = some m) : m.name = name := by
  unfold member? at h
  split at h
  · split at h
    · rename_i hname
      cases h
      exact hname.symm
    · cases h
  · obtain ⟨d, -, hd⟩ := List.exists_of_findSome?_eq_some h
    exact (ownMember?_eq_some hd).1

theorem method?_name {args : List TypeRef} {m : Member} (h : r.method? t name args = some m) : m.name = name := by
  obtain ⟨d, -, hd⟩ := List.mem_flatMap.mp (List.mem_of_find?_eq_some h)
  exact (mem_ownMethods hd).1

theorem mem_types_of_mem_lookupDefs (h : d ∈ r.lookupDefs t) : d ∈ r.types := by
  obtain ⟨n, -, hn⟩ := List.mem_filterMap.mp h
  exact (typeDef?_eq_some hn).1

theorem exists_declaring_of_member? {m : Member} (h : r.member? t name = some m) (hstatic : m.isStatic = true) :
    ∃ d ∈ r.lookupDefs t, d.ownMember? name = some m := by
  unfold member? at h
  split at h
  · split at h
    · cases h
      cases hstatic
    · cases h
  · exact List.exists_of_findSome?_eq_some h

theorem exists_declaring_of_method? {args : List TypeRef} {m : Member} (h : r.method? t name args = some m) :
    ∃ d ∈ r.types, m.declaringType = d.ref := by
  obtain ⟨d, hd, hm⟩ := List.mem_flatMap.mp (List.mem_of_find?_eq_some h)
  exact ⟨d, mem_types_of_mem_lookupDefs hd, (mem_ownMethods hm).2⟩

section Names

variable (hr : r.Layered) (href : ∀ d ∈ r.types, d.ref = .named d.name)
include hr href

/-- A static property or field is found again on the type that declares it. -/
theorem member?_declaringType {m : Member} (h : r.member? t name = some m) (hstatic : m.isStatic = true)
    (harray : m.declaringType.isArray = false) : r.member? m.declaringType name = some m := by
  unfold member? at h
  split at h
  · split at h
    · cases h
      cases hstatic
    · cases h
  · have h := findSome?_lookupDefs_declaringType (fun d m hm => (ownMember?_eq_some hm).2) hr href h
    rwa [member?, if_neg (by simp [harray])]

theorem method?_declaringType {args : List TypeRef} {m : Member} (h : r.method? t name args = some m) :
    r.method? m.declaringType name args = some m := by
  have hfirst (t : TypeRef) : r.method? t name args =
      (r.lookupDefs t).findSome? fun d => (d.ownMethods name).find? (r.accepts · args) := by
    rw [method?, methods, List.find?_flatMap]
  rw [hfirst] at h ⊢
  refine findSome?_lookupDefs_declaringType (fun d m hm => ?_) hr href h
  exact (mem_ownMethods (List.mem_of_find?_eq_some hm)).2

end Names

end Registry

end DataBinding
