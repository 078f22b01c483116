import DataBinding.Proofs.Binding.Value
import DataBinding.Scope

/-!
# Accepted sites

A scope is made from a list of sites all of which it accepts. Its bindings are then well formed, and so
are the bindings that it compiles, which are numbered by their positions.
-/
namespace DataBinding

/-- The scope with the bindings of all the sites, none of which may be rejected. -/
def Scope.ofSites (r : Registry) (dataType targetType : String) (options : Options)
    (sites : List Site) : Except ScopeFault Scope := do
  let s ← create r dataType targetType options
  sites.foldlM add s

theorem Scope.create_eq_ok {r : Registry} {dataType targetType : String} {options : Options} {s : Scope}
    (h : create r dataType targetType options = .ok s) :
    s.registry = r ∧ s.options = options ∧ s.bindings = [] ∧ s.fallbacks = 0 := by
  obtain ⟨_, -, h⟩ := bind_eq_ok h
  obtain ⟨_, -, h⟩ := bind_eq_ok h
  obtain ⟨_, -, h⟩ := bind_eq_ok h
  obtain ⟨_, -, h⟩ := bind_eq_ok h
  cases h
  exact ⟨rfl, rfl, rfl, rfl⟩

theorem Scope.add_eq_ok {s t : Scope} {site : Site} (h : s.add site = .ok t) :
    t.context = s.context ∧ ∃ b next, Binding.ofSite s.context site s.fallbacks = .ok (b, next) ∧
      t.bindings = s.bindings ++ [b] := by
  unfold add attempt at h
  rcases hread : Binding.read s.context site s.fallbacks with ⟨fault | b, next⟩ <;> rw [hread] at h <;> cases h
  exact ⟨rfl, b, next, Binding.ofSite_eq_ok.mpr (Binding.read_eq_ok.mp hread), rfl⟩

/-- The bindings that are added are those of sites in the context of the scope, which stays the same. -/
theorem Scope.foldlM_add_bound {s t : Scope} {sites : List Site} (h : sites.foldlM add s = .ok t) :
    t.context = s.context ∧ ∀ b ∈ t.bindings, b ∈ s.bindings ∨
      ∃ site number next, Binding.ofSite s.context site number = .ok (b, next) := by
  induction sites generalizing s with
  | nil =>
    cases h
    exact ⟨rfl, fun b hb => Or.inl hb⟩
  | cons site sites ih =>
    rw [List.foldlM_cons] at h
    obtain ⟨s', hadd, h⟩ := bind_eq_ok h
    obtain ⟨hcontext, b, next, hb, hbindings⟩ := add_eq_ok hadd
    obtain ⟨ihcontext, ih⟩ := ih h
    rw [hcontext] at ihcontext ih
    refine ⟨ihcontext, fun b' hb' => ?_⟩
    rcases ih b' hb' with hb' | hb'
    · rw [hbindings, List.mem_append, List.mem_singleton] at hb'
      rcases hb' with hb' | rfl
      · exact Or.inl hb'
      · exact Or.inr ⟨site, s.fallbacks, next, hb⟩
    · exact Or.inr hb'

section OfSites

variable {r : Registry} {dataType targetType : String} {options : Options} {sites : List Site} {s : Scope}
  (h : Scope.ofSites r dataType targetType options sites = .ok s)
include h

theorem Scope.ofSites_context : s.context.registry = r ∧ s.context.rootName = options.dataRoot := by
  obtain ⟨s₀, hcreate, h⟩ := bind_eq_ok h
  obtain ⟨hregistry, hoptions, -, -⟩ := create_eq_ok hcreate
  rw [(foldlM_add_bound h).1]
  exact ⟨hregistry, congrArg Options.dataRoot hoptions⟩

theorem Scope.ofSites_bound :
    ∀ b ∈ s.bindings, ∃ site number next, Binding.ofSite s.context site number = .ok (b, next) := by
  obtain ⟨s₀, hcreate, h⟩ := bind_eq_ok h
  obtain ⟨hcontext, hbound⟩ := foldlM_add_bound h
  rw [(create_eq_ok hcreate).2.2.1] at hbound
  rw [hcontext]
  exact fun b hb => (hbound b hb).resolve_left List.not_mem_nil

theorem Scope.ofSites_forall {P : Binding → Prop}
    (hP : ∀ c site number b next, Binding.ofSite c site number = .ok (b, next) → P b) :
    ∀ b ∈ s.bindings, P b := by
  intro b hb
  obtain ⟨site, number, next, hsite⟩ := ofSites_bound h b hb
  exact hP _ _ _ _ _ hsite

theorem Scope.ofSites_wellFormed : ∀ b ∈ s.bindings, b.WellFormed :=
  ofSites_forall h fun _ _ _ _ _ hb => Binding.ofSite_wellFormed hb

end OfSites

/-! ## A page with nodes

The witnesses below are about the sites of a page. It shows nodes that tell of changes of their text and
of two neighbours, and that give two more nodes when asked. -/

namespace NodePage

def node : TypeDef where
  name := "Node"
  interfaces := [.named WellKnown.notifyPropertyChanged]
  properties := [
    { name := "Text", type := .string }, { name := "Next", type := .named "Node" },
    { name := "Side", type := .named "Node" }]
  methods := [
    { name := "Left", returns := .named "Node" }, { name := "Right", returns := .named "Node" }]

def page : TypeDef where
  name := "Page"
  properties := [{ name := "Top", type := .named "Node" }]

def registry : Registry := ⟨Registry.systemTypes ++ [node, page]⟩

/-- Binds the text of a label, following changes of the path. -/
def site (path : String) : Site where
  text := path ++ ", Mode=OneWay"
  object := ⟨"label", .named "UI.Label"⟩
  member := "Text"
  memberType := .string

def scope (paths : List String) : Except ScopeFault Scope :=
  Scope.ofSites registry "Page" "Page" {} (paths.map site)

theorem exists_scope (paths : List String) (P : Scope → Bool)
    (h : (scope paths).toOption.any P = true) : ∃ s, scope paths = .ok s ∧ P s = true :=
  exists_ok h

end NodePage

namespace Compiled

variable {r : Registry} {dependencyType : Option TypeRef} {bs : List Binding}

/-- Numbering changes neither site, mode nor value. -/
theorem getElem?_numbered {i : Nat} {b : Binding} (h : (numbered r dependencyType bs)[i]? = some b) :
    b.index = i ∧ ∃ b₀, bs[i]? = some b₀ ∧ b.mode = b₀.mode ∧ b.value = b₀.value := by
  unfold numbered at h
  rw [List.getElem?_map, List.getElem?_zipIdx] at h
  cases hb : bs[i]? with
  | none => simp [hb] at h
  | some b₀ =>
    simp only [hb, Option.map_some, Option.some.injEq, Nat.zero_add] at h
    subst h
    exact ⟨rfl, b₀, rfl, rfl, rfl⟩

theorem numbered_wellFormed (hbs : ∀ b ∈ bs, b.WellFormed) :
    ∀ b ∈ numbered r dependencyType bs, b.WellFormed := by
  intro b hb
  obtain ⟨i, hi⟩ := List.mem_iff_getElem?.mp hb
  obtain ⟨-, b₀, hb₀, hmode, hvalue⟩ := getElem?_numbered hi
  have hwf := hbs b₀ (List.mem_of_getElem? hb₀)
  exact ⟨by rw [hmode, hvalue]; exact hwf.value_isSome, by rw [hvalue]; exact hwf.access_plain⟩

end Compiled
end DataBinding
