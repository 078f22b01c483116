import DataBinding.Proofs.Observation.Growth
import DataBinding.Scope.Compiled

/-!
# Execution of compiled methods

A method assigns bindings, subscribes to sources and calls other methods, which do the same in turn. Each
method is responsible for the bindings that it reads and for the sources that it renews; its caller
leaves them to it.
-/
namespace DataBinding

/-- A method of compiled bindings: the root method, that of a source, or that of a property. -/
inductive MethodRef where
  | root
  | source (index : Nat)
  | property (source position : Nat)
  deriving DecidableEq, Repr

def UpdateMethod.calls (m : UpdateMethod) : List MethodRef :=
  (m.sourceCalls.map (·.source)).map .source ++
    (m.propertyCalls.map fun v => (v.source, v.property)).map fun (i, j) => .property i j

namespace Compiled

variable (c : Compiled)

def method? : MethodRef → Option UpdateMethod
  | .root => some c.root
  | .source i => c.sources[i]?.bind (·.method)
  | .property i j => (c.sources[i]?.bind (·.properties[j]?)).map (·.method)

/-! ## What a run does -/

def calls (z : MethodRef) : List MethodRef := (c.method? z).elim [] (·.calls)

def assigns (z : MethodRef) : List Nat :=
  (c.method? z).elim [] fun m => m.assignments.map (·.binding)

/-- The sources that a method subscribes to, alone or along with the call of their methods. -/
def subscribes (z : MethodRef) : List Nat :=
  (c.method? z).elim [] fun m => m.sourceCalls.map (·.source) ++ m.subscriptions.map (·.source)

def Calls (z y : MethodRef) : Prop := y ∈ c.calls z

/-- A method runs itself, the methods that it calls, and all that these run. -/
def Runs : MethodRef → MethodRef → Prop := Relation.ReflTransGen c.Calls

def Writes (z : MethodRef) (b : Nat) : Prop := ∃ y, c.Runs z y ∧ b ∈ c.assigns y

def Subscribes (z : MethodRef) (g : Nat) : Prop := ∃ y, c.Runs z y ∧ g ∈ c.subscribes y

/-! ## What a method is responsible for -/

def observed : List Source := c.sources.map (·.toSource)

/-- The bindings that a caller leaves to a method. The root method has all that take a value from their
source and do not handle an event. -/
def reads : MethodRef → List Nat
  | .root => rootBindings c.bindings
  | .source i => c.observed[i]?.elim [] (·.bindings)
  | .property i j => (Source.property? c.observed i j).elim [] (·.bindings)

/-- The sources whose bindings the method of a property leaves to their own methods. -/
def nestedIn : MethodRef → List Source
  | .property i j => (Source.property? c.observed i j).elim [] (Source.nested c.observed i)
  | _ => []

/-- The sources that a caller leaves to a method. -/
def renews : MethodRef → List Nat
  | .root => c.observed.map (·.index)
  | .source i => Source.tree c.observed [i]
  | .property i j => (Source.property? c.observed i j).elim [] fun p =>
      Source.tree c.observed p.dependents

/-- The sources that a method can subscribe to itself. -/
def available : MethodRef → List Nat
  | .root => c.observed.map (·.index)
  | .source _ => []
  | .property i j => (Source.property? c.observed i j).elim [] (·.dependents)

/-- What methods make of their responsibilities. -/
structure Lawful : Prop where
  method_isSome : ∀ z y, c.Calls z y → (c.method? y).isSome
  /-- A method assigns what it reads, except for what nested sources or called methods read. -/
  mem_assigns : ∀ z, (c.method? z).isSome → ∀ b, b ∈ c.assigns z ↔
    b ∈ c.reads z ∧ (∀ g ∈ c.nestedIn z, b ∉ g.bindings) ∧ ∀ y, c.Calls z y → b ∉ c.reads y
  /-- A method subscribes to the sources whose methods it calls and to those that no called method
  renews. -/
  mem_subscribes : ∀ z, (c.method? z).isSome → ∀ g, g ∈ c.subscribes z ↔
    g ∈ c.available z ∧ (c.Calls z (.source g) ∨ ∀ y, c.Calls z y → g ∉ c.renews y)
  /-- No method calls itself, directly or through others. -/
  ranked : ∃ rank : MethodRef → Nat, ∀ z y, c.Calls z y → rank y < rank z

/-- The methods call only each other. -/
def Closed (zs : List MethodRef) : Prop := ∀ z ∈ zs, ∀ y ∈ c.calls z, y ∈ zs

instance (zs : List MethodRef) : Decidable (c.Closed zs) :=
  inferInstanceAs (Decidable (∀ z ∈ zs, ∀ y ∈ c.calls z, y ∈ zs))

variable {c}

section Closed

variable {zs : List MethodRef} (hzs : c.Closed zs) {z : MethodRef} (hz : z ∈ zs)
include hzs hz

theorem Closed.mem_of_runs {y : MethodRef} (h : c.Runs z y) : y ∈ zs := by
  induction h with
  | refl => exact hz
  | tail _ hcall ih => exact hzs _ ih _ hcall

theorem Closed.not_writes {b : Nat} (hb : ∀ y ∈ zs, b ∉ c.assigns y) : ¬ c.Writes z b := by
  rintro ⟨y, hy, hby⟩
  exact hb y (hzs.mem_of_runs hz hy) hby

theorem Closed.not_subscribes {g : Nat} (hg : ∀ y ∈ zs, g ∉ c.subscribes y) : ¬ c.Subscribes z g := by
  rintro ⟨y, hy, hgy⟩
  exact hg y (hzs.mem_of_runs hz hy) hgy

end Closed

theorem Writes.of_runs {z y : MethodRef} {b : Nat} (hzy : c.Runs z y) (h : c.Writes y b) :
    c.Writes z b := by
  obtain ⟨x, hyx, hb⟩ := h
  exact ⟨x, hzy.trans hyx, hb⟩

namespace Lawful

variable (hc : c.Lawful)
include hc

theorem method_isSome_of_runs {z y : MethodRef} (hz : (c.method? z).isSome) (h : c.Runs z y) :
    (c.method? y).isSome := by
  induction h with
  | refl => exact hz
  | tail _ hcall _ => exact hc.method_isSome _ _ hcall

/-- Induction from the called methods to their callers. -/
theorem induction_on_calls {motive : MethodRef → Prop} (z : MethodRef)
    (step : ∀ z, (∀ y, Relation.TransGen c.Calls z y → motive y) → motive z) : motive z := by
  obtain ⟨rank, hrank⟩ := hc.ranked
  have htrans : ∀ z y, Relation.TransGen c.Calls z y → rank y < rank z := by
    intro z y h
    induction h with
    | single hcall => exact hrank _ _ hcall
    | tail _ hcall ih => exact Nat.lt_trans (hrank _ _ hcall) ih
  induction hn : rank z using Nat.strongRecOn generalizing z with
  | ind n ih =>
    apply step
    intro y hy
    exact ih (rank y) (hn ▸ htrans z y hy) y rfl

end Lawful
end Compiled
end DataBinding
