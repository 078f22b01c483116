import DataBinding.Proofs.Scope.Acceptance

/-!
# Attempts

While a scope is made, any of its sites may be rejected. Such an attempt leaves no trace: the scope is that of
the accepted sites alone, and the fallbacks in it are numbered without gaps in the order of its bindings.
-/
namespace DataBinding

/-! ## Numbers of fallbacks -/

def Form.fallbackNumber? : Form → Option Nat
  | .fallback index => some index
  | _ => none

def Expr.fallbackNumbers (e : Expr) : List Nat := e.nodes.filterMap (·.form.fallbackNumber?)

@[simp] theorem Expr.fallbackNumbers_eq (form : Form) (type : TypeRef) (operands : List Expr) :
    fallbackNumbers ⟨form, type, operands⟩ =
      form.fallbackNumber?.toList ++ operands.flatMap fallbackNumbers := by
  have hnodes : (nodesAll operands).filterMap (·.form.fallbackNumber?) = operands.flatMap fallbackNumbers := by
    rw [nodesAll_eq_flatMap, List.filterMap_flatMap]
    rfl
  rw [fallbackNumbers, nodes, List.filterMap_cons, hnodes]
  cases form.fallbackNumber? <;> rfl

/-- Declarations have no way to write a fallback. -/
theorem Grammar.Reading.fallbackNumber? {s : Setting} {e : Expr} (hroot : s.root.form.fallbackNumber? = none)
    (h : Reading s e) : e.form.fallbackNumber? = none := by
  cases h with
  | root => exact hroot
  | _ => rfl

theorem Argument.reads_unnumbered (s : Setting) : s.Reads (·.fallbackNumbers = []) where
  parsed {text parsed} h := by
    have hread := Grammar.parseBytes_reading (s := s.grammar) (show _ = false from rfl) h
    apply List.filterMap_eq_nil_iff.mpr
    intro n hn
    apply (hread.of_mem_nodes (show _ = [] from rfl) hn).fallbackNumber?
    rfl
  resource _ _ := rfl

/-! ## Declarations -/

namespace Declaration

variable {c : Context} {site : Site} {as : List Argument} {number next : Nat}

theorem Composed.unnumbered {e : Expr} (h : Composed c site (·.fallbackNumbers = []) e) :
    e.fallbackNumbers = [] := by
  induction h with
  | given h => exact h
  | null | targetType => rfl
  | convert hconverter _ _ ihargs =>
    simpa [Expr.call, Form.fallbackNumber?, hconverter, List.flatMap_eq_nil_iff] using ihargs
  | cast _ ih => simp [Expr.cast, Form.fallbackNumber?, ih]
  | coalesce _ hvalue ih => simp [Expr.coalesce, Form.fallbackNumber?, ih, hvalue]

theorem fallbackNumbers_formatted (e : Expr) : (formatted as e).fallbackNumbers = e.fallbackNumbers := by
  rcases formatted_cases as e with heq | ⟨format, heq⟩ <;> rw [heq]
  simp [Expr.interpolated, Form.fallbackNumber?]

/-- The value takes up the numbers where the counter stands. -/
theorem range_value (has : ∀ a ∈ as, a.Holds (·.fallbackNumbers = [])) {v : Option Expr}
    (h : (value c site as).run.run number = (.ok v, next)) :
    List.range number ++ v.toList.flatMap Expr.fallbackNumbers = List.range next := by
  cases v with
  | none =>
    unfold value at h
    split at h
    · cases h
      simp
    · obtain ⟨e, -, h⟩ := run_lift_bind_eq_ok.mp h
      cases h
  | some v =>
    obtain ⟨e, he, rfl, rfl⟩ := value_composed (fun _ _ _ => expr?_holds has) h
    rw [Option.toList_some, List.flatMap_singleton, fallbackNumbers_formatted]
    rcases withFallback_cases c as number e with heq | ⟨value, hvalue, heq⟩ <;> rw [heq]
    · simp [he.unnumbered]
    · simp [Expr.fallback, Form.fallbackNumber?, he.unnumbered, expr?_holds has hvalue, List.range_succ]

/-- A fault leaves the counter as it is. -/
def Keeps {α : Type} (m : NumberM α) : Prop :=
  ∀ number fault next, m.run.run number = (.error fault, next) → next = number

theorem Keeps.lift_bind {α β : Type} (x : Except Fault α) {f : α → NumberM β} (hf : ∀ a, Keeps (f a)) :
    Keeps ((liftM x : NumberM α) >>= f) := by
  intro number fault next h
  rw [run_lift_bind] at h
  cases x with
  | error fault' =>
    cases h
    rfl
  | ok a => exact hf a number fault next h

theorem Keeps.map {α β : Type} {m : NumberM α} (hm : Keeps m) (f : α → β) :
    Keeps (m >>= fun a => pure (f a)) := by
  intro number fault next h
  rw [Grammar.run_bind] at h
  rcases hrun : m.run.run number with ⟨fault' | a, next'⟩ <;> rw [hrun] at h <;> cases h
  exact hm number fault next hrun

/-- Nothing fails once the number of the fallback is taken. -/
theorem keeps_value : Keeps (value c site as) := by
  unfold value
  split
  · exact nofun
  · exact .lift_bind _ fun e => nofun

theorem keeps_binding {t : List Char} : Keeps (binding c site t) := by
  unfold binding
  split
  · rintro number fault next h
    cases h
    rfl
  · apply Keeps.lift_bind
    rintro ⟨dataType, dataTypeSet, sourceType⟩
    apply Keeps.lift_bind
    intro as
    apply Keeps.lift_bind
    intro mode
    apply Keeps.lift_bind
    intro _
    apply Keeps.lift_bind
    intro _
    exact keeps_value.map _

end Declaration

namespace Binding

variable {c : Context} {site : Site} {number next : Nat}

def fallbackNumbers (b : Binding) : List Nat := b.value.toList.flatMap Expr.fallbackNumbers

theorem read_eq_error {fault : Fault} (h : read c site number = (.error fault, next)) : next = number := by
  unfold read at h
  dsimp only at h
  rcases hrun : (Declaration.binding c site (Text.trimEnd site.text.toList)).run.run number with ⟨fault' | b, k⟩ <;>
    rw [hrun] at h <;> cases h
  exact Declaration.keeps_binding number fault' next hrun

theorem range_read {b : Binding} (h : read c site number = (.ok b, next)) :
    List.range number ++ b.fallbackNumbers = List.range next := by
  obtain ⟨-, found, as, mode, value, -, has, -, -, -, hvalue, rfl⟩ :=
    Declaration.binding_eq_ok.mp (read_eq_ok.mp h)
  exact Declaration.range_value (Argument.readAll_holds (Argument.reads_unnumbered _) has) hvalue

end Binding

/-! ## Scopes -/

namespace Scope

/-- Adds the bindings of the sites one after the other, going on behind those that are rejected. -/
def attemptAll (s : Scope) (sites : List Site) : Scope := sites.foldl (fun s site => (s.attempt site).2) s

/-- The sites that are not rejected when all are added one after the other. -/
def accepted (s : Scope) : List Site → List Site
  | [] => []
  | site :: sites =>
    match s.attempt site with
    | (.ok _, s) => site :: s.accepted sites
    | (.error _, s) => s.accepted sites

def fallbackNumbers (s : Scope) : List Nat := s.bindings.flatMap Binding.fallbackNumbers

/-- An attempt adds the site, or is rejected and changes nothing. -/
theorem attempt_cases (s : Scope) (site : Site) :
    (∃ b next, Binding.read s.context site s.fallbacks = (.ok b, next) ∧ s.attempt site = (.ok b, { s with
      bindings := s.bindings ++ [b]
      fallbacks := next
      namespaces := sortNames (addAllDistinct s.namespaces (b.namespaces.map (·.name))) })) ∨
    ∃ fault, s.attempt site = (.error fault, s) := by
  unfold attempt
  rcases hread : Binding.read s.context site s.fallbacks with ⟨fault | b, next⟩
  · rw [Binding.read_eq_error hread]
    exact Or.inr ⟨_, rfl⟩
  · exact Or.inl ⟨b, next, rfl, rfl⟩

theorem foldlM_accepted (s : Scope) (sites : List Site) :
    (s.accepted sites).foldlM add s = .ok (s.attemptAll sites) := by
  induction sites generalizing s with
  | nil => rfl
  | cons site sites ih =>
    rw [accepted, attemptAll, List.foldl_cons]
    rcases attempt_cases s site with ⟨b, next, -, hattempt⟩ | ⟨fault, hattempt⟩
    · rw [hattempt]
      dsimp only
      rw [List.foldlM_cons, add, hattempt]
      exact ih _
    · rw [hattempt]
      exact ih s

theorem fallbackNumbers_attempt {s : Scope} (h : s.fallbackNumbers = List.range s.fallbacks) (site : Site) :
    (s.attempt site).2.fallbackNumbers = List.range (s.attempt site).2.fallbacks := by
  rcases attempt_cases s site with ⟨b, next, hread, hattempt⟩ | ⟨fault, hattempt⟩
  · rw [hattempt, ← Binding.range_read hread, ← h]
    simp [fallbackNumbers]
  · rw [hattempt]
    exact h

theorem fallbackNumbers_attemptAll {s : Scope} (h : s.fallbackNumbers = List.range s.fallbacks)
    (sites : List Site) : (s.attemptAll sites).fallbackNumbers = List.range (s.attemptAll sites).fallbacks := by
  induction sites generalizing s with
  | nil => exact h
  | cons site sites ih => exact ih (fallbackNumbers_attempt h site)

/-- Rejected sites leave no trace. A scope to which sites have been added, whether or not all were accepted, is
the scope of the accepted ones, and its fallbacks have the numbers below their count, in order. -/
theorem attemptAll_traceless {r : Registry} {dataType targetType : String} {options : Options} {s : Scope}
    (h : create r dataType targetType options = .ok s) (sites : List Site) :
    ofSites r dataType targetType options (s.accepted sites) = .ok (s.attemptAll sites) ∧
      (s.attemptAll sites).fallbackNumbers = List.range (s.attemptAll sites).fallbacks := by
  constructor
  · rw [ofSites, h]
    exact foldlM_accepted s sites
  · apply fallbackNumbers_attemptAll
    obtain ⟨-, -, hbindings, hfallbacks⟩ := create_eq_ok h
    rw [fallbackNumbers, hbindings, hfallbacks]
    rfl

/-- Labels with fallbacks. Nodes have neither the property of the second nor the method to convert that the third
needs. -/
def mixedSites : List Site :=
  ["Top.Text, FallbackValue='none'", "Top.Missing, FallbackValue='none'",
    "Top.Text, Converter=Top, FallbackValue='none'", "Top.Next.Text + '!', FallbackValue='last'"].map NodePage.site

theorem mixed_traceless : ∃ s,
    create NodePage.registry "Page" "Page" {} = .ok s ∧
    (s.accepted mixedSites).map (·.text) =
      ["Top.Text, FallbackValue='none', Mode=OneWay", "Top.Next.Text + '!', FallbackValue='last', Mode=OneWay"] ∧
    ofSites NodePage.registry "Page" "Page" {} (s.accepted mixedSites) = .ok (s.attemptAll mixedSites) ∧
    (s.attemptAll mixedSites).fallbacks = 2 ∧ (s.attemptAll mixedSites).fallbackNumbers = [0, 1] := by
  obtain ⟨s, hs, haccepted, hfallbacks⟩ := exists_ok_of_decide (x := create NodePage.registry "Page" "Page" {})
    (P := fun s => (s.accepted mixedSites).map (·.text) =
      ["Top.Text, FallbackValue='none', Mode=OneWay", "Top.Next.Text + '!', FallbackValue='last', Mode=OneWay"] ∧
      (s.attemptAll mixedSites).fallbacks = 2) (by decide +kernel)
  obtain ⟨hsites, hnumbers⟩ := attemptAll_traceless hs mixedSites
  rw [hfallbacks] at hnumbers
  exact ⟨s, hs, haccepted, hsites, hfallbacks, hnumbers⟩

end Scope

end DataBinding
