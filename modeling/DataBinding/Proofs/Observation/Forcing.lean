import DataBinding.Observation.Notification
import DataBinding.Proofs.Binding.Value

/-!
# Forced observation

An access that is marked as forced is observed where the types alone would not have it so, and what always tells of
changes without the marker does so with it. One kind of access is lost: a member that an attribute declares read-only
may tell of changes, but once it is forced a dependency object without a backing member for it is taken to be silent.
-/
namespace DataBinding

/-- The same access with another marker; what is no access stays as it is. -/
def Form.withMarker (marker : Option Marker) : Form → Form
  | .member m _ nullSafe => .member m marker nullSafe
  | .element m _ => .element m marker
  | form => form

namespace Expr

/-- The same access, observed whatever the types say. -/
def forced (e : Expr) : Expr := { e with form := e.form.withMarker (some .forced) }

theorem access?_forced {e owner : Expr} {m : Member} {marker : Option Marker}
    (h : e.access? = some (owner, m, marker)) : e.forced.access? = some (owner, m, some .forced) := by
  obtain ⟨form, type, operands⟩ := e
  unfold access? at h
  split at h <;> cases h
  · next hform hoperands => cases hform; cases hoperands; rfl
  · next hform hoperands => cases hform; cases hoperands; rfl

@[simp] theorem isElementAccess_forced (e : Expr) : e.forced.isElementAccess = e.isElementAccess := by
  obtain ⟨form, type, operands⟩ := e
  cases form <;> rfl

end Expr

namespace Notification

variable {r : Registry} {dependencyType : Option TypeRef} {e owner : Expr} {m : Member}

/-- The owner is a dependency object only, and has no backing member for the property. -/
def Unbacked (r : Registry) (dependencyType : Option TypeRef) (owner : TypeRef) (name : String) : Prop :=
  isDependencyObject r dependencyType owner = true ∧ implementsInterface r owner = false ∧
    hasBackingMember r owner name = false

theorem ofExpr?_of_silent {marker : Option Marker} (h : e.access? = some (owner, m, marker))
    (hsilent : isSilent r dependencyType owner.type = true) : ofExpr? r dependencyType e = some .never := by
  simp [ofExpr?, h, hsilent]

theorem ofExpr?_of_element {marker : Option Marker} (h : e.access? = some (owner, m, marker))
    (hmarker : marker ≠ some .suppressed) (hsilent : isSilent r dependencyType owner.type = false)
    (helement : e.isElementAccess = true) : ofExpr? r dependencyType e = some (ofElement r owner.type marker) := by
  simp [ofExpr?, h, hmarker, hsilent, helement]

theorem ofExpr?_of_member {marker : Option Marker} (h : e.access? = some (owner, m, marker))
    (hmarker : marker ≠ some .suppressed) (hsilent : isSilent r dependencyType owner.type = false)
    (helement : e.isElementAccess = false) :
    ofExpr? r dependencyType e = some (ofMember r dependencyType owner.type m marker) := by
  simp [ofExpr?, h, hmarker, hsilent, helement]

theorem Unbacked.isSilent_eq {owner : TypeRef} {name : String} (h : Unbacked r dependencyType owner name) :
    isSilent r dependencyType owner = owner.isArray := by
  simp [isSilent, h.1]

/-- A forced member tells of changes through its owner alone, whatever is declared about the member. -/
theorem ofMember_forced (owner : TypeRef) (m : Member) (hstatic : m.isStatic = false) :
    ofMember r dependencyType owner m (some .forced) =
      if isDependencyObject r dependencyType owner || implementsInterface r owner
      then ofObservable r owner m else .possible := by
  simp [ofMember, hstatic]

/-- Without a marker, a member that is not silent is declared read-only or tells of changes as a forced one does. -/
theorem ofMember_unmarked {owner : TypeRef} (h : ofMember r dependencyType owner m none ≠ .never) :
    m.isStatic = false ∧
      (m.readOnlyAttribute? = some true ∧ ofMember r dependencyType owner m none = throughInterface r owner ∨
        ofMember r dependencyType owner m (some .forced) = ofMember r dependencyType owner m none) := by
  have hstatic : m.isStatic = false :=
    Bool.eq_false_iff.mpr fun hstatic => h (by simp [ofMember, hstatic])
  refine ⟨hstatic, ?_⟩
  by_cases hdeclared : m.readOnlyAttribute? = some true
  · exact .inl ⟨hdeclared, by simp [ofMember, hstatic, hdeclared]⟩
  · right
    rw [ofMember_forced owner m hstatic]
    simp only [ofMember, hstatic, hdeclared] at h ⊢
    grind

theorem ofMember_forced_of_always {owner : TypeRef} (h : ofMember r dependencyType owner m none = .always) :
    ofMember r dependencyType owner m (some .forced) = .always := by
  obtain ⟨hstatic, ⟨-, hthrough⟩ | hsame⟩ := ofMember_unmarked (by rw [h]; simp)
  · have hinterface : implementsInterface r owner = true := by
      simpa [throughInterface] using hthrough.symm.trans h
    simp [ofMember_forced owner m hstatic, ofObservable, hinterface]
  · rw [hsame, h]

/-- An observable owner is silent on a forced member only if it has no backing member for it. -/
theorem ofMember_forced_eq_never {owner : TypeRef} (hstatic : m.isStatic = false) :
    ofMember r dependencyType owner m (some .forced) = .never ↔ Unbacked r dependencyType owner m.name := by
  rw [ofMember_forced owner m hstatic, Unbacked]
  cases hinterface : implementsInterface r owner <;> simp [ofObservable, hinterface]
  grind

theorem ofMember_lost_iff {owner : TypeRef} :
    ofMember r dependencyType owner m none ≠ .never ∧ ofMember r dependencyType owner m (some .forced) = .never ↔
      m.isStatic = false ∧ m.readOnlyAttribute? = some true ∧ Unbacked r dependencyType owner m.name := by
  constructor
  · rintro ⟨hunmarked, hforced⟩
    obtain ⟨hstatic, ⟨hdeclared, -⟩ | hsame⟩ := ofMember_unmarked hunmarked
    · exact ⟨hstatic, hdeclared, (ofMember_forced_eq_never hstatic).mp hforced⟩
    · exact absurd (hsame ▸ hforced) hunmarked
  · rintro ⟨hstatic, hdeclared, hunbacked⟩
    refine ⟨?_, (ofMember_forced_eq_never hstatic).mpr hunbacked⟩
    simp [ofMember, hstatic, hdeclared, throughInterface, hunbacked.2.1]

/-- What always tells of changes does so if it is forced. Forcing an access silences it only if it is to a member that
is declared read-only, of a dependency object without a backing member for it. -/
theorem forcing_silences_iff (h : e.access? = some (owner, m, none)) :
    (ofExpr? r dependencyType e = some .always → ofExpr? r dependencyType e.forced = some .always) ∧
    (ofExpr? r dependencyType e ≠ some .never ∧ ofExpr? r dependencyType e.forced = some .never ↔
      e.isElementAccess = false ∧ owner.type.isArray = false ∧ m.isStatic = false ∧
        m.readOnlyAttribute? = some true ∧ Unbacked r dependencyType owner.type m.name) := by
  have hforced := Expr.access?_forced h
  by_cases hsilent : isSilent r dependencyType owner.type = true
  · -- No value of the owner's type ever tells of changes, so its type is an array or it is no dependency object.
    rw [ofExpr?_of_silent h hsilent]
    refine ⟨by simp, by simp, ?_⟩
    rintro ⟨-, harray, -, -, hunbacked⟩
    rw [hunbacked.isSilent_eq, harray] at hsilent
    cases hsilent
  rw [Bool.not_eq_true] at hsilent
  cases helement : e.isElementAccess with
  | true =>
    rw [ofExpr?_of_element h (by simp) hsilent helement,
      ofExpr?_of_element hforced (by simp) hsilent (by simpa using helement)]
    simp [ofElement]
  | false =>
    rw [ofExpr?_of_member h (by simp) hsilent helement,
      ofExpr?_of_member hforced (by simp) hsilent (by simpa using helement)]
    simp only [Option.some.injEq, ne_eq, true_and]
    refine ⟨ofMember_forced_of_always, ofMember_lost_iff.trans ⟨fun hlost => ⟨?_, hlost⟩, fun hlost => hlost.2⟩⟩
    rw [← hlost.2.2.isSilent_eq, hsilent]

/-! ## Knobs -/

/-- A page with a knob. There is a backing member for the level of knobs, and none for their range, which is declared
to be read-only. -/
def knobRegistry : Registry where
  types := Registry.systemTypes ++ [
    { name := "Node" },
    { name := "Knob"
      base := some (.named "Node")
      properties := [
        { name := "Level", type := .named WellKnown.int32 },
        { name := "Range", type := .named WellKnown.int32
          attributes := [{ typeName := WellKnown.readOnlyAttribute, args := [.bool true] }] }]
      fields := [{ name := "LevelProperty", type := .object, isStatic := true }] },
    { name := "Page", properties := [{ name := "Knob", type := .named "Knob" }] }]

def knobSetting : Grammar.Setting := ⟨knobRegistry, Grammar.rootExpr (.named "Page") "dataRoot" false, none, []⟩

def ofKnobs? : Expr → Option Notification := ofExpr? knobRegistry (some (.named "Node"))

theorem knob_level_forced : ∃ p owner m, Grammar.parseText knobSetting "Knob.Level" true = .ok p ∧
    p.expr.access? = some (owner, m, none) ∧ ofKnobs? p.expr = some .always ∧
      ofKnobs? p.expr.forced = some .always := by
  obtain ⟨p, hp, hlevel⟩ := exists_ok (x := Grammar.parseText knobSetting "Knob.Level" true)
    (P := fun p => p.expr.access?.any (·.2.2 == none) && ofKnobs? p.expr == some .always) (by decide +kernel)
  simp only [Bool.and_eq_true, Option.any_eq_true, beq_iff_eq] at hlevel
  obtain ⟨⟨⟨owner, m, marker⟩, haccess, rfl⟩, halways⟩ := hlevel
  exact ⟨p, owner, m, hp, haccess, halways, (forcing_silences_iff haccess).1 halways⟩

/-- The range may tell of changes; it does not if it is forced. -/
theorem knob_range_silenced : ∃ p p', Grammar.parseText knobSetting "Knob.Range" true = .ok p ∧
    Grammar.parseText knobSetting "Knob\\Range" true = .ok p' ∧ ofKnobs? p.expr = some .possible ∧
      ofKnobs? p'.expr = some .never := by
  obtain ⟨p, hp, hrange⟩ := exists_ok (x := Grammar.parseText knobSetting "Knob.Range" true)
    (P := fun p => ofKnobs? p.expr == some .possible) (by decide +kernel)
  obtain ⟨p', hp', hrange'⟩ := exists_ok (x := Grammar.parseText knobSetting "Knob\\Range" true)
    (P := fun p => ofKnobs? p.expr == some .never) (by decide +kernel)
  exact ⟨p, p', hp, hp', eq_of_beq hrange, eq_of_beq hrange'⟩

-- Elements are never lost: only a forced one is observed at all.
example : ([none, some .forced, some .suppressed].map (ofElement .system .object)) = [.never, .possible, .never] := by
  decide +kernel

end Notification
end DataBinding
