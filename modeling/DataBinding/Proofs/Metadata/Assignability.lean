import DataBinding.Metadata.Hierarchy
import Mathlib.Data.List.Basic

/-!
# Assignable types

A type is assignable to itself, and what can be assigned to a type can be assigned to its nullable form.
The exception is the type of the null literal: nothing of it can be assigned to a value type, not even to
one that is registered under its name.
-/
namespace DataBinding.Registry

variable {r : Registry} {target source : TypeRef}

theorem isValueType_congr {t t' : TypeRef} (h : t.name = t'.name) : r.isValueType t = r.isValueType t' := by
  rw [isValueType, isValueType, hasKind, hasKind, h]

theorem isAssignable_of_isNull (hsource : source.isNull) (h : r.isValueType target = false ∨ target.nullable) :
    r.isAssignable target source := by
  unfold isAssignable assignableWithin
  rw [if_pos hsource]
  rcases h with h | h <;> simp [h]

/-- A type accepts itself, and its nullable form accepts it too. -/
theorem isAssignable_of_name_eq (hnull : r.isValueType .null = false) (hname : target.name = source.name)
    (hnullable : source.nullable = true → target.nullable = true) : r.isAssignable target source := by
  by_cases hsource : source.isNull
  · have hvalue : r.isValueType target = r.isValueType .null :=
      isValueType_congr (hname.trans (eq_of_beq hsource))
    exact isAssignable_of_isNull hsource (Or.inl (hvalue.trans hnull))
  · have his : target.is source.name = true := by simp [TypeRef.is, hname]
    unfold isAssignable assignableWithin
    rw [if_neg hsource]
    by_cases hobject : target.is WellKnown.object
    · exact if_pos hobject
    · rw [if_neg hobject, if_pos his]
      cases hs : source.nullable with
      | false => rfl
      | true => simp [hnullable hs]

/-- The nullable form of a type accepts what the type accepts. -/
theorem isAssignable_of_withNullable (nullable : Bool)
    (h : r.isAssignable (target.withNullable false) source) :
    r.isAssignable (target.withNullable nullable) source := by
  cases nullable with
  | false => exact h
  | true =>
    unfold isAssignable assignableWithin at h ⊢
    by_cases hsource : source.isNull
    · simp [if_pos hsource, TypeRef.withNullable]
    · rw [if_neg hsource] at h ⊢
      by_cases hobject : target.is WellKnown.object
      · exact if_pos hobject
      · have hobject' : ∀ b, ¬ (target.withNullable b).is WellKnown.object := fun _ => hobject
        rw [if_neg (hobject' _)] at h ⊢
        by_cases hname : target.is source.name
        · have hname' : (target.withNullable true).is source.name := hname
          rw [if_pos hname']
          simp [TypeRef.withNullable]
        · have hname' : ∀ b, ¬ (target.withNullable b).is source.name := fun _ => hname
          rw [if_neg (hname' _)] at h ⊢
          exact h

end DataBinding.Registry
