import DataBinding.Expr.Basic
import DataBinding.Metadata.Lookup

/-!
# Notification of changes

The types decide whether an access to a member or element tells of changes of its value, unless the
access is marked. An owner tells of changes through the interface for property changes, or, as a
dependency object, of those properties that have a backing member.
-/
namespace DataBinding

/-- What is known of an access before the program runs. -/
inductive Notification where
  | always
  /-- The owner may tell of changes; it has to be asked at run time. -/
  | possible
  | never
  deriving DecidableEq, Repr

namespace Notification

variable (r : Registry) (dependencyType : Option TypeRef)

def implementsInterface (owner : TypeRef) : Bool :=
  r.isAssignable (.named WellKnown.notifyPropertyChanged) owner

def isDependencyObject (owner : TypeRef) : Bool :=
  dependencyType.any fun t => r.isAssignable t owner

def hasBackingMember (owner : TypeRef) (name : String) : Bool :=
  (r.member? owner (name ++ "Property")).isSome

def throughInterface (owner : TypeRef) : Notification :=
  if implementsInterface r owner then .always else .possible

/-- An owner that does not implement the interface tells of properties with a backing member only. -/
def ofObservable (owner : TypeRef) (m : Member) : Notification :=
  if implementsInterface r owner || hasBackingMember r owner m.name then .always else .never

def ofMember (owner : TypeRef) (m : Member) (marker : Option Marker) : Notification :=
  let observable := isDependencyObject r dependencyType owner || implementsInterface r owner
  if m.isStatic then .never
  else if marker.isSome then if observable then ofObservable r owner m else .possible
  else if m.readOnlyAttribute? = some true then throughInterface r owner
  else if m.readOnlyAttribute? = none && m.isProperty && m.isReadOnly then .never
  else if m.isProperty && observable then ofObservable r owner m
  else .never

/-- Access to an element; only a forced one is observed. -/
def ofElement (owner : TypeRef) (marker : Option Marker) : Notification :=
  if marker = some .forced then throughInterface r owner else .never

def isSilent (owner : TypeRef) : Bool :=
  owner.isArray
    || !(isDependencyObject r dependencyType owner || implementsInterface r owner)
      && !r.isInterface owner && r.isSealed owner

def ofExpr? (e : Expr) : Option Notification :=
  e.access?.map fun (owner, m, marker) =>
    if marker = some .suppressed || isSilent r dependencyType owner.type then .never
    else if e.isElementAccess then ofElement r owner.type marker
    else ofMember r dependencyType owner.type m marker

end Notification
end DataBinding
