import DataBinding.Digraph
import DataBinding.Metadata.Registry
import DataBinding.Sorted

/-!
# The hierarchy of types

Base types and interfaces make up a graph over type names, in which a host may also describe cycles. The
walks over it visit a name at most once.
-/
namespace DataBinding.Registry

def baseGraph (r : Registry) : Digraph String :=
  ⟨r.types.map fun d => (d.name, (d.base.map (·.name)).toList)⟩

def superGraph (r : Registry) : Digraph String :=
  ⟨r.types.map fun d => (d.name, (d.base.map (·.name)).toList ++ d.interfaces.map (·.name))⟩

/-- Every type derives from the type of all objects, said or unsaid. -/
def withObject (names : List String) : List String :=
  if names.contains WellKnown.object then names else names ++ [WellKnown.object]

def baseChain (r : Registry) (t : TypeRef) : List String :=
  withObject (r.baseGraph.preorder [t.name])

/-- Every type that references to the type convert to, in the order of the names. -/
def supertypes (r : Registry) (t : TypeRef) : List String :=
  sortNames (withObject (r.superGraph.preorder [t.name]))

def hasKind (r : Registry) (t : TypeRef) (accepted : TypeKind → Bool) : Bool :=
  (r.typeDef? t.name).any (accepted ·.kind)

def isInterface (r : Registry) (t : TypeRef) : Bool := r.hasKind t (· == .interfaceType)

def isEnum (r : Registry) (t : TypeRef) : Bool := r.hasKind t (· == .enumType)

def isValueType (r : Registry) (t : TypeRef) : Bool := r.hasKind t TypeKind.isValue

def isSealed (r : Registry) (t : TypeRef) : Bool :=
  t.isArray || (r.typeDef? t.name).any fun d => d.isSealed || d.kind.isValue

/-- Assignability of types with at most `depth` pairs of array brackets. -/
def assignableWithin (r : Registry) : Nat → TypeRef → TypeRef → Bool
  | depth, target, source =>
    if source.isNull then !r.isValueType target || target.nullable
    else if target.is WellKnown.object then true
    else if target.is source.name then
      !(source.nullable && !target.nullable && r.isValueType target)
    else if (WellKnown.widened source.name).contains target.name then true
    else
      match depth, target.element?, source.element? with
      | depth + 1, some targetElement, some sourceElement =>
        !r.isValueType sourceElement && r.assignableWithin depth targetElement sourceElement
      | _, _, _ => (r.supertypes source).contains target.name

def isAssignable (r : Registry) (target source : TypeRef) : Bool :=
  r.assignableWithin target.name.length target source

/-- The order in which members are looked up: an interface and all that it inherits in the order of
the names, any other type along its base types. -/
def lookupOrder (r : Registry) (t : TypeRef) : List String :=
  if r.isInterface t then r.supertypes t else r.baseChain t

end DataBinding.Registry
