import DataBinding.Document
import DataBinding.Metadata.TypeRef

/-!
# Descriptions of types

The host describes a type by its kind, its place in the hierarchy and the members that it declares itself.
A member found on a type is a description of its own, which names the declaring type.
-/
namespace DataBinding

inductive TypeKind where
  | classType
  | interfaceType
  | structType
  | enumType
  deriving DecidableEq, Repr

def TypeKind.isValue : TypeKind → Bool
  | .structType | .enumType => true
  | .classType | .interfaceType => false

structure Parameter where
  name : String
  type : TypeRef
  optional : Bool := false
  deriving DecidableEq, Repr

structure Attribute where
  typeName : String
  args : List Document := []
  deriving Repr

structure PropertyDef where
  name : String
  type : TypeRef
  isStatic : Bool := false
  isReadOnly : Bool := false
  /-- An indexer has parameters. -/
  parameters : List Parameter := []
  attributes : List Attribute := []
  deriving Repr

structure FieldDef where
  name : String
  type : TypeRef
  isStatic : Bool := false
  attributes : List Attribute := []
  deriving Repr

structure MethodDef where
  name : String
  returns : TypeRef := .named WellKnown.void
  isStatic : Bool := false
  parameters : List Parameter := []
  deriving Repr

structure EventDef where
  name : String
  handler : TypeRef := .named WellKnown.eventHandler
  deriving DecidableEq, Repr

structure TypeDef where
  name : String
  kind : TypeKind := .classType
  isSealed : Bool := false
  base : Option TypeRef := none
  interfaces : List TypeRef := []
  properties : List PropertyDef := []
  fields : List FieldDef := []
  methods : List MethodDef := []
  events : List EventDef := []
  deriving Repr

inductive MemberKind where
  | property
  | field
  | method
  deriving DecidableEq, Repr

structure Member where
  name : String
  kind : MemberKind
  declaringType : TypeRef
  /-- The type of the property or field, or what the method returns. -/
  type : TypeRef
  isStatic : Bool := false
  isReadOnly : Bool := false
  parameters : List Parameter := []
  attributes : List Attribute := []
  deriving Repr

namespace Member

def isProperty (m : Member) : Bool := m.kind == .property

def isIndexer (m : Member) : Bool := m.isProperty && !m.parameters.isEmpty

/-- What the read-only attribute declares, if the member has it. Without a truth value as its first
argument it declares the member read-only. -/
def readOnlyAttribute? (m : Member) : Option Bool :=
  (m.attributes.find? (·.typeName == WellKnown.readOnlyAttribute)).map fun a =>
    (a.args.head?.bind Document.bool?).getD true

def requiredParameters (m : Member) : Nat := (m.parameters.filter (!·.optional)).length

end Member

structure Event where
  name : String
  declaringType : TypeRef
  handlerType : TypeRef
  deriving DecidableEq, Repr

namespace TypeDef

def ref (d : TypeDef) : TypeRef := .parse d.name

def property (d : TypeDef) (p : PropertyDef) : Member where
  name := p.name
  kind := .property
  declaringType := d.ref
  type := p.type
  isStatic := p.isStatic
  isReadOnly := p.isReadOnly
  parameters := p.parameters
  attributes := p.attributes

def field (d : TypeDef) (f : FieldDef) : Member where
  name := f.name
  kind := .field
  declaringType := d.ref
  type := f.type
  isStatic := f.isStatic
  attributes := f.attributes

/-- Methods count as read-only members. -/
def method (d : TypeDef) (m : MethodDef) : Member where
  name := m.name
  kind := .method
  declaringType := d.ref
  type := m.returns
  isStatic := m.isStatic
  isReadOnly := true
  parameters := m.parameters

def event (d : TypeDef) (e : EventDef) : Event := ⟨e.name, d.ref, e.handler⟩

def ownMember? (d : TypeDef) (name : String) : Option Member :=
  match d.properties.find? fun p => p.name == name && p.parameters.isEmpty with
  | some p => some (d.property p)
  | none => (d.fields.find? (·.name == name)).map d.field

def ownIndexer? (d : TypeDef) : Option Member :=
  (d.properties.find? (!·.parameters.isEmpty)).map d.property

def ownMethods (d : TypeDef) (name : String) : List Member :=
  (d.methods.filter (·.name == name)).map d.method

def ownEvent? (d : TypeDef) (name : String) : Option Event :=
  (d.events.find? (·.name == name)).map d.event

end TypeDef
end DataBinding
