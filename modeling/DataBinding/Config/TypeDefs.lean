import DataBinding.Config.Reader
import DataBinding.Metadata.Registry

/-!
# Type descriptions as documents

Every description can be read from a document and written as one. Written documents name every field;
documents that are read may leave out what has a default, and fields that are not known are passed over.
-/
namespace DataBinding.Config

def typeRef? (d : Document) : Option TypeRef := d.text?.map .parse

def ofTypeRef (t : TypeRef) : Document := .text t.display

def typeKind? (d : Document) : Option TypeKind :=
  match d.choice? with
  | some "class" => some .classType
  | some "interface" => some .interfaceType
  | some "struct" => some .structType
  | some "enum" => some .enumType
  | _ => none

def ofTypeKind : TypeKind → Document
  | .classType => .text "class"
  | .interfaceType => .text "interface"
  | .structType => .text "struct"
  | .enumType => .text "enum"

def parameter? (d : Document) : Option Parameter := do
  match ← d.fields? ["name", "type", "optional"] with
  | [name, type, isOptional] =>
    return {
      name := ← required Document.text? name
      type := ← required typeRef? type
      optional := ← optional false Document.bool? isOptional }
  | _ => none

def ofParameter (p : Parameter) : Document :=
  .record [("name", .text p.name), ("type", ofTypeRef p.type), ("optional", .bool p.optional)]

def attribute? (d : Document) : Option Attribute := do
  match ← d.fields? ["type", "args"] with
  | [type, args] =>
    return {
      typeName := ← required Document.text? type
      args := ← optional [] Document.list? args }
  | _ => none

def ofAttribute (a : Attribute) : Document :=
  .record [("type", .text a.typeName), ("args", .list a.args)]

def property? (d : Document) : Option PropertyDef := do
  match ← d.fields? ["name", "type", "static", "readonly", "parameters", "attributes"] with
  | [name, type, isStatic, isReadOnly, parameters, attributes] =>
    return {
      name := ← required Document.text? name
      type := ← required typeRef? type
      isStatic := ← optional false Document.bool? isStatic
      isReadOnly := ← optional false Document.bool? isReadOnly
      parameters := ← optional [] (listOf parameter?) parameters
      attributes := ← optional [] (listOf attribute?) attributes }
  | _ => none

def ofProperty (p : PropertyDef) : Document :=
  .record [
    ("name", .text p.name), ("type", ofTypeRef p.type), ("static", .bool p.isStatic),
    ("readonly", .bool p.isReadOnly), ("parameters", .list (p.parameters.map ofParameter)),
    ("attributes", .list (p.attributes.map ofAttribute))]

def field? (d : Document) : Option FieldDef := do
  match ← d.fields? ["name", "type", "static", "attributes"] with
  | [name, type, isStatic, attributes] =>
    return {
      name := ← required Document.text? name
      type := ← required typeRef? type
      isStatic := ← optional false Document.bool? isStatic
      attributes := ← optional [] (listOf attribute?) attributes }
  | _ => none

def ofField (f : FieldDef) : Document :=
  .record [
    ("name", .text f.name), ("type", ofTypeRef f.type), ("static", .bool f.isStatic),
    ("attributes", .list (f.attributes.map ofAttribute))]

def method? (d : Document) : Option MethodDef := do
  match ← d.fields? ["name", "returns", "static", "parameters"] with
  | [name, returns, isStatic, parameters] =>
    return {
      name := ← required Document.text? name
      returns := ← optional (.named WellKnown.void) typeRef? returns
      isStatic := ← optional false Document.bool? isStatic
      parameters := ← optional [] (listOf parameter?) parameters }
  | _ => none

def ofMethod (m : MethodDef) : Document :=
  .record [
    ("name", .text m.name), ("returns", ofTypeRef m.returns), ("static", .bool m.isStatic),
    ("parameters", .list (m.parameters.map ofParameter))]

def event? (d : Document) : Option EventDef := do
  match ← d.fields? ["name", "handler"] with
  | [name, handler] =>
    return {
      name := ← required Document.text? name
      handler := ← optional (.named WellKnown.eventHandler) typeRef? handler }
  | _ => none

def ofEvent (e : EventDef) : Document :=
  .record [("name", .text e.name), ("handler", ofTypeRef e.handler)]

def typeDef? (d : Document) : Option TypeDef := do
  match ← d.fields? ["name", "kind", "sealed", "base", "interfaces", "properties", "fields",
    "methods", "events"] with
  | [name, kind, isSealed, base, interfaces, properties, fields, methods, events] =>
    return {
      name := ← required Document.text? name
      kind := ← optional .classType typeKind? kind
      isSealed := ← optional false Document.bool? isSealed
      base := ← optional none (nullable typeRef?) base
      interfaces := ← optional [] (listOf typeRef?) interfaces
      properties := ← optional [] (listOf property?) properties
      fields := ← optional [] (listOf field?) fields
      methods := ← optional [] (listOf method?) methods
      events := ← optional [] (listOf event?) events }
  | _ => none

def ofTypeDef (t : TypeDef) : Document :=
  .record [
    ("name", .text t.name), ("kind", ofTypeKind t.kind), ("sealed", .bool t.isSealed),
    ("base", ofNullable ofTypeRef t.base), ("interfaces", .list (t.interfaces.map ofTypeRef)),
    ("properties", .list (t.properties.map ofProperty)), ("fields", .list (t.fields.map ofField)),
    ("methods", .list (t.methods.map ofMethod)), ("events", .list (t.events.map ofEvent))]

def typeDefs? (d : Document) : Option (List TypeDef) := listOf typeDef? d

def registryTypes? (d : Document) : Option (List TypeDef) := do
  match ← d.fields? ["types"] with
  | [types] => optional [] typeDefs? types
  | _ => none

end DataBinding.Config
