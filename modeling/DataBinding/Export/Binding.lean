import DataBinding.Binding.Basic
import DataBinding.Export.Expr

/-!
# Documents of bindings
-/
namespace DataBinding.Export

def ofEvent (e : Event) : Document := .record [
  ("name", .text e.name), ("declaring_type", ofType e.declaringType),
  ("handler_type", ofType e.handlerType)]

def ofNamespace (ns : MarkupNamespace) : Document := .record [
  ("prefix", optional .text ns.label), ("namespace", .text ns.name)]

def ofObject (o : TargetObject) : Document := .record [("name", .text o.name), ("ty", ofType o.type)]

def ofSite (s : Site) : Document := .record [
  ("value", .text s.text), ("object", ofObject s.object), ("member_name", .text s.member),
  ("member_type", ofType s.memberType), ("namespaces", .list (s.namespaces.map ofNamespace)),
  ("target_event", optional ofEvent s.event)]

def ofResource (r : Resource) : Document := .record [("name", .text r.name), ("ty", ofType r.type)]

def ofBinding (b : Binding) : Document := .record [
  ("site", ofSite b.site), ("data_type", optional ofType b.dataType),
  ("data_type_set", .bool b.dataTypeSet), ("expression", optional ofExpr b.path),
  ("bind_back_expression", optional ofExpr b.bindBack), ("converter", optional ofExpr b.converter),
  ("converter_parameter", optional ofExpr b.converterParameter),
  ("fallback_value", optional ofExpr b.fallback), ("target_null_value", optional ofExpr b.targetNull),
  ("string_format", optional .text b.format), ("mode", .text b.mode.name),
  ("is_items_source", .bool b.isItemsSource),
  ("update_source_events", .list (b.events.map ofEvent)),
  ("resources", .list (b.resources.map ofResource)),
  ("namespaces", .list (b.namespaces.map ofNamespace)),
  ("source_expression", optional ofExpr b.value),
  ("dependency_property", optional ofMember b.dependencyProperty), ("index", number b.index)]

end DataBinding.Export
