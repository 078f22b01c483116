import DataBinding.Export.Binding
import DataBinding.Scope.Compiled

/-!
# Documents of compiled bindings
-/
namespace DataBinding.Export

def numbers (ns : List Nat) : Document := .list (ns.map number)

def ofLocal (l : Local) : Document := .record [
  ("name", .text l.name), ("expression", ofExpr l.value), ("variable", ofExpr l.reference)]

def ofAssignment (a : Assignment) : Document := .record [
  ("binding", number a.binding), ("expression", ofExpr a.expr)]

def ofSourceView (v : SourceView) : Document := .record [
  ("source", number v.source), ("source_expression", ofExpr v.expr)]

def ofPropertyView (v : PropertyView) : Document := .record [
  ("source", number v.source), ("property", number v.property), ("source_expression", ofExpr v.expr)]

def ofMethod (m : UpdateMethod) : Document := .record [
  ("parameters", .list (m.parameter.toList.map ofExpr)),
  ("expressions", .record [
    ("local_variables", .list (m.locals.map ofLocal)),
    ("set_expressions", .list (m.assignments.map ofAssignment))]),
  ("update_notify_sources", .list (m.sourceCalls.map ofSourceView)),
  ("update_notify_properties", .list (m.propertyCalls.map ofPropertyView)),
  ("set_event_handlers", .list (m.subscriptions.map ofSourceView))]

def ofProperty (source : Nat) (u : PropertyUpdate) : Document :=
  let p := u.property
  .record [
    ("source", number source), ("member", ofMember p.member),
    ("property_names", .list (p.slot.names.map .text)), ("property_code_name", .text p.slot.name),
    ("expression", ofExpr p.access), ("source_expression", ofExpr p.access),
    ("bindings", numbers p.bindings), ("set_bindings", numbers p.assigned),
    ("dependent_sources", numbers p.dependents), ("update_method", ofMethod u.method)]

def ofSource (s : SourceUpdate) : Document := .record [
  ("expression", ofExpr s.owner), ("source_expression", ofExpr s.view),
  ("properties", .list (s.properties.map (ofProperty s.index))),
  ("update_method", optional ofMethod s.method), ("check_inotify", .bool s.isTentative),
  ("index", number s.index)]

def ofWriteBack (w : WriteBack) : Document :=
  let (events, property) : List Event × Option Member :=
    match w.trigger with
    | .events events => (events, none)
    | .property member => ([], some member)
  .record [
    ("object", ofObject w.object), ("bindings", numbers w.bindings),
    ("target_changed_events", .list (events.map ofEvent)),
    ("dependency_property", optional ofMember property), ("index", number w.index)]

def ofCompiled (c : Compiled) : Document := .record [
  ("data_type", ofType c.dataType), ("target_type", ofType c.targetType),
  ("bindings", .list (c.bindings.map ofBinding)), ("notify_sources", .list (c.sources.map ofSource)),
  ("two_way_events", .list (c.writeBacks.map ofWriteBack)), ("update_method", ofMethod c.root)]

end DataBinding.Export
