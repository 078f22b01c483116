import DataBinding.Update.Method
import DataBinding.WriteBack

/-!
# Compiled bindings

The bindings of a scope are compiled into a root method, methods that follow the changes of sources and
properties, and handlers that write back.
-/
namespace DataBinding

/-- A property with its method. Its `assigned` bindings are those that the method assigns itself. -/
structure PropertyUpdate where
  property : ObservedProperty
  method : UpdateMethod
  deriving Repr

structure SourceUpdate where
  index : Nat
  owner : Expr
  isTentative : Bool
  /-- The owner as the root method computes it. -/
  view : Expr
  /-- The method for all properties at once. -/
  method : Option UpdateMethod
  properties : List PropertyUpdate
  deriving Repr

def SourceUpdate.toSource (u : SourceUpdate) : Source where
  index := u.index
  owner := u.owner
  properties := u.properties.map (·.property)
  isTentative := u.isTentative

structure Compiled where
  dataType : TypeRef
  targetType : TypeRef
  bindings : List Binding
  sources : List SourceUpdate
  writeBacks : List WriteBack
  root : UpdateMethod
  deriving Repr

def Compiled.rootAssignments (c : Compiled) : List Binding :=
  c.root.assignments.filterMap fun a => c.bindings[a.binding]?

namespace Compiled

/-- The member whose changes cause a binding to be written back when it gives no events: the static
backing member of the target, if the target is a dependency object. -/
def dependencyProperty? (r : Registry) (dependencyType : TypeRef) (b : Binding) : Option Member :=
  if b.mode.writesBack && b.events.isEmpty && b.site.event.isNone
      && r.isAssignable dependencyType b.site.object.type then
    (r.member? b.site.object.type (b.site.member ++ "Property")).filter (·.isStatic)
  else none

def numbered (r : Registry) (dependencyType : Option TypeRef) (bs : List Binding) : List Binding :=
  bs.zipIdx.map fun (b, index) =>
    { b with index, dependencyProperty := dependencyType.bind (dependencyProperty? r · b) }

section Methods

variable (r : Registry) (bs : List Binding) (sources : List Source)

def sourceMethod? (s : Source) : Option UpdateMethod :=
  if s.hasMethod r then
    -- subscribing is left to the methods of the properties
    some (UpdateMethod.ofRefresh r bs sources
      { bindings := s.bindings, available := [], own := some s, replaced := some s.owner }).1
  else none

def propertyMethod (s : Source) (p : ObservedProperty) : UpdateMethod × List Nat :=
  UpdateMethod.ofRefresh r bs sources {
    bindings := p.assigned
    available := p.dependents.filterMap fun i => sources[i]?
    replaced := some s.owner }

def rootBindings : List Nat :=
  (bs.filter fun b => b.site.event.isNone && b.mode != .oneWayToSource).map (·.index)

def rootMethod : UpdateMethod :=
  (UpdateMethod.ofRefresh r bs sources { bindings := rootBindings bs, available := sources }).1

def propertyUpdate (s : Source) (p : ObservedProperty) : PropertyUpdate :=
  let (method, assigned) := propertyMethod r bs sources s p
  { property := { p with assigned }, method }

def view? (m : UpdateMethod) (source : Nat) : Option Expr :=
  ((m.sourceCalls ++ m.subscriptions).find? (·.source == source)).map (·.expr)

def sourceUpdate (root : UpdateMethod) (s : Source) : SourceUpdate where
  index := s.index
  owner := s.owner
  isTentative := s.isTentative
  view := (view? root s.index).getD s.owner
  method := sourceMethod? r bs sources s
  properties := s.properties.map (propertyUpdate r bs sources s)

end Methods

def ofBindings (r : Registry) (dependencyType : Option TypeRef) (dataType targetType : TypeRef)
    (bs : List Binding) : Compiled :=
  let bindings := numbered r dependencyType bs
  let sources := Source.link (Source.ofBindings r dependencyType bindings)
  let root := rootMethod r bindings sources
  { dataType, targetType, bindings, root
    sources := sources.map (sourceUpdate r bindings sources root)
    writeBacks := WriteBack.ofBindings bindings }

end Compiled
end DataBinding
