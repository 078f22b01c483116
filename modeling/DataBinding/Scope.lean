import DataBinding.Binding.Declaration
import DataBinding.Config.Options
import DataBinding.Scope.Compiled

/-!
# Scopes

A scope is a view whose bindings are compiled together. Bindings are added one by one, and adding can go on
behind a site that is rejected.
-/
namespace DataBinding

structure Scope where
  registry : Registry
  options : Options
  dataType : TypeRef
  targetType : TypeRef
  converterType : Option TypeRef
  dependencyType : Option TypeRef
  bindings : List Binding := []
  fallbacks : Nat := 0
  /-- The namespaces in use, in ascending order. -/
  namespaces : List String := []

inductive ScopeFault where
  | unknownType (name : String)
  | rejected (site : Site) (fault : Fault)
  deriving Repr

def ScopeFault.message : ScopeFault → String
  | .unknownType name => "unknown type `" ++ name ++ "`"
  | .rejected site fault =>
    site.object.name ++ "." ++ site.member ++ ": " ++ fault.render site.text

namespace Scope

def resolve (r : Registry) (name : String) : Except ScopeFault TypeRef :=
  match r.resolveType? [] name with
  | some type => .ok type
  | none => .error (.unknownType name)

def create (registry : Registry) (dataType targetType : String) (options : Options) :
    Except ScopeFault Scope := do
  return {
    registry, options
    dataType := ← resolve registry dataType
    targetType := ← resolve registry targetType
    converterType := ← options.converterType.mapM (resolve registry)
    dependencyType := ← options.dependencyObjectType.mapM (resolve registry) }

def context (s : Scope) : Context where
  registry := s.registry
  sourceType := s.dataType
  targetType := s.targetType
  rootName := s.options.dataRoot
  defaultMode := s.options.defaultMode
  converterType := s.converterType
  requireDataType := s.options.requireDataType

/-- Adds the binding of a site, or else tells the fault. The counter of fallbacks is left as reading the site
leaves it. -/
def attempt (s : Scope) (site : Site) : Except ScopeFault Binding × Scope :=
  match Binding.read s.context site s.fallbacks with
  | (.ok b, fallbacks) => (.ok b, { s with
      bindings := s.bindings ++ [b]
      fallbacks
      namespaces := sortNames (addAllDistinct s.namespaces (b.namespaces.map (·.name))) })
  | (.error fault, fallbacks) => (.error (.rejected site fault), { s with fallbacks })

def add (s : Scope) (site : Site) : Except ScopeFault Scope :=
  let (result, s) := s.attempt site
  result.map fun _ => s

def compile (s : Scope) : Compiled :=
  .ofBindings s.registry s.dependencyType s.dataType s.targetType s.bindings

end Scope
end DataBinding
