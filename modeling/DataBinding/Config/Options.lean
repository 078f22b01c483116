import DataBinding.Binding.Mode
import DataBinding.Config.Reader

/-!
# Compiler options

Options have defaults, so that the empty document stands for the default options.
-/
namespace DataBinding

structure Options where
  dataRoot : String := "dataRoot"
  /-- Mode of bindings that neither give nor imply one. -/
  defaultMode : BindingMode := .oneTime
  /-- Name of the interface of value converters. -/
  converterType : Option String := none
  /-- Name of the base type of objects that notify through dependency properties. -/
  dependencyObjectType : Option String := none
  requireDataType : Bool := false
  deriving DecidableEq, Repr

namespace Config

def mode? (d : Document) : Option BindingMode := d.choice?.bind BindingMode.ofName?

def options? (d : Document) : Option Options := do
  match ← d.fields? ["dataRoot", "defaultMode", "converterType", "dependencyObjectType",
    "requireDataType"] with
  | [dataRoot, defaultMode, converterType, dependencyObjectType, requireDataType] =>
    return {
      dataRoot := ← optional "dataRoot" Document.text? dataRoot
      defaultMode := ← optional .oneTime mode? defaultMode
      converterType := ← optional none (nullable Document.text?) converterType
      dependencyObjectType := ← optional none (nullable Document.text?) dependencyObjectType
      requireDataType := ← optional false Document.bool? requireDataType }
  | _ => none

def ofOptions (o : Options) : Document :=
  .record [
    ("dataRoot", .text o.dataRoot), ("defaultMode", .text o.defaultMode.name),
    ("converterType", ofNullable .text o.converterType),
    ("dependencyObjectType", ofNullable .text o.dependencyObjectType),
    ("requireDataType", .bool o.requireDataType)]

end Config
end DataBinding
