import DataBinding.Binding.Mode
import DataBinding.Expr.Basic
import DataBinding.Metadata.Registry

/-!
# Bindings

A site of the markup assigns a declaration to a member of an object. What the declaration means is a
binding: the expressions in it, the direction in which values flow, and the value of the target.
-/
namespace DataBinding

structure TargetObject where
  name : String
  type : TypeRef
  deriving DecidableEq, Repr

structure Site where
  text : String
  object : TargetObject
  member : String
  memberType : TypeRef
  namespaces : List MarkupNamespace := []
  /-- The event, if the member is one; the declaration then gives its handler. -/
  event : Option Event := none
  deriving Repr

structure Context where
  registry : Registry
  sourceType : TypeRef
  /-- The type of the root of the markup. -/
  targetType : TypeRef
  rootName : String
  defaultMode : BindingMode
  converterType : Option TypeRef
  requireDataType : Bool

/-- A resource of the markup, which becomes a field of its root. -/
structure Resource where
  name : String
  type : TypeRef
  deriving DecidableEq, Repr

structure Binding where
  site : Site
  /-- The data type that the declaration names, if it is known. -/
  dataType : Option TypeRef
  dataTypeSet : Bool
  path : Option Expr
  bindBack : Option Expr
  converter : Option Expr
  converterParameter : Option Expr
  fallback : Option Expr
  targetNull : Option Expr
  format : Option String
  mode : BindingMode
  isItemsSource : Bool
  events : List Event
  resources : List Resource
  namespaces : List MarkupNamespace
  /-- What is assigned to the target: the path with all that the declaration adds to it. -/
  value : Option Expr
  /-- The member whose changes cause the target to be written back. -/
  dependencyProperty : Option Member := none
  index : Nat := 0
  deriving Repr

def Binding.writeTarget (b : Binding) : Option Expr := b.bindBack <|> b.path

end DataBinding
