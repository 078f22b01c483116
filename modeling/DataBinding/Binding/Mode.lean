/-!
# Binding modes

A mode says in which direction a binding carries values, and whether it follows later changes.
-/
namespace DataBinding

inductive BindingMode where
  | oneTime
  | oneWay
  | oneWayToSource
  | twoWay
  deriving DecidableEq, Repr

namespace BindingMode

def all : List BindingMode := [.oneTime, .oneWay, .oneWayToSource, .twoWay]

def name : BindingMode → String
  | .oneTime => "OneTime"
  | .oneWay => "OneWay"
  | .oneWayToSource => "OneWayToSource"
  | .twoWay => "TwoWay"

def ofName? (name : String) : Option BindingMode := all.find? (·.name == name)

def writesBack : BindingMode → Bool
  | .twoWay | .oneWayToSource => true
  | .oneTime | .oneWay => false

def observesSource : BindingMode → Bool
  | .oneWay | .twoWay => true
  | .oneTime | .oneWayToSource => false

end BindingMode
end DataBinding
