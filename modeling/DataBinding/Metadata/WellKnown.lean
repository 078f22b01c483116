/-!
# Names of the types that the rules of the language mention
-/
namespace DataBinding.WellKnown

def object : String := "System.Object"
def string : String := "System.String"
def boolean : String := "System.Boolean"
def char : String := "System.Char"
def int32 : String := "System.Int32"
def int64 : String := "System.Int64"
def single : String := "System.Single"
def double : String := "System.Double"
def decimal : String := "System.Decimal"
def void : String := "System.Void"
def type : String := "System.Type"
def eventHandler : String := "System.EventHandler"
def task : String := "System.Threading.Tasks.Task"
def notifyPropertyChanged : String := "System.ComponentModel.INotifyPropertyChanged"
def propertyChangedHandler : String := "System.ComponentModel.PropertyChangedEventHandler"
def readOnlyAttribute : String := "System.ComponentModel.ReadOnlyAttribute"

/-- Stands for the type of the `null` literal. -/
def null : String := "<null>"

def abbreviations : List (String × String) := [
  ("object", object), ("string", string), ("bool", boolean), ("char", char), ("int", int32),
  ("long", int64), ("float", single), ("double", double), ("decimal", decimal)]

def fullName? (keyword : String) : Option String := abbreviations.lookup keyword

def numeric : List String := [int32, int64, single, double, decimal, char]

/-- The number types that values of a number type convert to by themselves. -/
def widened (name : String) : List String :=
  if name = char then [int32, int64, single, double, decimal]
  else if name = int32 then [int64, single, double, decimal]
  else if name = int64 then [single, double, decimal]
  else if name = single then [double]
  else []

end DataBinding.WellKnown
