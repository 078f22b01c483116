import DataBinding.Metadata.WellKnown
import DataBinding.Text.Slice

/-!
# References to types

A reference is a type name together with a nullability mark. It is written as the name, with a `?` behind
it when it is nullable; an array's name is the name of its elements followed by `[]`.
-/
namespace DataBinding
open Text

structure TypeRef where
  name : String
  nullable : Bool
  deriving DecidableEq, Repr, Inhabited

namespace TypeRef

def named (name : String) : TypeRef := ⟨name, false⟩

/-- Reads a written reference: blanks around it do not count, and one `?` at its end makes it nullable. -/
def parse (text : String) : TypeRef :=
  let name := trim text.toList
  match before? ['?'] name with
  | some bare => ⟨String.ofList bare, true⟩
  | none => ⟨String.ofList name, false⟩

def display (t : TypeRef) : String := if t.nullable then t.name ++ "?" else t.name

def shortName (t : TypeRef) : String :=
  String.ofList (t.name.toList.reverse.takeWhile (· ≠ '.')).reverse

def withNullable (t : TypeRef) (nullable : Bool) : TypeRef := { t with nullable }

def is (t : TypeRef) (name : String) : Bool := t.name == name

def isNull (t : TypeRef) : Bool := t.is WellKnown.null

def isNumeric (t : TypeRef) : Bool := WellKnown.numeric.contains t.name

def element? (t : TypeRef) : Option TypeRef :=
  (before? ['[', ']'] t.name.toList).map fun element => parse (String.ofList element)

def isArray (t : TypeRef) : Bool := t.element?.isSome

/-- The type of arrays of such elements. The nullability of the elements is not recorded. -/
def array (t : TypeRef) : TypeRef := parse (t.name ++ "[]")

def object : TypeRef := named WellKnown.object
def string : TypeRef := named WellKnown.string
def boolean : TypeRef := named WellKnown.boolean
def null : TypeRef := named WellKnown.null

end TypeRef
end DataBinding
