/-!
# Documents

Configuration and attribute arguments are documents: trees of plain data without a schema.
-/
namespace DataBinding

inductive Document where
  | null
  | bool (value : Bool)
  /-- The number `mantissa` · 10^(-`exponent`). -/
  | number (mantissa : Int) (exponent : Nat)
  | text (value : String)
  | list (items : List Document)
  | record (fields : List (String × Document))
  deriving Repr, Inhabited

namespace Document

def bool? : Document → Option Bool
  | .bool value => some value
  | _ => none

def text? : Document → Option String
  | .text value => some value
  | _ => none

def list? : Document → Option (List Document)
  | .list items => some items
  | _ => none

/-- The values of the named fields, where they are given. A record names its fields; a list gives the
first of them in order and leaves the others out. -/
def fields? (names : List String) : Document → Option (List (Option Document))
  | .record fields => some (names.map fun name => fields.lookup name)
  | .list items =>
    if items.length ≤ names.length then
      some (items.map some ++ List.replicate (names.length - items.length) none)
    else none
  | _ => none

/-- One of finitely many names, alone or as the only field of a record whose value is null. -/
def choice? : Document → Option String
  | .text name => some name
  | .record [(name, .null)] => some name
  | _ => none

end Document
end DataBinding
