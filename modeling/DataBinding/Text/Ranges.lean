/-!
# Classes of characters given by code point ranges

A property of characters beyond ASCII is a table of inclusive code point ranges. Below U+0080 the
classes are decided by plain comparisons, so the tables start there.
-/
namespace DataBinding.Text

/-- An inclusive range of code points. -/
structure CodeRange where
  first : Nat
  last : Nat
  deriving DecidableEq, Repr

def CodeRange.contains (r : CodeRange) (code : Nat) : Bool :=
  r.first ≤ code && code ≤ r.last

def inTable (table : List CodeRange) (c : Char) : Bool :=
  table.any (·.contains c.toNat)

def isAscii (c : Char) : Bool := c.toNat < 0x80

end DataBinding.Text
