import DataBinding.Text.Ranges

/-!
# Blanks

The characters with the property White_Space. They separate tokens and are trimmed.
-/
namespace DataBinding.Text

/-- White space from U+0080 on. -/
def blankTable : List CodeRange := [
  ⟨0x85, 0x85⟩, ⟨0xA0, 0xA0⟩, ⟨0x1680, 0x1680⟩, ⟨0x2000, 0x200A⟩, ⟨0x2028, 0x2029⟩,
  ⟨0x202F, 0x202F⟩, ⟨0x205F, 0x205F⟩, ⟨0x3000, 0x3000⟩]

def isBlank (c : Char) : Bool :=
  if isAscii c then c == ' ' || (0x09 ≤ c.toNat && c.toNat ≤ 0x0D) else inTable blankTable c

end DataBinding.Text
