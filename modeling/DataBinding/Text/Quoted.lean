import DataBinding.Text.Extender
import DataBinding.Text.Printable

/-!
# Quoted text

The written form of a text between double quotes. Quotes and backslashes get a backslash, a few controls
have a letter of their own, and what cannot be seen on its own is written by its code point.
-/
namespace DataBinding.Text

def hexDigits (n : Nat) : List Char := Nat.toDigits 16 n

/-- The voiced and semi-voiced sound marks of halfwidth Katakana. They extend the character before them
but have a width of their own. -/
def isSoundMark (c : Char) : Bool := c == '\uff9e' || c == '\uff9f'

/-- Is the character seen only on the one before it? -/
def isOverlaid (c : Char) : Bool := isExtender c && !isSoundMark c

def quotedChar (c : Char) : List Char :=
  if c = '"' then ['\\', '"']
  else if c = '\\' then ['\\', '\\']
  else if c = '\x00' then ['\\', '0']
  else if c = '\t' then ['\\', 't']
  else if c = '\n' then ['\\', 'n']
  else if c = '\r' then ['\\', 'r']
  else if isOverlaid c || !isPrintable c then ['\\', 'u', '\x7b'] ++ hexDigits c.toNat ++ ['\x7d']
  else [c]

def quoted (s : String) : String :=
  String.ofList ('"' :: s.toList.flatMap quotedChar ++ ['"'])

end DataBinding.Text
