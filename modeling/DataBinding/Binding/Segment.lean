import DataBinding.Fault
import DataBinding.Text.Slice

/-!
# Segments of declarations

A declaration is a list of segments that commas divide. Most of them are a name, an equals sign and a
value. This module finds their boundaries; positions count the bytes of the declaration.
-/
namespace DataBinding
open Text

structure Place where
  offset : Nat
  rest : List Char
  deriving Repr

namespace Place

def moveTo (p : Place) (ending : List Char) : Place :=
  ⟨p.offset + (byteLength p.rest - byteLength ending), ending⟩

def skipBlanks (p : Place) : Place := p.moveTo (trimStart p.rest)

def skipComma (p : Place) : Place :=
  match after? [','] p.rest with
  | some rest => p.moveTo rest
  | none => p

def fault (p : Place) (cause : Cause) (length : Nat) : Fault := .spanning cause p.offset length

end Place

namespace Segment

/-- A name, a single equals sign and a value: the name, and the text from the value on. -/
def named? (cs : List Char) : Option (List Char × List Char) :=
  let name := cs.takeWhile isNameChar
  match after? ['='] (trimStart (cs.dropWhile isNameChar)) with
  | none => none
  | some tail =>
    let value := trimStart tail
    if name.isEmpty || tail.head? == some '=' || value.isEmpty then none else some (name, value)

/-- The value up to the next comma without the blanks around it, and the place behind the comma. -/
def plainValue (p : Place) : List Char × Place :=
  match cutAt? ',' p.rest with
  | some (value, rest) => (trim value, p.moveTo rest)
  | none => (trim p.rest, p.moveTo [])

def resource? (cs : List Char) : Option (List Char × List Char) := do
  let inner ← after? ['\x7b'] cs
  let inner ← after? "StaticResource".toList (trimStart inner)
  let name := (trimStart inner).takeWhile isNameChar
  let rest ← after? ['\x7d'] (trimStart ((trimStart inner).dropWhile isNameChar))
  if (inner.head?.any isBlank) && !name.isEmpty then some (name, rest) else none

/-- Divides a text at the first comma that is neither behind a backslash nor in braces. -/
def cutFormat (depth : Nat) (escaped : Bool) : List Char → List Char × List Char
  | [] => ([], [])
  | c :: cs =>
    if escaped then
      let (front, back) := cutFormat depth false cs
      (c :: front, back)
    else if c = ',' && depth = 0 then ([], cs)
    else
      let depth := if c = '\x7b' then depth + 1 else if c = '\x7d' then depth - 1 else depth
      let (front, back) := cutFormat depth (c == '\\') cs
      (c :: front, back)

/-- The value of a format: a text in single quotes, or all up to a comma that divides segments. A pair of
braces in front of it does not count. -/
def formatValue (p : Place) : Except Fault (List Char × Place) :=
  let p :=
    match after? ['\x7b', '\x7d'] p.rest with
    | some rest => p.moveTo rest
    | none => p
  match after? ['\''] p.rest with
  | some quoted =>
    match cutAt? '\'' quoted with
    | some (value, rest) => .ok (value, (p.moveTo rest).skipBlanks.skipComma)
    | none => .error (p.fault .unclosedFormat 1)
  | none =>
    let (value, rest) := cutFormat 0 false p.rest
    .ok (trimEnd value, p.moveTo rest)

/-- The text behind the last mention of `DataType` with a single equals sign. -/
def lastDataType? : List Char → Option (List Char)
  | [] => none
  | c :: cs =>
    lastDataType? cs <|> do
      let tail ← after? ['='] (trimStart (← after? "DataType".toList (c :: cs)))
      if tail.head? = some '=' then none else some tail

/-- The data type that a declaration names, wherever the name stands in it. -/
def dataType? (text : List Char) : Option (List Char) := do
  let (name, _) := plainValue ⟨0, ← lastDataType? text⟩
  if name.isEmpty then none else some name

end Segment
end DataBinding
