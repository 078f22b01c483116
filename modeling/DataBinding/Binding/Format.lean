import DataBinding.Text.Slice

/-!
# Formats of texts

A format is a text with one placeholder for the formatted value, or a format specification on its own.
-/
namespace DataBinding.Format
open Text

def afterLast? (pattern : List Char) : List Char → Option (List Char)
  | [] => none
  | c :: cs => afterLast? pattern cs <|> after? pattern (c :: cs)

/-- Is the last placeholder of the text well formed, with or without a specification? -/
def hasPlaceholder (cs : List Char) : Bool :=
  match afterLast? ['\x7b', '0'] cs with
  | none => false
  | some rest =>
    match cutAt? '\x7d' rest with
    | none => false
    | some (specification, _) => specification.isEmpty || specification.head? == some ':'

def template (format : String) : String :=
  if hasPlaceholder format.toList then format else "\x7b0:" ++ format ++ "\x7d"

end DataBinding.Format
