import DataBinding.Text.Alphabetic
import DataBinding.Text.Blank
import DataBinding.Text.Numeral

/-!
# Pieces of text

Texts are scanned as lists of characters. Offsets count the bytes of the UTF-8 form; a piece that is
cut off is always a list of whole characters, so every cut lies between two characters.
-/
namespace DataBinding.Text

/-- Looks through the characters of the list only, not through all characters that there are. -/
instance (priority := high) decidableForallMem (cs : List Char) (p : Char → Prop) [DecidablePred p] :
    Decidable (∀ c ∈ cs, p c) :=
  List.decidableBAll p cs

def byteLength : List Char → Nat
  | [] => 0
  | c :: cs => c.utf8Size + byteLength cs

/-- Number of characters that start before the byte offset. -/
def charsBefore : Nat → List Char → Nat
  | _, [] => 0
  | offset, c :: cs => if offset = 0 then 0 else 1 + charsBefore (offset - c.utf8Size) cs

/-- What is left from the first character that starts at or behind the byte offset. -/
def dropBytes : Nat → List Char → List Char
  | _, [] => []
  | offset, c :: cs => if offset = 0 then c :: cs else dropBytes (offset - c.utf8Size) cs

def trimStart (cs : List Char) : List Char := cs.dropWhile isBlank

def trimEnd (cs : List Char) : List Char := (cs.reverse.dropWhile isBlank).reverse

def trim (cs : List Char) : List Char := trimEnd (trimStart cs)

def trimmed (s : String) : String := String.ofList (trim s.toList)

def isNameChar (c : Char) : Bool := isAlphabetic c || isNumeral c || c == '_'

def after? (beginning : List Char) (cs : List Char) : Option (List Char) :=
  match beginning, cs with
  | [], cs => some cs
  | _ :: _, [] => none
  | b :: bs, c :: cs => if b = c then after? bs cs else none

def before? (ending : List Char) (cs : List Char) : Option (List Char) :=
  (after? ending.reverse cs.reverse).map List.reverse

def cutAt? (mark : Char) : List Char → Option (List Char × List Char)
  | [] => none
  | c :: cs =>
    if c = mark then some ([], cs) else (cutAt? mark cs).map fun (front, back) => (c :: front, back)

/-- The pieces between the occurrences of a character; there is always at least one. -/
def splitAt (mark : Char) : List Char → List (List Char)
  | [] => [[]]
  | c :: cs =>
    match splitAt mark cs with
    | [] => [[c]]
    | piece :: pieces => if c = mark then [] :: piece :: pieces else (c :: piece) :: pieces

/-- Replaces the occurrences of a non-empty pattern from left to right. The first number counts the
characters of a replaced occurrence that are still to be passed over. -/
def replaceFrom (pattern replacement : List Char) : Nat → List Char → List Char
  | _, [] => []
  | skipped + 1, _ :: cs => replaceFrom pattern replacement skipped cs
  | 0, c :: cs =>
    if pattern.isPrefixOf (c :: cs) then
      replacement ++ replaceFrom pattern replacement (pattern.length - 1) cs
    else c :: replaceFrom pattern replacement 0 cs

def replaceAll (pattern replacement cs : List Char) : List Char :=
  replaceFrom pattern replacement 0 cs

end DataBinding.Text
