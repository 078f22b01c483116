import DataBinding.Token
import DataBinding.Token.StringLiteral

/-!
# From text to tokens

Blanks separate tokens. A string literal stands between single or double quotes, a number starts with an
ASCII digit, a name with a letter or an underscore; the rest are symbols of one or two characters.
-/
namespace DataBinding.Lexer
open Text

def pairs : List (List Char) := [
  ['?', '?'], ['?', '.'], ['=', '='], ['!', '='], ['<', '='], ['>', '='], ['&', '&'], ['|', '|']]

def singles : List Char := [
  '.', '/', '\\', '[', ']', '(', ')', ',', '?', ':', '+', '-', '*', '%', '!', '<', '>', '=',
  '\x7b', '\x7d']

/-- The letters that may end a number and give its type. -/
def suffixes : List Char := ['f', 'F', 'd', 'D', 'm', 'M', 'l', 'L']

/-- Splits a fraction off: a point counts only with a digit behind it. -/
def fraction : List Char → List Char × List Char
  | '.' :: d :: cs =>
    if d.isDigit then ('.' :: (d :: cs).takeWhile Char.isDigit, (d :: cs).dropWhile Char.isDigit)
    else ([], '.' :: d :: cs)
  | cs => ([], cs)

def typeSuffix : List Char → List Char × List Char
  | c :: cs => if suffixes.contains c then ([c], cs) else ([], c :: cs)
  | [] => ([], [])

def number (cs : List Char) : List Char × List Char :=
  let digits := cs.takeWhile Char.isDigit
  let (point, rest) := fraction (cs.dropWhile Char.isDigit)
  let (suffix, rest) := typeSuffix rest
  (digits ++ point ++ suffix, rest)

/-- The tokens of a text that starts at the byte offset. -/
def tokensFrom : Nat → Nat → List Char → TokenStream
  | 0, offset, _ => .eof offset
  | bound + 1, offset, cs =>
    let start := offset + byteLength (cs.takeWhile isBlank)
    let token (kind : TokenKind) (text rest : List Char) : TokenStream :=
      .token ⟨kind, String.ofList text, start, start + byteLength text⟩
        (tokensFrom bound (start + byteLength text) rest)
    match cs.dropWhile isBlank with
    | [] => .eof start
    | c :: cs =>
      if c = '"' || c = '\'' then
        match StringLiteral.body? c cs with
        | some (body, rest) =>
          let stop := start + 1 + byteLength body
          .token ⟨.string, String.ofList body, start + 1, stop⟩ (tokensFrom bound (stop + 1) rest)
        | none => .skip (.spanning .unclosedString start 1) (.eof (start + byteLength (c :: cs)))
      else if c.isDigit then
        let (text, rest) := number (c :: cs)
        if rest.head?.any isNameChar then
          .skip (.spanning .invalidNumber start (byteLength text + 1))
            (tokensFrom bound (start + byteLength text) rest)
        else token .number text rest
      else if isAlphabetic c || c = '_' then
        token .ident ((c :: cs).takeWhile isNameChar) ((c :: cs).dropWhile isNameChar)
      else if pairs.contains (c :: cs.take 1) then token .symbol (c :: cs.take 1) (cs.drop 1)
      else if singles.contains c then token .symbol [c] cs
      else .stuck (.spanning (.invalidCharacter c) start c.utf8Size)

def tokens (text : List Char) : TokenStream :=
  -- every token takes a character at least
  tokensFrom text.length 0 text

end DataBinding.Lexer
