/-!
# String literals

Between its quotes a literal may hold any character. A backslash takes the character behind it along, so
that quotes and backslashes can stand in the text.
-/
namespace DataBinding.StringLiteral

/-- Splits the text behind an opening quote into the body up to the closing quote and what follows it. -/
def body? (quote : Char) : List Char → Option (List Char × List Char)
  | [] => none
  | '\\' :: [] => none
  | '\\' :: c :: cs => (body? quote cs).map fun (body, rest) => ('\\' :: c :: body, rest)
  | c :: cs =>
    if c = quote then some ([], cs) else (body? quote cs).map fun (body, rest) => (c :: body, rest)

def escaped (c : Char) : Char :=
  if c = 'n' then '\n'
  else if c = 't' then '\t'
  else if c = 'r' then '\r'
  else if c = '0' then '\x00'
  else c

/-- The text that a body stands for. A backslash at the very end stands for itself. -/
def unescape : List Char → List Char
  | [] => []
  | '\\' :: [] => ['\\']
  | '\\' :: c :: cs => escaped c :: unescape cs
  | c :: cs => c :: unescape cs

end DataBinding.StringLiteral
