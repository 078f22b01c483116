import DataBinding.Grammar.Cursor

/-!
# Type names in expressions

A type is named by a label and a name, by a keyword, or by a dotted name, of which the longest part that
names a type counts. A reader that finds no type leaves the cursor where it was.
-/
namespace DataBinding.Grammar

/-- Goes to the place behind the longest type name found, or back to the start. -/
def settle (start : Cursor) : Option (TypeRef × Cursor) → ParseM (Option TypeRef)
  | some (type, behind) => do
    set behind
    return some type
  | none => do
    set start
    return none

def dottedTypeName (s : Setting) (start : Cursor) :
    Nat → String → Option (TypeRef × Cursor) → ParseM (Option TypeRef)
  | 0, _, found => settle start found
  | bound + 1, name, found => do
    if !(← current).isSymbol "." then settle start found
    else
      advance
      let part ← current
      if part.kind ≠ .ident then settle start found
      else
        let name := name ++ "." ++ part.text
        advance
        match ← resolveType s name with
        | some type => dottedTypeName s start bound name (some (type, ← get))
        | none => dottedTypeName s start bound name found

def labelledTypeName (s : Setting) (start : Cursor) (label : String) : ParseM (Option TypeRef) := do
  let part ← current
  if part.kind ≠ .ident then settle start none
  else
    advance
    match ← resolveType s (label ++ ":" ++ part.text) with
    | some type => return some type
    | none => settle start none

def typeName? (s : Setting) : ParseM (Option TypeRef) := do
  let start ← get
  if start.token.kind ≠ .ident then return none
  else
    let name := start.token.text
    advance
    if (← current).isSymbol ":" then
      advance
      labelledTypeName s start name
    else
      match ← resolveType s name with
      | some type => dottedTypeName s start (← remaining) name (some (type, ← get))
      | none => dottedTypeName s start (← remaining) name none

def typeName (s : Setting) : ParseM TypeRef := do
  let token ← current
  match ← typeName? s with
  | some type => return type
  | none => throw (token.fault .expectedTypeName)

def typeOperand (s : Setting) (keyword : String) : ParseM TypeRef := do
  expect "(" ("after `" ++ keyword ++ "`")
  let type ← typeName s
  expect ")" ("after `" ++ keyword ++ "` operand")
  return type

/-- The words that stand for operators and so start no operand. -/
def operatorWords : List String := ["and", "or", "eq", "ne", "lt", "le", "gt", "ge"]

def startsOperand (token : Token) : Bool :=
  match token.kind with
  | .number | .string => true
  | .ident => !operatorWords.contains token.text
  | .symbol => token.text = "(" || token.text = "!"
  | .eof => false

/-- Reads the type of a cast: a type name in parentheses with an operand behind it. -/
def castType? (s : Setting) : ParseM (Option TypeRef) := do
  let start ← get
  advance
  match ← typeName? s with
  | none => settle start none
  | some type =>
    if !(← current).isSymbol ")" then settle start none
    else
      advance
      if startsOperand (← current) then return some type else settle start none

end DataBinding.Grammar
