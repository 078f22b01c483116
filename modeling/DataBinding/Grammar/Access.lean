import DataBinding.Grammar.Cursor
import DataBinding.Metadata.Lookup

/-!
# Members, elements and calls

Accesses follow an expression, one after the other. A point leaves it to the types whether changes are
observed; a backslash forces that and a slash suppresses it.
-/
namespace DataBinding.Grammar

structure Nested where
  expression : ParseM Expr
  /-- What may stand to the right of `??`. -/
  coalesced : ParseM Expr
  /-- What may stand behind a unary operator or a cast. -/
  operand : ParseM Expr

/-- Reads expressions, each after a comma. -/
def moreArguments (nested : Nested) : Nat → ParseM (List Expr)
  | 0 => return []
  | bound + 1 => do
    if (← current).isSymbol "," then
      advance
      let e ← nested.expression
      let es ← moreArguments nested bound
      return e :: es
    else return []

def arguments (nested : Nested) (close : String) : ParseM (List Expr) := do
  if (← current).word = close then
    expect close "after arguments"
    return []
  else
    let e ← nested.expression
    -- as for all loops of readers, each round passes a token at least
    let es ← moreArguments nested (← remaining)
    expect close "after arguments"
    return e :: es

def elementAccess (s : Setting) (nested : Nested) (target : Expr) (marker : Option Marker) :
    ParseM Expr := do
  let token ← current
  expect "[" "in element access"
  let args ← arguments nested "]"
  match s.registry.indexer? target.type with
  | none => throw (token.fault (.notIndexable target.type))
  | some indexer =>
    if args.length = indexer.parameters.length
        && s.registry.fits indexer.parameters (args.map (·.type)) then
      return .element target indexer args marker
    else throw (token.fault (.indexerRejected target.type))

/-- The method that a call means. On a type itself only static methods can be called. -/
def callee? (r : Registry) (target : Expr) (name : String) (args : List Expr) : Option Member :=
  (r.method? target.type name (args.map (·.type))).filter fun m => m.isStatic || !target.isTypeRef

def callAccess (s : Setting) (nested : Nested) (target : Expr) (name : Token) (nullSafe : Bool) :
    ParseM Expr := do
  expect "(" "in method call"
  let args ← arguments nested ")"
  match callee? s.registry target name.text args with
  | some method =>
    let receiver := if method.isStatic && !target.isTypeRef then .typeRef method.declaringType else target
    return .call receiver method args nullSafe
  | none =>
    if (s.registry.methods target.type name.text).isEmpty then
      throw (name.fault (.noMethod target.type name.text))
    else throw (name.fault (.noOverload target.type name.text args.length))

/-- The property or field of the target; static members belong to types and the others to values. -/
def memberAccess (s : Setting) (target : Expr) (name : Token) (marker : Option Marker)
    (nullSafe : Bool) : ParseM Expr :=
  match (s.registry.member? target.type name.text).filter (·.isStatic == target.isTypeRef) with
  | some m => return .member target m marker nullSafe
  | none => throw (name.fault (.noPropertyOrField target.type name.text))

def memberSign? (token : Token) : Option (Option Marker × Bool) :=
  if token.isSymbol "." then some (none, false)
  else if token.isSymbol "?." then some (none, true)
  else if token.isSymbol "\\" then some (some .forced, false)
  else if token.isSymbol "/" then some (some .suppressed, false)
  else none

def access? (s : Setting) (nested : Nested) (target : Expr) : ParseM (Option Expr) := do
  let sign ← current
  if sign.isSymbol "[" then some <$> elementAccess s nested target none
  else
    match memberSign? sign with
    | none => return none
    | some (marker, nullSafe) =>
      advance
      let name ← current
      if marker.isSome && name.isSymbol "[" then some <$> elementAccess s nested target marker
      else if name.kind ≠ .ident then throw (name.fault .expectedMemberName)
      else
        advance
        if (← current).isSymbol "(" then some <$> callAccess s nested target name nullSafe
        else some <$> memberAccess s target name marker nullSafe

def accesses (s : Setting) (nested : Nested) : Nat → Expr → ParseM Expr
  | 0, e => return e
  | bound + 1, e => do
    match ← access? s nested e with
    | none => return e
    | some e => accesses s nested bound e

end DataBinding.Grammar
