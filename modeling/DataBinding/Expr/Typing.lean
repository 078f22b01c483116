import DataBinding.Expr.Basic
import DataBinding.Metadata.Lookup

/-!
# Types of operators

The type that an operator gives to operands of given types, if it accepts them.
-/
namespace DataBinding

def numericResult (left right : TypeRef) : TypeRef :=
  let wider := [WellKnown.decimal, WellKnown.double, WellKnown.single, WellKnown.int64]
  let name := (wider.find? fun n => left.is n || right.is n).getD WellKnown.int32
  ⟨name, left.nullable || right.nullable⟩

/-- Addition also joins a text with anything; equality wants one side to be assignable to the other. -/
def BinaryOp.resultType? (r : Registry) (op : BinaryOp) (left right : TypeRef) : Option TypeRef :=
  let numeric := left.isNumeric && right.isNumeric
  match op with
  | .add =>
    if left.is WellKnown.string || right.is WellKnown.string then some .string
    else if numeric then some (numericResult left right) else none
  | .sub | .mul | .mod => if numeric then some (numericResult left right) else none
  | .lt | .le | .gt | .ge => if numeric then some .boolean else none
  | .eq | .ne =>
    if numeric || r.isAssignable left right || r.isAssignable right left then some .boolean else none
  | .and | .or =>
    if left.is WellKnown.boolean && right.is WellKnown.boolean then some .boolean else none

def conditionalType? (r : Registry) (ifTrue ifFalse : TypeRef) : Option TypeRef :=
  if ifTrue.is ifFalse.name then some (ifTrue.withNullable (ifTrue.nullable || ifFalse.nullable))
  else if ifTrue.isNull then some (ifFalse.withNullable true)
  else if ifFalse.isNull then some (ifTrue.withNullable true)
  else if r.isAssignable ifTrue ifFalse then some ifTrue
  else if r.isAssignable ifFalse ifTrue then some ifFalse
  else none

/-- The type of a value or, when it is null, of a replacement. A value that is never null is refused. -/
def coalesceType? (r : Registry) (left right : TypeRef) : Option TypeRef :=
  if r.isValueType left && !left.nullable then none
  else if right.isNull then some left
  else if r.isAssignable (left.withNullable false) right then some (left.withNullable right.nullable)
  else if r.isAssignable right (left.withNullable false) then some right
  else none

end DataBinding
