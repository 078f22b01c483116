import DataBinding.Config.TypeDefs
import DataBinding.Expr.Key

/-!
# Documents of expressions

Expressions are written as documents that show all of their structure, for tools that generate code.
-/
namespace DataBinding.Export

def number (n : Nat) : Document := .number n 0

def optional {α : Type} (write : α → Document) : Option α → Document
  | some a => write a
  | none => .null

def variant (name : String) (fields : List (String × Document)) : Document :=
  .record [(name, .record fields)]

def ofType (t : TypeRef) : Document := .text t.display

def ofMemberKind : MemberKind → Document
  | .property => .text "Property"
  | .field => .text "Field"
  | .method => .text "Method"

def ofMember (m : Member) : Document := .record [
  ("name", .text m.name), ("kind", ofMemberKind m.kind), ("declaring_type", ofType m.declaringType),
  ("ty", ofType m.type), ("is_static", .bool m.isStatic), ("is_read_only", .bool m.isReadOnly),
  ("parameters", .list (m.parameters.map Config.ofParameter)),
  ("attributes", .list (m.attributes.map Config.ofAttribute))]

def ofConstant : Constant → Document
  | .null => .text "Null"
  | .bool value => .record [("Bool", .bool value)]
  | .number text => .record [("Number", .text text)]
  | .string value => .record [("String", .text value)]

def ofMarker : Option Marker → Document
  | some .forced => .bool true
  | some .suppressed => .bool false
  | none => .null

def unaryName : UnaryOp → String
  | .not => "Not"
  | .negate => "Negate"

def binaryName : BinaryOp → String
  | .add => "Add"
  | .sub => "Sub"
  | .mul => "Mul"
  | .mod => "Mod"
  | .lt => "Lt"
  | .le => "Le"
  | .gt => "Gt"
  | .ge => "Ge"
  | .eq => "Eq"
  | .ne => "Ne"
  | .and => "And"
  | .or => "Or"

/-- The name of a form, with the constant or operator that it has. -/
def formName : Form → String
  | .constant .null => "ConstantNull"
  | .constant (.bool _) => "ConstantBool"
  | .constant (.number _) => "ConstantNumber"
  | .constant (.string _) => "ConstantString"
  | .var _ => "Variable"
  | .typeRef => "Type"
  | .member _ _ _ => "Member"
  | .element _ _ => "ElementAccess"
  | .call _ _ => "Call"
  | .cast => "Cast"
  | .paren => "Paren"
  | .unary op => "Unary" ++ unaryName op
  | .binary op => "Binary" ++ binaryName op
  | .conditional => "Conditional"
  | .coalesce => "Coalesce"
  | .create => "New"
  | .typeOf _ => "Typeof"
  | .interpolated _ => "InterpolatedString"
  | .default => "Default"
  | .fallback _ => "Fallback"

def ofForm (form : Form) (operands : List Document) : Document :=
  let operand (i : Nat) : Document := operands[i]?.getD .null
  let rest (n : Nat) : Document := .list (operands.drop n)
  match form with
  | .constant value => .record [("Constant", ofConstant value)]
  | .var name => variant "Variable" [("name", .text name)]
  | .typeRef => .text "Type"
  | .member m marker nullSafe => variant "Member" [
      ("target", operand 0), ("member", ofMember m), ("notify", ofMarker marker),
      ("null_conditional", .bool nullSafe)]
  | .element m marker => variant "ElementAccess" [
      ("target", operand 0), ("indexer", ofMember m), ("args", rest 1), ("notify", ofMarker marker)]
  | .call m nullSafe => variant "Call" [
      ("target", operand 0), ("method", ofMember m), ("args", rest 1),
      ("null_conditional", .bool nullSafe)]
  | .cast => variant "Cast" [("expr", operand 0)]
  | .paren => variant "Paren" [("expr", operand 0)]
  | .unary op => variant "Unary" [("op", .text (unaryName op)), ("expr", operand 0)]
  | .binary op => variant "Binary" [
      ("op", .text (binaryName op)), ("lhs", operand 0), ("rhs", operand 1)]
  | .conditional => variant "Conditional" [
      ("test", operand 0), ("if_true", operand 1), ("if_false", operand 2)]
  | .coalesce => variant "Coalesce" [("lhs", operand 0), ("rhs", operand 1)]
  | .create => variant "New" [("args", rest 0)]
  | .typeOf t => variant "Typeof" [("operand", ofType t)]
  | .interpolated template => variant "InterpolatedString" [
      ("template", .text template), ("args", rest 0)]
  | .default => .text "Default"
  | .fallback index => variant "Fallback" [
      ("expr", operand 0), ("fallback", operand 1), ("local_index", number index)]

mutual

def ofExpr : Expr → Document
  | ⟨form, type, operands⟩ => .record [
      ("kind", ofForm form (ofExprs operands)), ("ty", ofType type),
      ("key", .text (form.key type (Expr.keys operands)))]

def ofExprs : List Expr → List Document
  | [] => []
  | e :: es => ofExpr e :: ofExprs es

end

end DataBinding.Export
