import DataBinding.Expr.Basic
import DataBinding.Text.Quoted

/-!
# Keys of expressions

The key of an expression is its written form in full: types are written where they matter, and operators
stand in parentheses. Expressions with the same key count as the same expression.
-/
namespace DataBinding
open Text

def Constant.key : Constant → String
  | .null => "null"
  | .bool true => "true"
  | .bool false => "false"
  | .number text => text
  | .string value => quoted value

/-- A text in which each placeholder is opened by a brace and a number: the key of the operand with that
number takes the number's place. The operands are filled in one after the other. -/
def fillTemplate (template : String) (keys : List String) : String :=
  let escaped := replaceAll ['"'] ['\\', '"'] template.toList
  String.ofList (keys.zipIdx.foldl
    (fun text (key, i) =>
      replaceAll ('\x7b' :: (toString i).toList) ('\x7b' :: key.toList) text)
    escaped)

/-- The written form of an expression whose operands have the given written forms. -/
def Form.key (form : Form) (type : TypeRef) (keys : List String) : String :=
  let operand (i : Nat) : String := keys.getD i ""
  let point (nullSafe : Bool) : String := if nullSafe then "?." else "."
  let commas (keys : List String) : String := ", ".intercalate keys
  match form with
  | .constant value => value.key
  | .var name => name
  | .typeRef => type.name
  | .member m _ nullSafe => operand 0 ++ point nullSafe ++ m.name
  | .element _ _ => operand 0 ++ "[" ++ commas (keys.drop 1) ++ "]"
  | .call m nullSafe =>
    operand 0 ++ point nullSafe ++ m.name ++ "(" ++ commas (keys.drop 1) ++ ")"
  | .cast => "((" ++ type.display ++ ")" ++ operand 0 ++ ")"
  | .paren => "(" ++ operand 0 ++ ")"
  | .unary .not => "(!" ++ operand 0 ++ ")"
  | .unary .negate => "(-" ++ operand 0 ++ ")"
  | .binary op => "(" ++ operand 0 ++ " " ++ op.symbol ++ " " ++ operand 1 ++ ")"
  | .conditional => "(" ++ operand 0 ++ " ? " ++ operand 1 ++ " : " ++ operand 2 ++ ")"
  | .coalesce => "(" ++ operand 0 ++ " ?? " ++ operand 1 ++ ")"
  | .create => "new " ++ type.name ++ "(" ++ commas keys ++ ")"
  | .typeOf t => "typeof(" ++ t.name ++ ")"
  | .interpolated template => "$\"" ++ fillTemplate template keys ++ "\""
  | .default => "default(" ++ type.display ++ ")"
  | .fallback index => "fallback" ++ toString index ++ "(" ++ operand 0 ++ ", " ++ operand 1 ++ ")"

namespace Expr

mutual

def key : Expr → String
  | ⟨form, type, operands⟩ => form.key type (keys operands)

def keys : List Expr → List String
  | [] => []
  | e :: es => e.key :: keys es

end

theorem keys_eq_map (es : List Expr) : keys es = es.map key := by
  induction es with
  | nil => rfl
  | cons e es ih => simp [keys, ih]

end Expr
end DataBinding
