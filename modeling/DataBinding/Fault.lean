import DataBinding.Metadata.TypeRef

/-!
# Faults of texts

A fault is a cause and, where it can be told, the piece of text at fault. All wording is in
`Cause.message`. Spans count bytes while a text is read and are turned into counts of characters by
`Fault.inCharacters`.
-/
namespace DataBinding
open Text

inductive FaultKind where
  /-- The text is malformed. -/
  | grammar
  /-- A name has no meaning, or no overload fits. -/
  | resolution
  /-- The text is well formed and has no meaning. -/
  | semantic
  deriving DecidableEq, Repr

def FaultKind.label : FaultKind → String
  | .grammar => "syntax error"
  | .resolution => "resolution error"
  | .semantic => "semantic error"

inductive Cause where
  | invalidNumber
  | unclosedString
  | invalidCharacter (c : Char)
  | unexpectedToken (text : String)
  | expected (text context : String)
  | expectedExpression
  | expectedMemberName
  | expectedTypeName
  | notBoolean (type : TypeRef)
  | noCommonType (left right : TypeRef)
  | operandsRejected (operator : String) (left right : TypeRef)
  | operandRejected (operator : String) (operand : TypeRef)
  | notIndexable (type : TypeRef)
  | indexerRejected (type : TypeRef)
  | noMethod (type : TypeRef) (name : String)
  | noOverload (type : TypeRef) (name : String) (arguments : Nat)
  | noPropertyOrField (type : TypeRef) (name : String)
  | noPropertyOrMethod (type : TypeRef) (name : String)
  | emptyDeclaration
  | malformedArgument
  | unknownArgument (name : String)
  | unclosedFormat
  | dataTypeUnresolved (name : String)
  | dataTypeRequired
  | noConverterType
  /-- The flag tells whether the declaration has its path already. -/
  | invalidMode (value : String) (pathKnown : Bool)
  | invalidBoolean (value : String)
  | noEvent (type : TypeRef) (name : String)
  | neitherPathNorBindBack
  | missingPath
  | notSettable
  | itemsSourceWithoutPath
  | other (kind : FaultKind) (message : String)
  deriving DecidableEq, Repr

def Cause.kind : Cause → FaultKind
  | .invalidNumber | .unclosedString | .invalidCharacter _ | .unexpectedToken _ | .expected _ _
  | .expectedExpression | .expectedMemberName | .emptyDeclaration | .malformedArgument
  | .unknownArgument _ | .unclosedFormat => .grammar
  | .expectedTypeName | .notIndexable _ | .indexerRejected _ | .noMethod _ _ | .noOverload _ _ _
  | .noPropertyOrField _ _ | .noPropertyOrMethod _ _ | .dataTypeUnresolved _ | .dataTypeRequired
  | .noConverterType | .noEvent _ _ => .resolution
  | .notBoolean _ | .noCommonType _ _ | .operandsRejected _ _ _ | .operandRejected _ _
  | .invalidMode _ _ | .invalidBoolean _ | .neitherPathNorBindBack | .missingPath | .notSettable
  | .itemsSourceWithoutPath => .semantic
  | .other kind _ => kind

def Cause.message : Cause → String
  | .invalidNumber => "invalid number"
  | .unclosedString => "unmatched quote in string literal"
  | .invalidCharacter c => "invalid character `" ++ c.toString ++ "`"
  | .unexpectedToken text => "unexpected `" ++ text ++ "`"
  | .expected text context => "expecting `" ++ text ++ "` " ++ context
  | .expectedExpression => "expecting expression"
  | .expectedMemberName => "expecting member name"
  | .expectedTypeName => "expecting type name"
  | .notBoolean type =>
    "Cannot implicitly convert type '" ++ type.display ++ "' to '" ++ WellKnown.boolean ++ "'."
  | .noCommonType left right =>
    "Type of conditional expression cannot be determined because there is no implicit conversion between '"
      ++ left.display ++ "' and '" ++ right.display ++ "'."
  | .operandsRejected operator left right =>
    "Operator '" ++ operator ++ "' cannot be applied to operands of type '" ++ left.display
      ++ "' and '" ++ right.display ++ "'."
  | .operandRejected operator operand =>
    "Operator '" ++ operator ++ "' cannot be applied to operand of type '" ++ operand.display ++ "'."
  | .notIndexable type =>
    "Cannot apply indexing with [] to an expression of type '" ++ type.display ++ "'."
  | .indexerRejected type =>
    "The indexer of type '" ++ type.display ++ "' does not accept these arguments."
  | .noMethod type name =>
    "The type " ++ type.display ++ " does not have method '" ++ name ++ "'."
  | .noOverload type name arguments =>
    "No overload for method '" ++ name ++ "' of type " ++ type.display ++ " takes "
      ++ toString arguments ++ " matching arguments."
  | .noPropertyOrField type name =>
    "The type " ++ type.display ++ " does not have property or field '" ++ name ++ "'."
  | .noPropertyOrMethod type name =>
    "The type " ++ type.display ++ " does not have property or method '" ++ name ++ "'."
  | .emptyDeclaration => "Missing expression."
  | .malformedArgument => "Syntax error."
  | .unknownArgument name => "Property " ++ name ++ " is not valid for a binding."
  | .unclosedFormat => "unmatched quote in StringFormat"
  | .dataTypeUnresolved name => "DataType '" ++ name ++ "' cannot be resolved."
  | .dataTypeRequired =>
    "DataType is unknown. It must be specified when binding inside a template."
  | .noConverterType => "No converter type is configured."
  | .invalidMode value pathKnown =>
    "Mode is invalid: " ++ value ++ "."
      ++ (if pathKnown then "" else " Use 'eq' instead of '=' to compare 'Mode' in expression.")
  | .invalidBoolean value => "Invalid boolean value: " ++ value
  | .noEvent type name => "The type " ++ type.display ++ " does not have event " ++ name ++ "."
  | .neitherPathNorBindBack => "Missing Path or BindBack expression."
  | .missingPath => "Missing expression."
  | .notSettable => "The expression must be settable for TwoWay or OneWayToSource bindings."
  | .itemsSourceWithoutPath => "IsItemsSource cannot be used for OneWayToSource bindings."
  | .other _ message => message

structure Fault where
  cause : Cause
  position : Option Nat
  length : Nat
  deriving DecidableEq, Repr

namespace Fault

def ofCause (cause : Cause) : Fault := ⟨cause, none, 0⟩

def spanning (cause : Cause) (position length : Nat) : Fault := ⟨cause, some position, length⟩

def kind (f : Fault) : FaultKind := f.cause.kind

def message (f : Fault) : String := f.cause.message

def withSpan (f : Fault) (position length : Nat) : Fault :=
  { f with position := some position, length }

/-- Moves the fault of a piece of text to the text in which the piece begins at `start`. A fault without
a place is put there. -/
def shift (f : Fault) (start : Nat) : Fault :=
  { f with position := some (f.position.getD 0 + start) }

def inCharacters (f : Fault) (source : List Char) : Fault :=
  match f.position with
  | none => f
  | some position =>
    let start := charsBefore position source
    let stop := charsBefore (position + f.length) source
    { f with position := some start, length := stop - start }

/-- The message with the source below it and carets under the place at fault. -/
def render (f : Fault) (source : String) : String :=
  let head := f.kind.label ++ ": " ++ f.message
  match f.position with
  | none => head
  | some position =>
    head ++ "\n  | " ++ source ++ "\n  | " ++ String.ofList (List.replicate position ' ')
      ++ String.ofList (List.replicate (max f.length 1) '^')

end Fault
end DataBinding
