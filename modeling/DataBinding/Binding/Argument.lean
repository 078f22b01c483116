import DataBinding.Binding.Basic
import DataBinding.Binding.Segment
import DataBinding.Grammar.Expression
import DataBinding.Metadata.Lookup

/-!
# Arguments of declarations

A declaration is read into the list of its arguments. The first argument without a name is the path.
-/
namespace DataBinding
open Text

inductive Role where
  | path
  | bindBack
  | converter
  | converterParameter
  | fallback
  | targetNull
  deriving DecidableEq, Repr

namespace Role

def all : List Role := [.path, .bindBack, .converter, .converterParameter, .fallback, .targetNull]

def name : Role → String
  | .path => "Path"
  | .bindBack => "BindBack"
  | .converter => "Converter"
  | .converterParameter => "ConverterParameter"
  | .fallback => "FallbackValue"
  | .targetNull => "TargetNullValue"

def ofName? (name : String) : Option Role := all.find? (·.name == name)

def admitsResource : Role → Bool
  | .path | .bindBack => false
  | _ => true

end Role

inductive Argument where
  | expression (role : Role) (expr : Expr) (start : Nat) (namespaces : List MarkupNamespace)
      (resource : Option Resource)
  | format (text : String)
  | mode (mode : BindingMode)
  | events (events : List Event)
  /-- The data type is looked up before the arguments are read. -/
  | dataType (name : String)
  | itemsSource (value : Bool)
  deriving Repr

namespace Argument

def isPath : Argument → Bool
  | .expression .path _ _ _ _ => true
  | _ => false

/-- The truth value of a word, in upper or lower case. -/
def boolean? (word : List Char) : Option Bool :=
  match String.ofList (word.map Char.toLower) with
  | "true" => some true
  | "false" => some false
  | _ => none

structure Setting where
  context : Context
  site : Site
  /-- The type that the paths of the declaration start from. -/
  sourceType : TypeRef

namespace Setting

variable (s : Setting)

def grammar : Grammar.Setting where
  registry := s.context.registry
  root := Grammar.rootExpr s.sourceType s.context.rootName false
  expected := some s.site.memberType
  namespaces := s.site.namespaces

/-- The type of a resource by its use; there need not be one for converters. -/
def resourceType? : Role → Option TypeRef
  | .converter => s.context.converterType
  | .fallback | .targetNull => some s.site.memberType
  | _ => some .object

/-- The access to a resource as a field of the root of the markup. -/
def resourceExpr (resource : Resource) : Expr :=
  .member (.var "_targetRoot" s.context.targetType)
    { name := resource.name, kind := .field, declaringType := s.context.targetType,
      type := resource.type }
    none false

end Setting

variable (s : Setting)

def readExpr (role : Role) (p : Place) : Except Fault (Argument × Place) :=
  match if role.admitsResource then Segment.resource? p.rest else none with
  | some (name, rest) =>
    match s.resourceType? role with
    | some type =>
      let resource : Resource := ⟨String.ofList name, type⟩
      .ok (.expression role (s.resourceExpr resource) p.offset [] (some resource), p.moveTo rest)
    | none => .error (p.fault .noConverterType (byteLength p.rest - byteLength rest))
  | none =>
    match Grammar.parseBytes s.grammar p.rest false with
    | .ok parsed =>
      .ok (.expression role parsed.expr p.offset parsed.namespaces none,
        p.moveTo (dropBytes parsed.stop p.rest))
    | .error fault => .error (fault.shift p.offset)

/-- Reads an expression or a resource and the comma behind it, which only the end replaces. -/
def readValue (role : Role) (p : Place) : Except Fault (Argument × Place) := do
  let (argument, next) ← readExpr s role p
  let next := next.skipBlanks
  if next.rest.isEmpty || next.rest.head? == some ',' then return (argument, next.skipComma)
  else throw (next.fault .malformedArgument 1)

def readMode (pathKnown : Bool) (p : Place) : Except Fault (Argument × Place) :=
  let (value, next) := Segment.plainValue p
  match BindingMode.ofName? (String.ofList value) with
  | some m => .ok (.mode m, next)
  | none => .error (p.fault (.invalidMode (String.ofList value) pathKnown) (byteLength value))

def readItemsSource (p : Place) : Except Fault (Argument × Place) :=
  let (value, next) := Segment.plainValue p
  match boolean? value with
  | some b => .ok (.itemsSource b, next)
  | none => .error (p.fault (.invalidBoolean (String.ofList value)) (byteLength value))

def readEvents (p : Place) : Except Fault (Argument × Place) := do
  let (value, next) := Segment.plainValue p
  let type := s.site.object.type
  let found ← (splitAt '|' value).mapM fun piece =>
    let name := String.ofList (trim piece)
    match s.context.registry.event? type name with
    | some event => .ok event
    | none => .error (p.fault (.noEvent type name) (byteLength value))
  return (.events found, next)

def readNamed (pathKnown : Bool) (name : List Char) (start value : Place) :
    Except Fault (Argument × Place) := do
  match Role.ofName? (String.ofList name) with
  | some .path =>
    if pathKnown then throw (start.fault .malformedArgument (byteLength name))
    else readValue s .path value
  | some role => readValue s role value
  | none =>
    match String.ofList name with
    | "StringFormat" =>
      let (text, next) ← Segment.formatValue value
      return (.format (String.ofList text), next)
    | "Mode" => readMode pathKnown value
    | "IsItemsSource" => readItemsSource value
    | "UpdateSourceEventNames" => readEvents s value
    | "DataType" =>
      let (name, next) := Segment.plainValue value
      return (.dataType (String.ofList name), next)
    | name => throw (start.fault (.unknownArgument name) name.utf8ByteSize)

def read (pathKnown : Bool) (p : Place) : Except Fault (Argument × Place) :=
  match Segment.named? p.rest with
  | some (name, value) => readNamed s pathKnown name p (p.moveTo value)
  | none =>
    if pathKnown then .error (p.fault .malformedArgument 1) else readValue s .path p

def readAll : Nat → Bool → Place → Except Fault (List Argument)
  | 0, _, _ => return []
  | bound + 1, pathKnown, p => do
    let p := p.skipBlanks
    if p.rest.isEmpty then return []
    else
      let (argument, next) ← read s pathKnown p
      return argument :: (← readAll bound (pathKnown || argument.isPath) next)

def ofText (text : List Char) : Except Fault (List Argument) :=
  -- every argument takes a character at least
  readAll s text.length false ⟨0, text⟩

end Argument
end DataBinding
