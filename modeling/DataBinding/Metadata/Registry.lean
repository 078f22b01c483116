import DataBinding.Metadata.TypeDef

/-!
# Registries of types

A registry holds type descriptions under distinct names. Type names written in a text are resolved against
it and against the markup namespaces in scope.
-/
namespace DataBinding
open Text

/-- A namespace declared in the markup, with the label that stands for it, if it has one. -/
structure MarkupNamespace where
  label : Option String
  name : String
  deriving DecidableEq, Repr

structure Registry where
  types : List TypeDef
  deriving Repr

namespace Registry

def empty : Registry := ⟨[]⟩

def size (r : Registry) : Nat := r.types.length

def typeDef? (r : Registry) (name : String) : Option TypeDef :=
  r.types.find? (·.name == name)

structure DuplicateType where
  name : String
  deriving DecidableEq, Repr

def DuplicateType.message (e : DuplicateType) : String :=
  "type " ++ e.name ++ " is already registered"

def add (r : Registry) (d : TypeDef) : Except DuplicateType Registry :=
  if (r.typeDef? d.name).isSome then .error ⟨d.name⟩ else .ok ⟨r.types ++ [d]⟩

def addAll (r : Registry) (ds : List TypeDef) : Except DuplicateType Registry :=
  ds.foldlM add r

def systemTypes : List TypeDef :=
  [{ name := WellKnown.object
     methods := [{ name := "ToString", returns := .named WellKnown.string }] },
   { name := WellKnown.string
     isSealed := true
     properties :=
       [{ name := "Length", type := .named WellKnown.int32, isReadOnly := true },
        { name := "Chars", type := .named WellKnown.char, isReadOnly := true,
          parameters := [{ name := "index", type := .named WellKnown.int32 }] }] },
   { name := WellKnown.notifyPropertyChanged
     kind := .interfaceType
     events := [{ name := "PropertyChanged", handler := .named WellKnown.propertyChangedHandler }] },
   { name := WellKnown.eventHandler, isSealed := true },
   { name := WellKnown.type },
   { name := WellKnown.task }] ++
  [WellKnown.boolean, WellKnown.char, WellKnown.int32, WellKnown.int64, WellKnown.single,
    WellKnown.double, WellKnown.decimal, WellKnown.void].map fun name =>
      { name, kind := .structType, isSealed := true }

def system : Registry := ⟨systemTypes⟩

structure FoundType where
  type : TypeRef
  via : Option MarkupNamespace
  deriving DecidableEq, Repr

def findIn? (r : Registry) (ns : MarkupNamespace) (name : String) : Option FoundType :=
  (r.typeDef? (ns.name ++ "." ++ name)).map fun d => ⟨d.ref, some ns⟩

/-- Resolves the name of a type that is no array. A keyword comes first; a label selects its namespace;
otherwise the full name, the namespaces without label in order, and the system namespace are tried. -/
def findSimple? (r : Registry) (namespaces : List MarkupNamespace) (name : String) :
    Option FoundType :=
  match WellKnown.fullName? name with
  | some full => some ⟨.named full, none⟩
  | none =>
    match cutAt? ':' name.toList with
    | some (label, rest) =>
      (namespaces.find? (·.label == some (String.ofList (trim label)))).bind fun ns =>
        r.findIn? ns (String.ofList (trim rest))
    | none =>
      match r.typeDef? name with
      | some d => some ⟨d.ref, none⟩
      | none =>
        match (namespaces.filter (·.label.isNone)).findSome? (r.findIn? · name) with
        | some found => some found
        | none => (r.typeDef? ("System." ++ name)).map fun d => ⟨d.ref, none⟩

/-- Splits the array brackets off a written type name and counts them. -/
def splitBrackets : Nat → List Char → List Char × Nat
  | 0, name => (trim name, 0)
  | bound + 1, name =>
    match before? ['[', ']'] (trim name) with
    | some element =>
      let (simple, rank) := splitBrackets bound element
      (simple, rank + 1)
    | none => (trim name, 0)

def findType? (r : Registry) (namespaces : List MarkupNamespace) (name : String) :
    Option FoundType :=
  let (simple, rank) := splitBrackets name.length name.toList
  (r.findSimple? namespaces (String.ofList simple)).map fun found =>
    { found with type := rank.repeat TypeRef.array found.type }

def resolveType? (r : Registry) (namespaces : List MarkupNamespace) (name : String) :
    Option TypeRef :=
  (r.findType? namespaces name).map (·.type)

end Registry
end DataBinding
