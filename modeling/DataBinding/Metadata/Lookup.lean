import DataBinding.Metadata.Hierarchy

/-!
# Looking up members

A member is searched on the types of the lookup order; the first type that declares one decides. Arrays
have a length and an indexer of their own.
-/
namespace DataBinding.Registry

def lookupDefs (r : Registry) (t : TypeRef) : List TypeDef := (r.lookupOrder t).filterMap r.typeDef?

def arrayLength (t : TypeRef) : Member where
  name := "Length"
  kind := .property
  declaringType := t.withNullable false
  type := .named WellKnown.int32
  isReadOnly := true

def arrayIndexer (t element : TypeRef) : Member where
  name := "Item"
  kind := .property
  declaringType := t.withNullable false
  type := element
  parameters := [{ name := "index", type := .named WellKnown.int32 }]

/-- The property without parameters, or the field, of a name. -/
def member? (r : Registry) (t : TypeRef) (name : String) : Option Member :=
  if t.isArray then if name = "Length" then some (arrayLength t) else none
  else (r.lookupDefs t).findSome? (·.ownMember? name)

def indexer? (r : Registry) (t : TypeRef) : Option Member :=
  match t.element? with
  | some element => some (arrayIndexer t element)
  | none => (r.lookupDefs t).findSome? (·.ownIndexer?)

def methods (r : Registry) (t : TypeRef) (name : String) : List Member :=
  (r.lookupDefs t).flatMap (·.ownMethods name)

def fits (r : Registry) (parameters : List Parameter) (args : List TypeRef) : Bool :=
  (parameters.zip args).all fun (p, a) => r.isAssignable p.type a

/-- Does a method take these arguments? Parameters at the end may be left out as far as they are not
required. -/
def accepts (r : Registry) (method : Member) (args : List TypeRef) : Bool :=
  method.requiredParameters ≤ args.length && args.length ≤ method.parameters.length
    && r.fits method.parameters args

def method? (r : Registry) (t : TypeRef) (name : String) (args : List TypeRef) : Option Member :=
  (r.methods t name).find? (r.accepts · args)

def event? (r : Registry) (t : TypeRef) (name : String) : Option Event :=
  (r.lookupDefs t).findSome? (·.ownEvent? name)

end DataBinding.Registry
