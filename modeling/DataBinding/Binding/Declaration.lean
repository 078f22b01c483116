import DataBinding.Binding.Argument
import DataBinding.Binding.Format
import DataBinding.Distinct

/-!
# Declarations of bindings

A declaration means a binding, or has a fault. The value of the target is the path, wrapped from the
inside out by the call of the converter, the replacement of null, the fallback and the format, as far as
the declaration gives them.
-/
namespace DataBinding
open Text

namespace Declaration

def last? {α : Type} (f : Argument → Option α) (as : List Argument) : Option α :=
  as.reverse.findSome? f

def placed? (role : Role) (as : List Argument) : Option (Expr × Nat) :=
  last? (fun | .expression r e start _ _ => if r = role then some (e, start) else none
             | _ => none) as

def expr? (role : Role) (as : List Argument) : Option Expr := (placed? role as).map (·.1)

def format? (as : List Argument) : Option String :=
  last? (fun | .format text => some text
             | _ => none) as

def mode? (as : List Argument) : Option BindingMode :=
  last? (fun | .mode m => some m
             | _ => none) as

def isItemsSource (as : List Argument) : Bool :=
  (last? (fun | .itemsSource b => some b
              | _ => none) as).getD false

def events (as : List Argument) : List Event :=
  distinct (as.flatMap fun | .events es => es
                           | _ => [])

def namespaces (as : List Argument) : List MarkupNamespace :=
  distinct (as.flatMap fun | .expression _ _ _ nss _ => nss
                           | _ => [])

def resources (as : List Argument) : List Resource :=
  as.filterMap fun | .expression _ _ _ _ resource => resource
                   | _ => none

def impliesTwoWay (as : List Argument) : Bool :=
  as.any fun | .expression .bindBack _ _ _ _ => true
             | .events _ => true
             | _ => false

/-- The declared data type and whether there is one, and the type that paths start from. -/
def sourceType (c : Context) (site : Site) (text : List Char) :
    Except Fault (Option TypeRef × Bool × TypeRef) :=
  match Segment.dataType? text with
  | some name =>
    let name := String.ofList name
    match c.registry.resolveType? site.namespaces name with
    | some type => .ok (some type, true, type)
    | none =>
      if c.requireDataType then .error (.ofCause (.dataTypeUnresolved name))
      else .ok (none, true, c.targetType)
  | none =>
    if c.requireDataType then .error (.ofCause .dataTypeRequired)
    else .ok (none, false, c.sourceType)

/-- The mode of a binding. Without a path it can only write back. -/
def mode (default : BindingMode) (as : List Argument) : Except Fault BindingMode :=
  match expr? .path as, expr? .bindBack as, mode? as with
  | none, none, _ => .error (.ofCause .neitherPathNorBindBack)
  | none, some _, none | none, some _, some .oneWayToSource => .ok .oneWayToSource
  | none, some _, some _ => .error (.ofCause .missingPath)
  | some _, _, some m => .ok m
  | some _, _, none => .ok (if impliesTwoWay as then .twoWay else default)

def checkSettable (mode : BindingMode) (textLength : Nat) (as : List Argument) : Except Fault Unit :=
  let fault := Fault.ofCause .notSettable
  if !mode.writesBack then .ok ()
  else
    match expr? .bindBack as, placed? .path as with
    | some back, _ => if back.isSettable then .ok () else .error fault
    | none, some (path, start) =>
      if path.isSettable then .ok () else .error (fault.withSpan start (textLength - start))
    | none, none => .error fault

def checkItemsSource (as : List Argument) : Except Fault Unit :=
  if isItemsSource as && (expr? .path as).isNone then .error (.ofCause .itemsSourceWithoutPath)
  else .ok ()

/-- Calls the converter, if there is one, and casts its result to the type of the target. -/
def converted (c : Context) (site : Site) (as : List Argument) (e : Expr) : Except Fault Expr :=
  match expr? .converter as with
  | none => .ok e
  | some converter =>
    match (c.registry.methods converter.type "Convert").head? with
    | none => .error (.ofCause (.noMethod converter.type "Convert"))
    | some convert =>
      let parameter := (expr? .converterParameter as).getD .null
      let call := Expr.call converter convert [e, .typeOf site.memberType, parameter, .null] false
      .ok (if site.memberType.is WellKnown.object then call else .cast call site.memberType)

def withoutNull (as : List Argument) (e : Expr) : Expr :=
  match expr? .targetNull as with
  | none => e
  | some value => .coalesce e value (e.type.withNullable false)

/-- Adds the fallback with its number, unless the value is a task. -/
def withFallback (c : Context) (as : List Argument) (number : Nat) (e : Expr) : Expr × Nat :=
  match expr? .fallback as with
  | none => (e, number)
  | some value =>
    if c.registry.isAssignable (.named WellKnown.task) e.type then (e, number)
    else (.fallback e value number, number + 1)

def formatted (as : List Argument) (e : Expr) : Expr :=
  match format? as with
  | none => e
  | some format => .interpolated (Format.template format) [e]

/-- Takes numbers for fallbacks from a counter. A fault does not put back what was taken before it. -/
abbrev NumberM := ExceptT Fault (StateM Nat)

def value (c : Context) (site : Site) (as : List Argument) : NumberM (Option Expr) :=
  match expr? .path as with
  | none => return none
  | some path => do
    let e ← converted c site as path
    let e ← modifyGet fun number => withFallback c as number (withoutNull as e)
    return some (formatted as e)

def binding (c : Context) (site : Site) (text : List Char) : NumberM Binding :=
  if text.isEmpty then throw (.ofCause .emptyDeclaration)
  else do
    let (dataType, dataTypeSet, sourceType) ← sourceType c site text
    let as ← Argument.ofText ⟨c, site, sourceType⟩ text
    let mode ← mode c.defaultMode as
    checkSettable mode (byteLength text) as
    checkItemsSource as
    let value ← value c site as
    return {
      site, dataType, dataTypeSet, mode, value,
      path := expr? .path as, bindBack := expr? .bindBack as, converter := expr? .converter as,
      converterParameter := expr? .converterParameter as, fallback := expr? .fallback as,
      targetNull := expr? .targetNull as, format := format? as, isItemsSource := isItemsSource as,
      events := events as, resources := resources as, namespaces := namespaces as }

end Declaration

namespace Binding

/-- Reads the binding of a site with a counter for fallbacks. Blanks at the end of the declaration do not
count; faults count characters. -/
def read (c : Context) (site : Site) (number : Nat) : Except Fault Binding × Nat :=
  let text := trimEnd site.text.toList
  let (result, next) := (Declaration.binding c site text).run.run number
  (result.mapError (·.inCharacters text), next)

def ofSite (c : Context) (site : Site) (number : Nat) : Except Fault (Binding × Nat) :=
  let (result, next) := read c site number
  result.map (·, next)

end Binding

end DataBinding
