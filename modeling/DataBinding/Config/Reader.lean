import DataBinding.Document

/-!
# Reading documents

A reader gives a value or nothing: what a document lacks is not said.
-/
namespace DataBinding.Config

variable {α : Type}

def required (read : Document → Option α) : Option Document → Option α
  | some d => read d
  | none => none

def optional (default : α) (read : Document → Option α) : Option Document → Option α
  | some d => read d
  | none => some default

def listOf (read : Document → Option α) (d : Document) : Option (List α) :=
  d.list?.bind (·.mapM read)

/-- Reads a value for which null stands when there is none. -/
def nullable (read : Document → Option α) : Document → Option (Option α)
  | .null => some none
  | d => (read d).map some

def ofNullable (write : α → Document) : Option α → Document
  | none => .null
  | some a => write a

end DataBinding.Config
