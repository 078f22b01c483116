/-!
# Sorting by insertion

Sorting is stable: elements that the order does not tell apart keep their places relative to each other.
-/
namespace DataBinding

variable {α : Type}

def insertBy (le : α → α → Bool) (a : α) : List α → List α
  | [] => [a]
  | b :: bs => if le a b then a :: b :: bs else b :: insertBy le a bs

def sortBy (le : α → α → Bool) (as : List α) : List α := as.foldr (insertBy le) []

/-- The names in the order of their code points. -/
def sortNames (names : List String) : List String :=
  sortBy (fun a b => decide (a ≤ b)) names

end DataBinding
