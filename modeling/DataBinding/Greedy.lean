/-!
# Greedy selection

Of a list in order of preference every element is taken that no element taken before it rules out.
-/
namespace DataBinding

variable {α : Type}

def takeUnlessRuledOut (rulesOut : α → α → Bool) (taken : List α) (a : α) : List α :=
  if taken.any (rulesOut · a) then taken else taken ++ [a]

/-- The elements that are taken from first to last. -/
def greedy (rulesOut : α → α → Bool) (as : List α) : List α :=
  as.foldl (takeUnlessRuledOut rulesOut) []

end DataBinding
