/-!
# Lists as sets in order of first occurrence

Adding an element that is there already changes nothing, so a list built this way has no repetitions and
keeps the order in which its elements came first.
-/
namespace DataBinding

variable {α : Type} [BEq α]

def addDistinct (as : List α) (a : α) : List α :=
  if as.contains a then as else as ++ [a]

def addAllDistinct (as bs : List α) : List α := bs.foldl addDistinct as

def distinct (as : List α) : List α := addAllDistinct [] as

/-- The elements by their keys, the keys in order of first occurrence and the elements of one key in the
order of the list. -/
def groupsBy {β : Type} (key : β → α) (bs : List β) : List (α × List β) :=
  (distinct (bs.map key)).map fun k => (k, bs.filter fun b => key b == k)

def without (as removed : List α) : List α := as.filter fun a => !removed.contains a

end DataBinding
