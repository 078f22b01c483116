/-!
# Finite directed graphs

A graph lists the successors of finitely many nodes; any other node has none. The depth-first traversal
visits a node before its successors and every node at most once, so it ends on cyclic graphs too.
-/
namespace DataBinding

structure Digraph (α : Type) where
  edges : List (α × List α)

namespace Digraph

variable {α : Type} [BEq α]

/-- Successors of a node; the first entry of a node counts. -/
def next (g : Digraph α) (a : α) : List α := (g.edges.lookup a).getD []

/-- Extends the visited nodes by a node and what is reachable from it, in depth-first order. -/
def visit (g : Digraph α) : Nat → List α → α → List α
  | 0, visited, a => if visited.contains a then visited else visited ++ [a]
  | depth + 1, visited, a =>
    if visited.contains a then visited
    else (g.next a).foldl (g.visit depth) (visited ++ [a])

def preorder (g : Digraph α) (roots : List α) : List α :=
  -- every descent enters a new node with successors, and such a node has an entry
  roots.foldl (g.visit g.edges.length) []

end Digraph
end DataBinding
