import DataBinding.Expr.Key

/-!
# Walks over expressions

The nodes of an expression are listed before their operands. Replacing a key changes the outermost nodes
that have it and leaves the types of all nodes around them as they are.
-/
namespace DataBinding.Expr

mutual

/-- The expression and all expressions in it, each before its operands. -/
def nodes : Expr → List Expr
  | ⟨form, type, operands⟩ => ⟨form, type, operands⟩ :: nodesAll operands

def nodesAll : List Expr → List Expr
  | [] => []
  | e :: es => e.nodes ++ nodesAll es

end

theorem nodesAll_eq_flatMap (es : List Expr) : nodesAll es = es.flatMap nodes := by
  induction es with
  | nil => rfl
  | cons e es ih => simp [nodesAll, ih]

def size (e : Expr) : Nat := e.nodes.length

def containsKey (e : Expr) (key : String) : Bool := e.nodes.any (·.key == key)

mutual

def eagerNodes : Expr → List Expr
  | ⟨form, type, operands⟩ =>
    ⟨form, type, operands⟩ :: eagerNodesOf (form.eagerCount operands.length) operands

def eagerNodesOf : Nat → List Expr → List Expr
  | _, [] => []
  | 0, _ :: _ => []
  | count + 1, e :: es => e.eagerNodes ++ eagerNodesOf count es

end

theorem eagerNodesOf_eq_flatMap (count : Nat) (es : List Expr) :
    eagerNodesOf count es = (es.take count).flatMap eagerNodes := by
  induction es generalizing count with
  | nil => simp [eagerNodesOf]
  | cons e es ih =>
    cases count with
    | zero => simp [eagerNodesOf]
    | succ count => simp [eagerNodesOf, ih]

mutual

/-- Replaces every outermost node with the key. -/
def replaceKey (old : String) (new : Expr) : Expr → Expr
  | ⟨form, type, operands⟩ =>
    if form.key type (keys operands) = old then new
    else ⟨form, type, replaceKeyAll old new operands⟩

def replaceKeyAll (old : String) (new : Expr) : List Expr → List Expr
  | [] => []
  | e :: es => replaceKey old new e :: replaceKeyAll old new es

end

theorem replaceKeyAll_eq_map (old : String) (new : Expr) (es : List Expr) :
    replaceKeyAll old new es = es.map (replaceKey old new) := by
  induction es with
  | nil => rfl
  | cons e es ih => simp [replaceKeyAll, ih]

def replace (old new e : Expr) : Expr := replaceKey old.key new e

end DataBinding.Expr
