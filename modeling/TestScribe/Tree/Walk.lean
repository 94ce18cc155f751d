import TestScribe.Tree

/-!
# Walking a tree

`leaves` lists the ends of the tests in depth-first order, `breadthFirst` all nodes but the root level
by level, and `pathTo` the nodes from below the root down to a given one. Each walk visits a node at
most once, so the number of nodes bounds its length.
-/

namespace TestScribe.ExecutionTree

/-- Visit the nodes of a stack, the top first, each leaf being listed and each other node replaced by
its children. -/
def leavesFrom (t : ExecutionTree) : Nat → List NodeId → List NodeId
  | 0, _ => []
  | _, [] => []
  | fuel + 1, id :: stack =>
    match t.childrenOf id with
    | [] => id :: t.leavesFrom fuel stack
    | children => t.leavesFrom fuel (children ++ stack)

/-- The leaves in depth-first order, without the root; each ends one test. -/
def leaves (t : ExecutionTree) : List NodeId :=
  t.leavesFrom t.size (t.childrenOf root)

/-- List the nodes of a queue, the first first, its children joining at the end. -/
def queueFrom (t : ExecutionTree) : Nat → List NodeId → List NodeId
  | 0, _ => []
  | _, [] => []
  | fuel + 1, id :: queue => id :: t.queueFrom fuel (queue ++ t.childrenOf id)

/-- Every node but the root, level by level. -/
def breadthFirst (t : ExecutionTree) : List NodeId :=
  t.queueFrom t.size (t.childrenOf root)

/-- The nodes from below the root down to `id`. -/
def ancestry (t : ExecutionTree) : Nat → NodeId → List NodeId
  | 0, _ => []
  | fuel + 1, id =>
    match (t.node? id).bind Node.parent with
    | some parent => t.ancestry fuel parent ++ [id]
    | none => []

/-- The path from below the root to a node; empty for the root itself. -/
def pathTo (t : ExecutionTree) (id : NodeId) : Except TreeError (List NodeId) :=
  if id < t.size then .ok (t.ancestry t.size id) else .error (.unknownNode id)

end TestScribe.ExecutionTree
