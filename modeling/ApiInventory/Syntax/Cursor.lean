import ApiInventory.Syntax.Node

/-!
# A cursor in a syntax tree

A cursor stands on one node and can be moved to its first child, its next sibling or its
parent. A tree is searched by moving it on from node to node, in the order of the text:
down while there are children, else up to the first node that has a sibling.
-/

namespace ApiInventory.Syntax

namespace Node

mutual

/-- The nodes of a tree in the order of the text, each behind the nodes that are above it,
its parent first. -/
def preorder (above : List Node) : Node → List (List Node × Node)
  | .token k n r t => [(above, .token k n r t)]
  | .group k n r cs =>
    (above, .group k n r cs) :: preorderAll (.group k n r cs :: above) cs

def preorderAll (above : List Node) : List Node → List (List Node × Node)
  | [] => []
  | c :: cs => preorder above c ++ preorderAll above cs

end

@[simp] theorem preorderAll_eq_flatMap (above : List Node) (cs : List Node) :
    preorderAll above cs = cs.flatMap (preorder above) := by
  induction cs with
  | nil => rfl
  | cons c cs ih => rw [preorderAll, ih, List.flatMap_cons]

theorem preorder_eq (above : List Node) (n : Node) :
    n.preorder above = (above, n) :: n.children.flatMap (preorder (n :: above)) := by
  cases n with
  | token => rfl
  | group => rw [preorder, preorderAll_eq_flatMap, children_group]

end Node

/-- A node of a tree, the siblings behind it, and the nodes above it, its parent first, each
with the siblings behind that one. -/
structure Cursor where
  node : Node
  following : List Node
  above : List (Node × List Node)

namespace Cursor

def ofRoot (root : Node) : Cursor := ⟨root, [], []⟩

/-! ## Moves -/

def firstChild? (c : Cursor) : Option Cursor :=
  match c.node.children with
  | [] => none
  | first :: others => some ⟨first, others, (c.node, c.following) :: c.above⟩

def nextSibling? (c : Cursor) : Option Cursor :=
  match c.following with
  | [] => none
  | next :: others => some ⟨next, others, c.above⟩

def parent? (c : Cursor) : Option Cursor :=
  match c.above with
  | [] => none
  | (parent, following) :: above => some ⟨parent, following, above⟩

theorem parent?_lt {c d : Cursor} (h : c.parent? = some d) : d.above.length < c.above.length := by
  unfold parent? at h
  split at h
  · cases h
  · rename_i same
    cases h
    rw [same]
    exact Nat.lt_succ_self _

/-- The next sibling of the node, or else of the closest node above it that has one. -/
def siblingAbove? (c : Cursor) : Option Cursor :=
  match c.nextSibling? with
  | some d => some d
  | none =>
    match _h : c.parent? with
    | some p => p.siblingAbove?
    | none => none
termination_by c.above.length
decreasing_by exact parent?_lt (by assumption)

def next? (c : Cursor) : Option Cursor :=
  match c.firstChild? with
  | some d => some d
  | none => c.siblingAbove?

/-! ## What is still to come -/

/-- The nodes above the cursor, and its node. -/
def position (c : Cursor) : List Node × Node := (c.above.map Prod.fst, c.node)

/-- What comes behind the trees below some nodes that stand one above the other. -/
def behind : List (Node × List Node) → List (List Node × Node)
  | [] => []
  | (_, following) :: above =>
    following.flatMap (Node.preorder (above.map Prod.fst)) ++ behind above

/-- What a cursor comes to when it is moved on to the end: its node, what is below it, and
what comes behind. -/
def remaining (c : Cursor) : List (List Node × Node) :=
  c.node.preorder (c.above.map Prod.fst) ++ behind ((c.node, c.following) :: c.above)

theorem behind_eq_of_siblingAbove? (c : Cursor) :
    behind ((c.node, c.following) :: c.above) = (c.siblingAbove?.map remaining).getD [] := by
  obtain ⟨node, following, above⟩ := c
  induction above generalizing node following with
  | nil =>
      rw [siblingAbove?]
      cases following with
      | nil => simp [nextSibling?, parent?, behind]
      | cons next others => simp [nextSibling?, remaining, behind]
  | cons parent above ih =>
      rw [siblingAbove?]
      cases following with
      | nil =>
          simp only [nextSibling?, parent?]
          rw [← ih parent.1 parent.2, behind, List.flatMap_nil, List.nil_append]
      | cons next others => simp [nextSibling?, remaining, behind]

/-- One move takes off the node that the cursor stood on, and nothing else. -/
theorem remaining_eq (c : Cursor) :
    c.remaining = c.position :: (c.next?.map remaining).getD [] := by
  rw [remaining, Node.preorder_eq, List.cons_append, next?, position]
  congr 1
  rcases children : c.node.children with _ | ⟨first, others⟩
  · simp only [firstChild?, children, List.flatMap_nil, List.nil_append]
    exact behind_eq_of_siblingAbove? c
  · simp [firstChild?, children, remaining, behind]

theorem remaining_length_lt {c d : Cursor} (h : c.next? = some d) :
    d.remaining.length < c.remaining.length := by
  rw [remaining_eq c, h]
  exact Nat.lt_succ_self _

/-! ## Search -/

/-- Whether the cursor passes the test on its node or on a node that it is moved on to. -/
def finds (test : Cursor → Bool) (c : Cursor) : Bool :=
  if test c then true
  else
    match _h : c.next? with
    | some d => d.finds test
    | none => false
termination_by c.remaining.length
decreasing_by exact remaining_length_lt (by assumption)

end Cursor

end ApiInventory.Syntax
