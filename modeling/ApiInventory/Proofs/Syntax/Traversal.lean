import ApiInventory.Syntax.Cursor

/-!
# A search comes to every node

A cursor that is moved on from the root until it can go no further stands once on every node of the
tree, in the order of the text (`walk_ofRoot`). The moves are few and know nothing of each other:
one goes down, one goes to the side, and one goes up, as often as it takes. What carries the proof
is what the cursor has still to come to (`Cursor.remaining`), of which each move takes off the
node that it leaves. A search is as good as a test of all the nodes, one after the other
(`finds_ofRoot`).
-/

namespace ApiInventory.Syntax

namespace Cursor

/-- Where a cursor stands, one after the other, when it is moved on to the end. -/
def walk (c : Cursor) : List Cursor :=
  c ::
    match _h : c.next? with
    | some d => d.walk
    | none => []
termination_by c.remaining.length
decreasing_by exact remaining_length_lt (by assumption)

theorem walk_eq (c : Cursor) : c.walk = c :: (c.next?.map walk).getD [] := by
  rw [walk]
  split <;> rename_i onward <;> rw [onward] <;> rfl

/-- The search stops at the first cursor of the walk that passes the test. -/
theorem finds_eq_any (test : Cursor → Bool) (c : Cursor) : c.finds test = c.walk.any test := by
  fun_induction finds test c with
  | case1 c found => rw [walk_eq, List.any_cons, found, Bool.true_or]
  | case2 c found d onward ih =>
      rw [walk_eq, List.any_cons, onward, Option.map_some, Option.getD_some, ← ih,
        Bool.eq_false_iff.mpr found, Bool.false_or]
  | case3 c found stuck =>
      rw [walk_eq, List.any_cons, stuck, Bool.eq_false_iff.mpr found]
      rfl

theorem map_position_walk (c : Cursor) : c.walk.map position = c.remaining := by
  fun_induction walk c with
  | case1 c ih =>
      rw [remaining_eq, List.map_cons]
      congr 1
      split
      · rename_i d onward
        rw [onward, ih d onward]
        rfl
      · rename_i stuck
        rw [stuck]
        rfl

theorem remaining_ofRoot (root : Node) : (ofRoot root).remaining = root.preorder [] := by
  simp [remaining, ofRoot, behind]

/-- A cursor that is moved on from the root comes once to every node. -/
theorem walk_ofRoot (root : Node) : (ofRoot root).walk.map position = root.preorder [] := by
  rw [map_position_walk, remaining_ofRoot]

/-- A test that looks only at a node and those above it is made of every node of the tree. -/
theorem finds_ofRoot {test : Cursor → Bool} {sees : List Node × Node → Bool}
    (looks : ∀ c, test c = sees c.position) (root : Node) :
    (ofRoot root).finds test = (root.preorder []).any sees := by
  rw [finds_eq_any, ← walk_ofRoot, List.any_map]
  congr 1
  exact funext looks

end Cursor

end ApiInventory.Syntax
