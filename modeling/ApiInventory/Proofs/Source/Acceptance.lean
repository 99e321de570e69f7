import ApiInventory.Proofs.Syntax.Traversal
import ApiInventory.Source.Declarations
import Mathlib.Tactic.SplitIfs

/-!
# Which trees are accepted

A tree is turned down exactly if one of its nodes is legacy, whatever that node is, named or not,
and however deep it stands. What makes a node legacy is read off the node and its parent alone
(`IsLegacyNode`).

There are three ways to ask for such a node, and they agree: a cursor is moved through the tree, as
it is done when a source is read (`containsLegacy`); a recursion asks each node and its children
(`hasLegacy`); or one is said to be somewhere in the tree (`Occurs`). The cursor has every node on
its way, each as often as it stands in the tree (`Searched.visited`), so that no part of the tree is
missed.
-/

namespace ApiInventory.Source

open Syntax (Node Cursor)

/-! ## Nodes of a tree -/

/-- A node stands in a tree, below the nodes that are listed, its parent first. -/
inductive Occurs (root : Node) : List Node → Node → Prop
  | root : Occurs root [] root
  | child {above : List Node} {parent n : Node} (occurs : Occurs root above parent)
      (member : n ∈ parent.children) : Occurs root (parent :: above) n

/-- The kind of the parent below the nodes that are listed. -/
def parentKind (above : List Node) : Option String := above.head?.map Node.kind

variable {root n : Node} {above : List Node}

theorem occurs_of_mem_preorder (n : Node) {above : List Node} (occurs : Occurs root above n)
    {q : List Node × Node} (member : q ∈ n.preorder above) : Occurs root q.1 q.2 := by
  rw [Node.preorder_eq] at member
  rcases List.mem_cons.mp member with rfl | below
  · exact occurs
  · obtain ⟨c, child, found⟩ := List.mem_flatMap.mp below
    exact occurs_of_mem_preorder c (occurs.child child) found
termination_by sizeOf n
decreasing_by exact Node.sizeOf_lt_of_mem_children child

/-- With a node, its children are listed. -/
theorem mem_preorder_child {parent c : Node} {higher : List Node} (child : c ∈ parent.children)
    (n : Node) {above : List Node} (member : (higher, parent) ∈ n.preorder above) :
    (parent :: higher, c) ∈ n.preorder above := by
  rw [Node.preorder_eq] at member ⊢
  apply List.mem_cons_of_mem
  rcases List.mem_cons.mp member with here | below
  · cases here
    refine List.mem_flatMap.mpr ⟨c, child, ?_⟩
    rw [Node.preorder_eq]
    exact List.mem_cons_self
  · obtain ⟨d, inside, found⟩ := List.mem_flatMap.mp below
    exact List.mem_flatMap.mpr ⟨d, inside, mem_preorder_child child d found⟩
termination_by sizeOf n
decreasing_by exact Node.sizeOf_lt_of_mem_children inside

/-- The nodes of a tree, listed in the order of the text, are those that stand in it. -/
theorem mem_preorder_iff : (above, n) ∈ root.preorder [] ↔ Occurs root above n := by
  constructor
  · intro member
    exact occurs_of_mem_preorder root .root member
  · intro occurs
    induction occurs with
    | root =>
        rw [Node.preorder_eq]
        exact List.mem_cons_self
    | child occurs child ih => exact mem_preorder_child child root ih

theorem standsOnLegacy_eq (c : Cursor) :
    standsOnLegacy c = isLegacy (parentKind c.position.1) c.position.2 := by
  obtain ⟨node, following, above⟩ := c
  cases above <;> rfl

theorem containsLegacy_eq_any (root : Node) :
    containsLegacy root = (root.preorder []).any fun q => isLegacy (parentKind q.1) q.2 :=
  Cursor.finds_ofRoot standsOnLegacy_eq root

/-! ## Legacy nodes -/

/-- The characters of an integer that count. -/
def significant (literal : String) : List Char := literal.toList.filter (· != '_')

/-- A decimal integer that is not zero, with a zero in front. -/
def HasLeadingZero (literal : String) : Prop :=
  ∃ digits, significant literal = '0' :: digits ∧ (∀ c ∈ digits, c.isDigit) ∧
    ∃ c ∈ digits, c ≠ '0'

/-- An integer with the suffix of a long one. -/
def HasLongSuffix (literal : String) : Prop :=
  ∃ front last, significant literal = front ++ [last] ∧ (last = 'l' ∨ last = 'L')

/-- A legacy node, below the nodes that are listed, of which only the first counts: its parent. -/
inductive IsLegacyNode (above : List Node) (n : Node) : Prop
  | print (kind : n.kind = "print_statement")
  | exec (kind : n.kind = "exec_statement")
  | unequal (kind : n.kind = "<>")
  | parameter {parent : Node} (kind : n.kind = "tuple_pattern") (child : above.head? = some parent)
      (lists : parent.kind = "parameters" ∨ parent.kind = "lambda_parameters" ∨
        parent.kind = "default_parameter")
  | leadingZero (kind : n.kind = "integer") (zero : HasLeadingZero n.text)
  | long (kind : n.kind = "integer") (suffix : HasLongSuffix n.text)

/-- Some node of the tree, the root or one below it, is legacy. -/
def HasLegacyNode (root : Node) : Prop := ∃ above n, Occurs root above n ∧ IsLegacyNode above n

theorem endsLong_iff (digits : List Char) :
    (digits.getLast?.map fun c => c == 'l' || c == 'L').getD false = true ↔
      ∃ front last, digits = front ++ [last] ∧ (last = 'l' ∨ last = 'L') := by
  constructor
  · intro long
    rcases ends : digits.getLast? with _ | last
    · simp [ends] at long
    · obtain ⟨front, split⟩ := List.getLast?_eq_some_iff.mp ends
      refine ⟨front, last, split, ?_⟩
      simpa [ends] using long
  · rintro ⟨front, last, rfl, suffix⟩
    simpa using suffix

theorem leadsZero_iff (digits : List Char) :
    (decide (1 < digits.length) && digits.head? == some '0' && digits.all Char.isDigit &&
        digits.any (· != '0')) = true ↔
      ∃ rest, digits = '0' :: rest ∧ (∀ c ∈ rest, c.isDigit) ∧ ∃ c ∈ rest, c ≠ '0' := by
  cases digits with
  | nil => simp
  | cons first rest =>
      constructor
      · intro checks
        simp only [Bool.and_eq_true, List.head?_cons, beq_iff_eq, Option.some.injEq,
          List.all_eq_true, List.any_eq_true, bne_iff_ne] at checks
        obtain ⟨⟨⟨-, rfl⟩, digits⟩, c, member, other⟩ := checks
        refine ⟨rest, rfl, fun c member => digits c (List.mem_cons_of_mem _ member), c, ?_, other⟩
        exact (List.mem_cons.mp member).resolve_left other
      · rintro ⟨rest, same, digits, c, member, other⟩
        obtain ⟨rfl, rfl⟩ := List.cons.inj same
        have longer : 0 < rest.length := List.length_pos_of_mem member
        simp only [Bool.and_eq_true, List.head?_cons, beq_self_eq_true, decide_eq_true_eq,
          List.all_eq_true, List.any_eq_true, bne_iff_ne, List.length_cons, List.forall_mem_cons]
        exact ⟨⟨⟨by omega, trivial⟩, rfl, digits⟩, c, List.mem_cons_of_mem _ member, other⟩

theorem isLegacyInteger_iff (literal : String) :
    isLegacyInteger literal = true ↔ HasLongSuffix literal ∨ HasLeadingZero literal := by
  unfold isLegacyInteger
  rw [Bool.or_eq_true, endsLong_iff, leadsZero_iff]
  rfl

theorem isParameterList_iff (kind : String) :
    isParameterList kind = true ↔
      kind = "parameters" ∨ kind = "lambda_parameters" ∨ kind = "default_parameter" := by
  simp only [isParameterList, Bool.or_eq_true, beq_iff_eq, or_assoc]

theorem isLegacy_iff : isLegacy (parentKind above) n = true ↔ IsLegacyNode above n := by
  constructor
  · intro legacy
    unfold isLegacy at legacy
    split_ifs at legacy with statement pattern integer
    · simp only [Bool.or_eq_true, beq_iff_eq] at statement
      rcases statement with (print | exec) | unequal
      · exact .print print
      · exact .exec exec
      · exact .unequal unequal
    · cases above with
      | nil => cases legacy
      | cons parent above =>
          exact .parameter (beq_iff_eq.mp pattern) rfl ((isParameterList_iff _).mp legacy)
    · rcases (isLegacyInteger_iff _).mp legacy with long | zero
      · exact .long (beq_iff_eq.mp integer) long
      · exact .leadingZero (beq_iff_eq.mp integer) zero
  · intro legacy
    cases legacy with
    | print kind => simp [isLegacy, kind]
    | exec kind => simp [isLegacy, kind]
    | unequal kind => simp [isLegacy, kind]
    | parameter kind child lists =>
        have isList := (isParameterList_iff _).mpr lists
        simp [isLegacy, kind, parentKind, child, isList]
    | leadingZero kind zero =>
        have integer := (isLegacyInteger_iff _).mpr (.inr zero)
        simp [isLegacy, kind, integer]
    | long kind suffix =>
        have integer := (isLegacyInteger_iff _).mpr (.inl suffix)
        simp [isLegacy, kind, integer]

/-- The search finds a tree that holds a legacy node, and no other. -/
theorem containsLegacy_iff (root : Node) : containsLegacy root = true ↔ HasLegacyNode root := by
  simp only [containsLegacy_eq_any, List.any_eq_true, Prod.exists, mem_preorder_iff, isLegacy_iff,
    HasLegacyNode]

/-! ## The recursion -/

mutual

/-- Whether the node or one below it is legacy. -/
def hasLegacy (parent : Option String) : Node → Bool
  | .token k n r t => isLegacy parent (.token k n r t)
  | .group k n r cs => isLegacy parent (.group k n r cs) || hasLegacyAmong (some k) cs

def hasLegacyAmong (parent : Option String) : List Node → Bool
  | [] => false
  | c :: cs => hasLegacy parent c || hasLegacyAmong parent cs

end

mutual

theorem any_preorder (above : List Node) (n : Node) :
    (n.preorder above).any (fun q => isLegacy (parentKind q.1) q.2) =
      hasLegacy (parentKind above) n := by
  cases n with
  | token => simp [Node.preorder, hasLegacy]
  | group k named r cs =>
      rw [Node.preorder, List.any_cons, any_preorderAll, hasLegacy]
      rfl

theorem any_preorderAll (above : List Node) (cs : List Node) :
    (Node.preorderAll above cs).any (fun q => isLegacy (parentKind q.1) q.2) =
      hasLegacyAmong (parentKind above) cs := by
  cases cs with
  | nil => rfl
  | cons c cs =>
      rw [Node.preorderAll, List.any_append, any_preorder, any_preorderAll, hasLegacyAmong]

end

/-! ## The search -/

/-- How a tree is searched. The nodes that the cursor comes to if nothing stops it are those of the
tree, once each and in the order of the text; it is stopped by the first that is legacy; and the
tree is turned down exactly if one is. -/
structure Searched (root : Node) : Prop where
  visited : (Cursor.ofRoot root).walk.map Cursor.position = root.preorder []
  complete : ∀ above n, (above, n) ∈ root.preorder [] ↔ Occurs root above n
  stops : containsLegacy root = (Cursor.ofRoot root).walk.any standsOnLegacy
  recursion : containsLegacy root = hasLegacy none root
  rejected : symbolsOfTree root = none ↔ HasLegacyNode root

theorem searched (root : Node) : Searched root where
  visited := Cursor.walk_ofRoot root
  complete := fun _ _ => mem_preorder_iff
  stops := Cursor.finds_eq_any standsOnLegacy (Cursor.ofRoot root)
  recursion := by
    rw [containsLegacy_eq_any]
    exact any_preorder [] root
  rejected := by
    rw [symbolsOfTree, ← containsLegacy_iff]
    cases containsLegacy root <;> simp

/-- A source text has no symbols exactly if it does not read without error or if one of the nodes
of its tree is legacy; and every tree is searched to its end for such a node. -/
theorem extract_eq_none_iff (source : String) :
    (extract source = none ↔
      parse source = none ∨ ∃ root, parse source = some root ∧ HasLegacyNode root) ∧
    ∀ root, Searched root := by
  refine ⟨?_, searched⟩
  rw [extract]
  cases parsed : parse source with
  | none => simp
  | some root => simp [(searched root).rejected]

end ApiInventory.Source
