import ApiInventory.Syntax.Cursor

/-!
# Constructs that only Python 2 had

The grammar reads some constructs that no current interpreter does. A tree that
contains one of them anywhere is not accepted.
-/

namespace ApiInventory.Source

open Syntax (Node Cursor)

/-- A long integer, or an octal one without its base: a zero in front of a digit other
than zero. Underscores do not count. -/
def isLegacyInteger (literal : String) : Bool :=
  let digits := literal.toList.filter (· != '_')
  let long := (digits.getLast?.map fun c => c == 'l' || c == 'L').getD false
  long ||
    (decide (1 < digits.length) && digits.head? == some '0' &&
      digits.all Char.isDigit && digits.any (· != '0'))

/-- Kinds of nodes that list parameters. -/
def isParameterList (kind : String) : Bool :=
  kind == "parameters" || kind == "lambda_parameters" || kind == "default_parameter"

/-- Whether a node is a construct of the old version only, given the kind of its
parent. -/
def isLegacy (parent : Option String) (n : Node) : Bool :=
  if n.kind == "print_statement" || n.kind == "exec_statement" || n.kind == "<>" then true
  else if n.kind == "tuple_pattern" then (parent.map isParameterList).getD false
  else if n.kind == "integer" then isLegacyInteger n.text
  else false

/-- Whether the node that a cursor stands on is legacy. -/
def standsOnLegacy (c : Cursor) : Bool :=
  isLegacy (c.parent?.map fun p => p.node.kind) c.node

/-- Whether some node of the tree is legacy. -/
def containsLegacy (root : Node) : Bool :=
  (Cursor.ofRoot root).finds standsOnLegacy

end ApiInventory.Source
