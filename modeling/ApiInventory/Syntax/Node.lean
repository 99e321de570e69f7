/-!
# Syntax trees

A tree is what a parser hands on: tokens with their text, and groups of
children under the name of the rule that joined them. A node also carries its
role, the label under which its parent refers to it. Named nodes are the ones
that a rule of the grammar names; punctuation and keywords are unnamed.
-/

namespace ApiInventory.Syntax

/-- One node of a concrete syntax tree. -/
inductive Node where
  | token (kind : String) (named : Bool) (role : Option String) (text : String)
  | group (kind : String) (named : Bool) (role : Option String) (children : List Node)
deriving Repr, Inhabited

namespace Node

def kind : Node → String
  | token k _ _ _ => k
  | group k _ _ _ => k

def named : Node → Bool
  | token _ n _ _ => n
  | group _ n _ _ => n

def role : Node → Option String
  | token _ _ r _ => r
  | group _ _ r _ => r

def children : Node → List Node
  | token _ _ _ _ => []
  | group _ _ _ cs => cs

@[simp] theorem kind_token (k n r t) : (token k n r t).kind = k := rfl
@[simp] theorem kind_group (k n r cs) : (group k n r cs).kind = k := rfl
@[simp] theorem named_token (k n r t) : (token k n r t).named = n := rfl
@[simp] theorem named_group (k n r cs) : (group k n r cs).named = n := rfl
@[simp] theorem role_token (k n r t) : (token k n r t).role = r := rfl
@[simp] theorem role_group (k n r cs) : (group k n r cs).role = r := rfl
@[simp] theorem children_token (k n r t) : (token k n r t).children = [] := rfl
@[simp] theorem children_group (k n r cs) : (group k n r cs).children = cs := rfl

def namedChildren (t : Node) : List Node :=
  t.children.filter named

/-- The first child that plays the role. -/
def child? (t : Node) (label : String) : Option Node :=
  t.children.find? fun c => c.role == some label

def withRole (label : Option String) : Node → Node
  | token k n r t => token k n (r <|> label) t
  | group k n r cs => group k n (r <|> label) cs

theorem sizeOf_lt_of_mem_children {t c : Node} (h : c ∈ t.children) : sizeOf c < sizeOf t := by
  cases t with
  | token => simp at h
  | group k n r cs =>
    have := List.sizeOf_lt_of_mem h
    simp only [children_group] at this
    simp only [group.sizeOf_spec]
    omega

theorem mem_children_of_child? {t c : Node} {label : String} (h : t.child? label = some c) :
    c ∈ t.children :=
  List.mem_of_find?_eq_some h

mutual

/-- The characters of the tokens below a node, in order. -/
def text : Node → String
  | token _ _ _ t => t
  | group _ _ _ cs => textAll cs

def textAll : List Node → String
  | [] => ""
  | c :: cs => text c ++ textAll cs

end

end Node

end ApiInventory.Syntax
