import ApiInventory.Source.Legacy
import ApiInventory.Source.Parse
import ApiInventory.Symbols.Table

/-!
# What a module declares

A statement of a module or class body binds names in one of three ways: a function or
class definition binds its name, decorated or not; an assignment binds those of its
targets that are plain names. Whatever is nested deeper binds nothing.
-/

namespace ApiInventory.Source

open Syntax (Node)

/-- A statement, reduced to what it binds. -/
inductive Statement where
  | callable (name : String) (parameters : List String)
  | typeDeclaration (name : String) (body : Option Node)
  | assignment (targets : List String)
  | other

/-! ## Parameters -/

/-- What a parameter means for the ones that can be given by position. -/
inductive ParameterRole where
  | positional (name : String)
  /-- Only keywords are taken from here on. -/
  | keywordsFollow
  | ignored

def nameIfIdentifier (n : Node) : ParameterRole :=
  if n.kind == "identifier" then .positional n.text else .ignored

def parameterRole (p : Node) : ParameterRole :=
  match p.kind with
  | "identifier" => .positional p.text
  | "default_parameter" | "typed_default_parameter" =>
    match p.child? "name" with
    | some name => nameIfIdentifier name
    | none => .ignored
  | "typed_parameter" =>
    match p.namedChildren with
    | inner :: _ =>
      if inner.kind == "list_splat_pattern" then .keywordsFollow else nameIfIdentifier inner
    | [] => .ignored
  | "list_splat_pattern" | "keyword_separator" => .keywordsFollow
  | _ => .ignored

/-- The parameters that can be given by position, in declared order. -/
def positionalNames : List Node → List String
  | [] => []
  | p :: ps =>
    match parameterRole p with
    | .positional name => name :: positionalNames ps
    | .keywordsFollow => []
    | .ignored => positionalNames ps

def positionalParameters (parameters : Node) : List String :=
  positionalNames parameters.namedChildren

/-! ## Assignments -/

/-- The plain names that a chain of assignments binds, from left to right. An annotated
link, or a chain without a value at its end, gives none. -/
def chainTargets (n : Node) : Option (List String) :=
  if (n.child? "type").isSome then none
  else
    let here :=
      match n.child? "left" with
      | some left => if left.kind == "identifier" then [left.text] else []
      | none => []
    match _h : n.child? "right" with
    | none => none
    | some right =>
      if right.kind == "assignment" then (chainTargets right).map (here ++ ·) else some here
termination_by sizeOf n
decreasing_by exact Node.sizeOf_lt_of_mem_children (Node.mem_children_of_child? (by assumption))

def assignmentStatement (n : Node) : Statement :=
  match chainTargets n with
  | none | some [] => .other
  | some targets => .assignment targets

/-! ## Statements -/

def classify (n : Node) : Statement :=
  match n.kind with
  | "decorated_definition" =>
    match _h : n.child? "definition" with
    | some definition => classify definition
    | none => .other
  | "function_definition" | "async_function_definition" =>
    match n.child? "name" with
    | some name =>
      .callable name.text (((n.child? "parameters").map positionalParameters).getD [])
    | none => .other
  | "class_definition" =>
    match n.child? "name" with
    | some name => .typeDeclaration name.text (n.child? "body")
    | none => .other
  | "expression_statement" =>
    match n.namedChildren with
    | [inner] => if inner.kind == "assignment" then assignmentStatement inner else .other
    | _ => .other
  | _ => .other
termination_by sizeOf n
decreasing_by exact Node.sizeOf_lt_of_mem_children (Node.mem_children_of_child? (by assumption))

/-- The members that a statement of a class body binds. -/
def memberBindings : Statement → List (String × Member)
  | .callable name parameters => [(name, .method parameters)]
  | .assignment targets => targets.map fun t => (t, .field)
  | .typeDeclaration _ _ | .other => []

/-- Add bindings in order; the first for a name stays. -/
def addFirst {α : Type} (m : NameMap α) (bindings : List (String × α)) : NameMap α :=
  bindings.foldl (fun m b => m.insertNew b.1 b.2) m

def classMembers (body : Node) : NameMap Member :=
  addFirst ∅ ((body.namedChildren.map classify).flatMap memberBindings)

/-- The symbols that a statement of a module binds. -/
def symbolBindings : Statement → List (String × Signature)
  | .callable name parameters => [(name, .function parameters)]
  | .typeDeclaration name body => [(name, .classType ((body.map classMembers).getD ∅))]
  | .assignment targets => targets.map fun t => (t, .variable)
  | .other => []

def moduleSymbols (root : Node) : SymbolTable :=
  addFirst ∅ ((root.namedChildren.map classify).flatMap symbolBindings)

/-- The symbols of a tree, unless it has a construct that only Python 2 had. -/
def symbolsOfTree (root : Node) : Option SymbolTable :=
  if containsLegacy root then none else some (moduleSymbols root)

/-- The symbols that a source text declares at its top level. A text that does not read
without error, or only as Python 2, declares nothing. -/
def extract (source : String) : Option SymbolTable :=
  (parse source).bind symbolsOfTree

end ApiInventory.Source
