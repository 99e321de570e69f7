import ApiInventory.Proofs.Source.Acceptance
import ApiInventory.Proofs.Source.FirstDefinition

/-!
# Sources that only Python 2 reads

A tree is not accepted exactly when one of six constructs stands somewhere in it (`HasOutdated`).
They are said here as a reader of sources knows them, a parameter in parentheses with all that is
inside it, while a tree is searched node by node, each with the kind of its parent. Both come to
the same (`containsLegacy_iff_hasOutdated`): what is inside such a parameter does not need to be
looked for, because the parameter is found.

A file with such a construct is as good as not there (`firstDefines_without`), and the package has
each name as the other files have it (`outdated_sources`). A statement that raises a list of
expressions is not among the six, although no current interpreter reads it: a source is taken
wrongly exactly if such a statement stands in it and none of the six (`Judges.noticed`,
`not_rejected_of_raised_list`).
-/

namespace ApiInventory.Source

open Syntax (Node)
open Files (FileTree Place)

/-! ## The constructs -/

variable {root n : Node} {above : List Node}

/-- A parameter in parentheses, of a function or a lambda, with or without a default; or a pattern
inside one. -/
inductive IsTupleParameter : List Node → Node → Prop
  | whole {list : Node} {above : List Node} {n : Node} (kind : n.kind = "tuple_pattern")
      (lists : list.kind = "parameters" ∨ list.kind = "lambda_parameters" ∨
        list.kind = "default_parameter") : IsTupleParameter (list :: above) n
  | inside {outer : Node} {above : List Node} {n : Node}
      (kind : n.kind = "tuple_pattern" ∨ n.kind = "list_pattern")
      (parameter : IsTupleParameter above outer) : IsTupleParameter (outer :: above) n

/-- A node that stands for one of the constructs that are looked for, below the nodes that are
listed. -/
inductive IsOutdated (above : List Node) (n : Node) : Prop
  | print (kind : n.kind = "print_statement")
  | exec (kind : n.kind = "exec_statement")
  | unequal (kind : n.kind = "<>")
  | parameter (pattern : IsTupleParameter above n)
  | leadingZero (kind : n.kind = "integer") (zero : HasLeadingZero n.text)
  | long (kind : n.kind = "integer") (suffix : HasLongSuffix n.text)

/-- One of the constructs stands somewhere in the tree. -/
def HasOutdated (root : Node) : Prop := ∃ above n, Occurs root above n ∧ IsOutdated above n

theorem IsLegacyNode.isOutdated (legacy : IsLegacyNode above n) : IsOutdated above n := by
  cases legacy with
  | print kind => exact .print kind
  | exec kind => exact .exec kind
  | unequal kind => exact .unequal kind
  | parameter kind child lists =>
      cases above with
      | nil => cases child
      | cons parent above =>
          cases child
          exact .parameter (.whole kind lists)
  | leadingZero kind zero => exact .leadingZero kind zero
  | long kind suffix => exact .long kind suffix

/-- A pattern inside a parameter in parentheses is below that parameter. -/
theorem IsTupleParameter.hasLegacyNode (parameter : IsTupleParameter above n)
    (occurs : Occurs root above n) : HasLegacyNode root := by
  induction parameter with
  | whole kind lists => exact ⟨_, _, occurs, .parameter kind rfl lists⟩
  | inside kind parameter ih =>
      cases occurs with
      | child occurs member => exact ih occurs

theorem IsOutdated.hasLegacyNode (outdated : IsOutdated above n) (occurs : Occurs root above n) :
    HasLegacyNode root := by
  cases outdated with
  | print kind => exact ⟨above, n, occurs, .print kind⟩
  | exec kind => exact ⟨above, n, occurs, .exec kind⟩
  | unequal kind => exact ⟨above, n, occurs, .unequal kind⟩
  | parameter pattern => exact pattern.hasLegacyNode occurs
  | leadingZero kind zero => exact ⟨above, n, occurs, .leadingZero kind zero⟩
  | long kind suffix => exact ⟨above, n, occurs, .long kind suffix⟩

/-- The search finds a tree that holds one of the constructs, and no other. -/
theorem containsLegacy_iff_hasOutdated (root : Node) :
    containsLegacy root = true ↔ HasOutdated root := by
  rw [containsLegacy_iff]
  constructor
  · rintro ⟨above, n, occurs, legacy⟩
    exact ⟨above, n, occurs, legacy.isOutdated⟩
  · rintro ⟨above, n, occurs, outdated⟩
    exact outdated.hasLegacyNode occurs

theorem symbolsOfTree_of_hasOutdated (outdated : HasOutdated root) : symbolsOfTree root = none :=
  if_pos ((containsLegacy_iff_hasOutdated root).mpr outdated)

theorem symbolsOfTree_of_not_hasOutdated (current : ¬HasOutdated root) :
    symbolsOfTree root = some (moduleSymbols root) :=
  if_neg (mt (containsLegacy_iff_hasOutdated root).mp current)

/-! ## Files -/

/-- A file without symbols defines no name and hides no definition of one. -/
theorem firstDefines_without {sources : Sources} {before after : List Place} {p : Place}
    (nothing : sources.symbols? p = none) (name : String) (signature : Signature) :
    FirstDefines sources.symbols? (before ++ p :: after) name signature ↔
      FirstDefines sources.symbols? (before ++ after) name signature := by
  rw [← findSome?_symbols_iff, ← findSome?_symbols_iff, List.filterMap_append,
    List.filterMap_append, List.filterMap_cons_none nothing]

/-! ## Sources -/

/-- A statement that raises a list of expressions. -/
def RaisesList (n : Node) : Prop :=
  n.kind = "raise_statement" ∧ ∃ c ∈ n.children, c.kind = "expression_list"

/-- A tree holds a construct that no current interpreter reads: one of those that are looked for, or
a statement that raises a list. -/
def HasUnreadable (root : Node) : Prop :=
  ∃ above n, Occurs root above n ∧ (IsOutdated above n ∨ RaisesList n)

/-- What is made of a source text that the grammar accepts. It is read as the module it says, unless
one of the constructs that are looked for stands in it, at any depth; so whatever is unreadable in
it is noticed, unless that is a raised list alone. -/
structure Judges (result : Option SymbolTable) (root : Node) : Prop where
  outdated : HasOutdated root → result = none
  current : ¬HasOutdated root → result = some (moduleSymbols root)
  noticed : (HasUnreadable root → result = none) ↔ (HasUnreadable root → HasOutdated root)

theorem judges_symbolsOfTree (root : Node) : Judges (symbolsOfTree root) root where
  outdated := symbolsOfTree_of_hasOutdated
  current := symbolsOfTree_of_not_hasOutdated
  noticed := by
    constructor
    · intro rejects unreadable
      by_contra current
      have accepted := symbolsOfTree_of_not_hasOutdated current
      rw [rejects unreadable] at accepted
      cases accepted
    · exact fun noticed unreadable => symbolsOfTree_of_hasOutdated (noticed unreadable)

/-- A source text is judged by its tree. A file of a package with an outdated text is as good as not
there: each name is as it is defined first in the other files. -/
theorem outdated_sources (source : String) :
    (∀ root, parse source = some root → Judges (extract source) root) ∧
    ∀ (t : FileTree) (cwd : Place) (directory : String) (before after : List Place) (p : Place)
      (content : ByteArray) (root : Node),
      (packageSources t cwd directory).2 = before ++ p :: after →
      sources t cwd directory p = some (some content) → Text.decodeLossy content = source →
      parse source = some root → HasOutdated root →
      ∀ name signature, (extractDirectory t cwd directory).1.get? name = some signature ↔
        FirstDefines (sources t cwd directory).symbols? (before ++ after) name signature := by
  have judged : ∀ root, parse source = some root → Judges (extract source) root := by
    intro root parsed
    rw [extract, parsed, Option.bind_some]
    exact judges_symbolsOfTree root
  refine ⟨judged, ?_⟩
  intro t cwd directory before after p content root files read decoded parsed outdated name
    signature
  have nothing : (sources t cwd directory).symbols? p = none := by
    rw [Sources.symbols?, read, Option.bind_some, Option.bind_some, decoded]
    exact (judged root parsed).outdated outdated
  rw [(summarizes_extractDirectory t cwd directory).table, files, firstDefines_without nothing]

/-! ## A source that is not noticed -/

/-- An exception is raised with a value. -/
def raisingStatement : Node :=
  .group "raise_statement" true none
    [.token "raise" false none "raise",
      .group "expression_list" true none
        [.token "identifier" true none "E", .token "," false none ",",
          .token "identifier" true none "x"]]

/-- A module of two lines, of which the second binds a name. -/
def raisingModule : Node :=
  .group "module" true none
    [raisingStatement,
      .group "expression_statement" true none
        [.group "assignment" true none
          [.token "identifier" true (some "left") "X", .token "=" false none "=",
            .token "integer" true (some "right") "1"]]]

theorem raisesList_raisingStatement : RaisesList raisingStatement := by
  refine ⟨rfl, ?_⟩
  simp [raisingStatement]

/-- A tree with such a statement is accepted. -/
theorem not_rejected_of_raised_list :
    ¬∀ root, HasUnreadable root → symbolsOfTree root = none := by
  intro rejects
  have occurs : Occurs raisingModule [raisingModule] raisingStatement :=
    .child .root List.mem_cons_self
  have rejected := rejects raisingModule ⟨_, _, occurs, .inr raisesList_raisingStatement⟩
  have one : isLegacyInteger "1" = false := by decide
  have current : containsLegacy raisingModule = false := by
    simp [containsLegacy_eq_any, raisingModule, raisingStatement, Node.preorder, isLegacy,
      Node.text, one]
  rw [symbolsOfTree, current] at rejected
  cases rejected

end ApiInventory.Source
