import ApiInventory.Proofs.Source.Definitions

/-!
# Chains of assignments

An assignment whose value is an assignment goes on, and the one whose value is none ends the chain.
Each chain has its links, however many they are, all of them nodes of the tree of the first
(`Links.sublist_nodes`), so there is nothing to wait for but the nodes of that tree.

What a chain binds is decided by all of its links together (`Assigns`): each must be without a type,
the last must have a value, and some left side must be a plain name. It then binds each left side
that is a plain name, in their order and as often as they stand there, and nothing otherwise
(`assignment_chains`). One link with a type takes the names of all the others away, before it and
behind it.

The order of the links is that of the text, since an assignment begins with its left side in
every tree that the grammar derives (`begins_with_left`).
-/

namespace ApiInventory

namespace Syntax.Node

/-- A node and all that are below it, in the order of the text. -/
def nodes (n : Node) : List Node := (n.preorder []).map Prod.snd

/-- What is above a node does not matter for what is below it. -/
theorem map_snd_preorder (n : Node) (above : List Node) :
    (n.preorder above).map Prod.snd = n.nodes := by
  rw [nodes, preorder_eq, preorder_eq [], List.map_cons, List.map_cons, List.map_flatMap,
    List.map_flatMap]
  congr 1
  refine List.flatMap_congr fun c child => ?_
  rw [map_snd_preorder c, map_snd_preorder c]
termination_by sizeOf n
decreasing_by all_goals exact sizeOf_lt_of_mem_children child

theorem nodes_eq (n : Node) : n.nodes = n :: n.children.flatMap nodes := by
  rw [nodes, preorder_eq, List.map_cons, List.map_flatMap]
  congr 1
  exact List.flatMap_congr fun c _ => map_snd_preorder c _

theorem mem_nodes_self (n : Node) : n ∈ n.nodes := by
  rw [nodes_eq]
  exact List.mem_cons_self

theorem nodes_sublist_flatMap {c : Node} {cs : List Node} (member : c ∈ cs) :
    c.nodes.Sublist (cs.flatMap nodes) := by
  rw [List.flatMap_def]
  exact List.sublist_flatten_of_mem (List.mem_map_of_mem member)

@[simp] theorem role_withRole (label : Option String) (n : Node) :
    (n.withRole label).role = (n.role <|> label) := by
  cases n <;> rfl

end Syntax.Node

namespace Source

open Syntax (Node)

/-! ## The grammar of assignments -/

/-- The rules for the two sides of an assignment that leave no nodes of their own. -/
def sideRules : List String := ["pattern", "_right_hand_side", "expression", "primary_expression"]

/-- The rules that leave a group: for an assignment, and for several targets. -/
def groupRules : List String := ["assignment", "pattern_list", "tuple_pattern"]

/-- Some of what a rule without a node of its own may stand for. -/
def standsFor : List (String × String) :=
  [("pattern", "identifier"), ("pattern", "tuple_pattern"), ("_right_hand_side", "assignment"),
    ("_right_hand_side", "expression"), ("expression", "primary_expression"),
    ("primary_expression", "integer")]

/-- The production of an assignment without a type. -/
def untypedProduction : Syntax.Body where
  steps := [⟨.named "pattern", { label := some "left" }⟩, ⟨.literal "=", {}⟩,
    ⟨.named "_right_hand_side", { label := some "right" }⟩]
  weight := 0

/-- What the grammar has for assignments and for what stands in them. -/
structure AssignmentRules : Prop where
  only : grammar.OnlyRule extraKinds "assignment"
  hidden : ∀ name ∈ sideRules, (name ∈ grammar.rules.map Prod.fst ∧ name ∉ grammar.spliced) ∧
    name ∉ grammar.tokens ∧ grammar.display (.named name) = none
  visible : ∀ name ∈ groupRules, (name ∈ grammar.rules.map Prod.fst ∧ name ∉ grammar.spliced) ∧
    name ∉ grammar.tokens ∧ grammar.isHidden name = false
  token : ∀ name ∈ ["identifier", "integer"],
    name ∈ grammar.tokens ∧ grammar.display (.named name) = some (name, true)
  mark : ∀ text ∈ ["=", "(", ")"], ∃ r ∈ grammar.rules, text ∈ r.2.literals
  begins : ∀ b ∈ grammar.productionsOf (.named "assignment"),
    BeginsWith b (some "left") [.named "pattern", .named "pattern_list"]
  /-- A target leaves one node, by whatever rule it is read. -/
  target : ∀ b ∈ grammar.productionsOf (.named "pattern"),
    ∃ s ∈ b.steps, b.steps = [s] ∧ s.marks.label = none ∧ (grammar.appearance s).isSome
  stands : ∀ p ∈ standsFor, ⟨[⟨.named p.2, {}⟩], 0⟩ ∈ grammar.productionsOf (.named p.1)
  untyped : untypedProduction ∈ grammar.productionsOf (.named "assignment")
  /-- Nothing need stand between the brackets. -/
  empty : ⟨[⟨.literal "(", {}⟩, ⟨.literal ")", {}⟩], 0⟩ ∈
    grammar.productionsOf (.named "tuple_pattern")

theorem assignmentRules : AssignmentRules where
  only :=
    { extra := by decide
      token := by decide +kernel
      literal := by decide +kernel
      shown := by decide +kernel }
  hidden := by decide +kernel
  visible := by decide +kernel
  token := by decide +kernel
  mark := by decide +kernel
  begins := by decide +kernel
  target := by decide +kernel
  stands := by decide +kernel
  untyped := by decide +kernel
  empty := by decide +kernel

/-! ## Links -/

/-- The links of a chain, from its first assignment on. -/
inductive Links : Node → List Node → Prop
  | last {n : Node}
      (ends : ∀ value, n.child? "right" = some value → value.kind ≠ "assignment") : Links n [n]
  | link {n value : Node} {links : List Node} (right : n.child? "right" = some value)
      (onward : value.kind = "assignment") (rest : Links value links) : Links n (n :: links)

/-- The left sides of the links. -/
def leftSides (links : List Node) : List Node := links.filterMap (·.child? "left")

/-- The names of the left sides that are names. -/
def plainNames (links : List Node) : List String :=
  ((leftSides links).filter (·.kind = "identifier")).map Node.text

/-- There is something that the chain assigns. -/
def HasValue (links : List Node) : Prop :=
  ∃ last, links.getLast? = some last ∧ (last.child? "right").isSome

/-- The links of a chain that binds a name. -/
structure Assigns (links : List Node) : Prop where
  untyped : ∀ link ∈ links, link.child? "type" = none
  valued : HasValue links
  named : ∃ side ∈ leftSides links, side.kind = "identifier"

variable {n : Node} {links : List Node}

theorem exists_links (n : Node) : ∃ links, Links n links := by
  by_cases onward : ∃ value, n.child? "right" = some value ∧ value.kind = "assignment"
  · obtain ⟨value, right, onward⟩ := onward
    obtain ⟨links, rest⟩ := exists_links value
    exact ⟨n :: links, .link right onward rest⟩
  · simp only [not_exists, not_and] at onward
    exact ⟨[n], .last onward⟩
termination_by sizeOf n
decreasing_by exact Node.sizeOf_lt_of_mem_children (Node.mem_children_of_child? right)

theorem Links.unique {others : List Node} (h : Links n links) (h' : Links n others) :
    others = links := by
  induction h generalizing others with
  | last ends =>
      cases h' with
      | last => rfl
      | link right onward => exact absurd onward (ends _ right)
  | @link n value links right onward _ ih =>
      cases h' with
      | last ends => exact absurd onward (ends value right)
      | link right' _ rest' =>
          obtain rfl := Option.some.inj (right.symm.trans right')
          rw [ih rest']

theorem Links.ne_nil (h : Links n links) : links ≠ [] := by
  cases h <;> exact List.cons_ne_nil _ _

/-- The links are nodes of one tree, each below the one before. -/
theorem Links.sublist_nodes (h : Links n links) : links.Sublist n.nodes := by
  induction h with
  | last => exact List.singleton_sublist.mpr (Node.mem_nodes_self _)
  | @link n value links right _ _ ih =>
      rw [Node.nodes_eq]
      exact (ih.trans (Node.nodes_sublist_flatMap (Node.mem_children_of_child? right))).cons_cons n

/-! ## What a chain binds -/

/-- A chain that binds anything is one with a value at its end. -/
theorem chain_iff : Chain n links ↔ Links n links ∧ HasValue links := by
  constructor
  · intro chain
    induction chain with
    | @last n value right ends =>
        have last : ∀ value', n.child? "right" = some value' → value'.kind ≠ "assignment" := by
          intro value' right'
          obtain rfl := Option.some.inj (right.symm.trans right')
          exact ends
        exact ⟨.last last, n, rfl, Option.isSome_of_eq_some right⟩
    | link right onward _ ih =>
        obtain ⟨rest, last, ends, valued⟩ := ih
        refine ⟨.link right onward rest, last, ?_, valued⟩
        rw [List.getLast?_cons, ends, Option.getD_some]
  · rintro ⟨h, last, ends, valued⟩
    induction h with
    | last none =>
        cases ends
        obtain ⟨value, right⟩ := Option.isSome_iff_exists.mp valued
        exact .last right (none value right)
    | @link n value links right onward rest ih =>
        have further : links.getLast? = some last := by
          rwa [List.getLast?_cons_of_ne_nil rest.ne_nil] at ends
        exact .link right onward (ih further)

theorem flatMap_plainTarget (links : List Node) : links.flatMap plainTarget = plainNames links := by
  induction links with
  | nil => rfl
  | cons link rest ih =>
      rw [List.flatMap_cons, ih]
      unfold plainTarget plainNames leftSides
      rw [List.filterMap_cons]
      cases link.child? "left" with
      | none => rfl
      | some left => by_cases plain : left.kind = "identifier" <;> simp [plain]

theorem plainNames_ne_nil_iff :
    plainNames links ≠ [] ↔ ∃ side ∈ leftSides links, side.kind = "identifier" := by
  simp [plainNames]

theorem chainTargets_eq_some_iff_links (h : Links n links) {targets : List String} :
    chainTargets n = some targets ↔
      (∀ link ∈ links, link.child? "type" = none) ∧ HasValue links ∧
        targets = plainNames links := by
  rw [chainTargets_eq_some_iff]
  constructor
  · rintro ⟨others, chain, untyped, rfl⟩
    obtain ⟨h', valued⟩ := chain_iff.mp chain
    obtain rfl := h.unique h'
    exact ⟨untyped, valued, flatMap_plainTarget _⟩
  · rintro ⟨untyped, valued, rfl⟩
    exact ⟨links, chain_iff.mpr ⟨h, valued⟩, untyped, (flatMap_plainTarget _).symm⟩

theorem assignmentStatement_of_assigns (h : Links n links) (assigns : Assigns links) :
    assignmentStatement n = .assignment (plainNames links) := by
  have targets := (chainTargets_eq_some_iff_links h).mpr ⟨assigns.untyped, assigns.valued, rfl⟩
  have some := plainNames_ne_nil_iff.mpr assigns.named
  unfold assignmentStatement
  rw [targets]
  split
  · cases ‹_ = none›
  · rename_i none
    exact absurd (Option.some.inj none) some
  · rename_i names _ same
    rw [Option.some.inj same]

theorem assignmentStatement_of_not_assigns (h : Links n links) (silent : ¬Assigns links) :
    assignmentStatement n = .other := by
  unfold assignmentStatement
  split
  · rfl
  · rfl
  · rename_i names some targets
    obtain ⟨untyped, valued, rfl⟩ := (chainTargets_eq_some_iff_links h).mp targets
    exact absurd ⟨untyped, valued, plainNames_ne_nil_iff.mp some⟩ silent

/-! ## The order of the text -/

variable {s : Syntax.Step} {found : List Node}

/-- The left side of an assignment is one node. -/
theorem yields_left (known : s.symbol ∈ [.named "pattern", .named "pattern_list"])
    (labelled : s.marks.label = some "left") (shown : s.marks.shown = none)
    (yields : grammar.Yields extraKinds [s] found) :
    ∃ side, found = [side] ∧ side.role = some "left" := by
  simp only [List.mem_cons, List.not_mem_nil, or_false] at known
  obtain ⟨-, noToken, hidden⟩ := assignmentRules.hidden "pattern" (by decide)
  rcases known with symbol | symbol
  · rcases Syntax.Grammar.yields_one_iff.mp yields with ⟨token, -⟩ | ⟨-, inner, derives, rfl⟩
    · rw [symbol, Syntax.Grammar.named_mem_terminals_iff] at token
      exact absurd token noToken
    · rw [symbol] at derives
      obtain ⟨b, made, inside⟩ := derives
      obtain ⟨s', -, steps, unlabelled, appears⟩ := assignmentRules.target b made
      rw [steps] at inside
      obtain ⟨side, rfl, role⟩ := inside.exists_one appears
      refine ⟨side.withRole (some "left"), ?_, ?_⟩
      · simp [Syntax.Grammar.shows, symbol, labelled, shown, hidden, Syntax.Frame.appear]
      · simp [role, unlabelled]
  · obtain ⟨rule, noToken, shows⟩ := assignmentRules.visible "pattern_list" (by decide)
    rw [← Syntax.Grammar.named_mem_nonterminals_iff] at rule
    rw [← Syntax.Grammar.named_mem_terminals_iff] at noToken
    obtain ⟨parts, -, rfl⟩ :=
      yields_rule ⟨rule, noToken, shows⟩ symbol labelled shown yields
    exact ⟨_, rfl, rfl⟩

/-- An assignment that the grammar derives begins with its left side. -/
theorem begins_with_left (grown : grammar.Grown extraKinds n) (kind : n.kind = "assignment") :
    ∃ side behind, n.children = side :: behind ∧ side.role = some "left" := by
  obtain ⟨role, children, rfl, b, production, yields⟩ :=
    grown.derives grammar_closed assignmentRules.only kind
  obtain ⟨s, first, behind, rfl, one, known, labelled, shown⟩ :=
    (assignmentRules.begins b production).exists_first yields
  obtain ⟨side, rfl, left⟩ := yields_left known labelled shown one
  exact ⟨side, behind, rfl, left⟩

/-- So the left side of a link is in front of all that belongs to the next one. -/
theorem Links.leftSides_sublist_nodes (h : Links n links) (grown : grammar.Grown extraKinds n)
    (kind : n.kind = "assignment") : (leftSides links).Sublist n.nodes := by
  induction h with
  | @last n =>
      obtain ⟨side, behind, children, left⟩ := begins_with_left grown kind
      have first : n.child? "left" = some side := by simp [Node.child?, children, left]
      have one : leftSides [n] = [side] := by simp [leftSides, first]
      rw [one, List.singleton_sublist, Node.nodes_eq, children]
      exact List.mem_cons_of_mem _ (List.mem_append_left _ (Node.mem_nodes_self side))
  | @link n value links right onward _ ih =>
      obtain ⟨side, behind, children, left⟩ := begins_with_left grown kind
      have first : n.child? "left" = some side := by simp [Node.child?, children, left]
      have later : value ∈ behind := by
        refine List.mem_of_find?_eq_some (p := fun c => c.role == some "right") ?_
        simpa [Node.child?, children, left] using right
      have onwards := ih (grown.of_mem_children (Node.mem_children_of_child? right)) onward
      have sides : leftSides (n :: links) = side :: leftSides links := by
        simp [leftSides, first]
      rw [sides, Node.nodes_eq, children, List.flatMap_cons]
      have front := List.singleton_sublist.mpr (Node.mem_nodes_self side)
      exact (front.append (onwards.trans (Node.nodes_sublist_flatMap later))).cons n

theorem grown_assignment_of_parse {source : String} {root : Node} {above : List Node}
    (parses : parse source = some root) (occurs : Occurs root above n)
    (kind : n.kind = "assignment") : grammar.Grown extraKinds n := by
  rcases grown_of_parse parses occurs with ⟨-, top⟩ | grown
  · rw [kind] at top
    exact absurd top (by decide)
  · exact grown

/-! ## Chains -/

/-- **What a chain binds.** Each chain has its links, which are nodes of one tree. It binds the left
sides that are plain names, in the order of the links and as often as they stand there, exactly if
no link has a type, the last link has a value, and there is such a name. In every other case it
binds nothing, also if only one link has a type. In what the grammar derives, and so in every tree
that is read, the left sides stand in the order of the links. -/
theorem assignment_chains (n : Node) :
    ∃ links, Links n links ∧ (∀ others, Links n others → others = links) ∧
      links.Sublist n.nodes ∧
      (∀ targets, assignmentStatement n = .assignment targets ↔
        Assigns links ∧ targets = plainNames links) ∧
      (assignmentStatement n = .other ↔ ¬Assigns links) ∧
      ((∃ link ∈ links, (link.child? "type").isSome) → assignmentStatement n = .other) ∧
      (grammar.Grown extraKinds n ∨
          (∃ source root above, parse source = some root ∧ Occurs root above n) →
        n.kind = "assignment" → (leftSides links).Sublist n.nodes) := by
  obtain ⟨links, h⟩ := exists_links n
  have binds := assignmentStatement_of_assigns h
  have silent := assignmentStatement_of_not_assigns h
  refine ⟨links, h, fun others h' => h.unique h', h.sublist_nodes, fun targets => ?_, ?_, ?_, ?_⟩
  · constructor
    · intro bound
      by_cases assigns : Assigns links
      · rw [binds assigns] at bound
        exact ⟨assigns, (Statement.assignment.inj bound).symm⟩
      · rw [silent assigns] at bound
        cases bound
    · rintro ⟨assigns, rfl⟩
      exact binds assigns
  · refine ⟨fun other assigns => ?_, silent⟩
    rw [binds assigns] at other
    cases other
  · rintro ⟨link, member, typed⟩
    refine silent fun assigns => ?_
    rw [assigns.untyped link member] at typed
    cases typed
  · rintro (grown | ⟨source, root, above, parses, occurs⟩) kind
    · exact h.leftSides_sublist_nodes grown kind
    · exact h.leftSides_sublist_nodes (grown_assignment_of_parse parses occurs kind) kind

/-! ### Any length -/

/-- An assignment without a type. -/
def assign (side value : Node) : Node :=
  .group "assignment" true none
    [side.withRole (some "left"), .token "=" false none "=", value.withRole (some "right")]

/-- The grammar takes the node for the symbol. -/
def Reads (name : String) (n : Node) : Prop := grammar.Yields extraKinds [⟨.named name, {}⟩] [n]

/-- A rule that leaves no node of its own leaves what it stands for. -/
theorem Reads.through {name inner : String} (reads : Reads inner n)
    (known : (name, inner) ∈ standsFor) : Reads name n := by
  have side : ∀ p ∈ standsFor, p.1 ∈ sideRules := by decide
  have production := assignmentRules.stands (name, inner) known
  obtain ⟨rule, -, hidden⟩ := assignmentRules.hidden name (side _ known)
  exact Syntax.Grammar.yields_hidden (Syntax.Grammar.named_mem_nonterminals_iff.mpr rule) hidden
    ⟨_, production, reads⟩

/-- With a label, it passes that on. -/
theorem Reads.labelled {name : String} (reads : Reads name n) (known : name ∈ sideRules)
    (label : String) :
    grammar.Yields extraKinds [⟨.named name, { label := some label }⟩]
      [n.withRole (some label)] := by
  obtain ⟨-, noToken, hidden⟩ := assignmentRules.hidden name known
  rcases Syntax.Grammar.yields_one_iff.mp reads with
    ⟨token, -⟩ | ⟨nonterminal, inner, derives, same⟩
  · exact absurd (Syntax.Grammar.named_mem_terminals_iff.mp token) noToken
  · refine Syntax.Grammar.yields_one_iff.mpr (.inr ⟨nonterminal, inner, derives, ?_⟩)
    simp only [Syntax.Grammar.shows, hidden, Syntax.Frame.appear] at same ⊢
    change [n] = inner at same
    rw [← same]
    rfl

/-- A rule that is shown leaves a group. -/
theorem reads_group {name : String} {children : List Node} (known : name ∈ groupRules)
    (derives : grammar.Derives extraKinds (.named name) children) :
    Reads name (.group name true none children) := by
  obtain ⟨rule, -, shows⟩ := assignmentRules.visible name known
  refine Syntax.Grammar.yields_visible (Syntax.Grammar.named_mem_nonterminals_iff.mpr rule) ?_
    derives
  rw [Syntax.Grammar.display, shows]
  rfl

theorem reads_token {name : String} (known : name ∈ ["identifier", "integer"]) (text : String) :
    Reads name (.token name true none text) := by
  obtain ⟨token, display⟩ := assignmentRules.token name known
  exact Syntax.Grammar.yields_token (Syntax.Grammar.named_mem_terminals_iff.mpr token) display text

theorem reads_assign {side value : Node} (target : Reads "pattern" side)
    (right : Reads "_right_hand_side" value) : Reads "assignment" (assign side value) := by
  have equals := yields_mark (assignmentRules.mark "=" (by decide))
  have whole := Syntax.Grammar.Yields.more (target.labelled (by decide) "left")
    (List.forall_mem_nil _) (Syntax.Grammar.Yields.more equals (List.forall_mem_nil _)
      (right.labelled (by decide) "right"))
  exact reads_group (by decide) ⟨_, assignmentRules.untyped, whole⟩

theorem grown_of_reads_assignment (reads : Reads "assignment" n) :
    grammar.Grown extraKinds n := by
  obtain ⟨rule, -⟩ := assignmentRules.hidden "_right_hand_side" (by decide)
  have expected : grammar.Expects ⟨.named "assignment", {}⟩ :=
    ⟨_, Syntax.Grammar.named_mem_nonterminals_iff.mpr rule, _,
      assignmentRules.stands ("_right_hand_side", "assignment") (by decide),
      List.mem_singleton.mpr rfl⟩
  exact reads.grown (List.forall_mem_singleton.mpr expected) n (List.mem_singleton.mpr rfl)

/-- However many targets there are, the grammar takes the chain. -/
theorem reads_chain {value : Node} (right : Reads "_right_hand_side" value) {sides : List Node}
    (targets : ∀ side ∈ sides, Reads "pattern" side) :
    Reads "_right_hand_side" (sides.foldr assign value) := by
  induction sides with
  | nil => exact right
  | cons side sides ih =>
      obtain ⟨target, others⟩ := List.forall_mem_cons.mp targets
      exact (reads_assign target (ih others)).through (by decide)

/-- The target `a`. -/
def sampleName : Node := .token "identifier" true none "a"

/-- The target `()`. -/
def sampleTuple : Node :=
  .group "tuple_pattern" true none [.token "(" false none "(", .token ")" false none ")"]

/-- The value `1`. -/
def sampleValue : Node := .token "integer" true none "1"

theorem reads_sampleName : Reads "pattern" sampleName := by
  have name : Reads "identifier" sampleName := reads_token (by decide) "a"
  exact name.through (by decide)

theorem reads_sampleTuple : Reads "pattern" sampleTuple := by
  have opening := yields_mark (assignmentRules.mark "(" (by decide))
  have closing := yields_mark (assignmentRules.mark ")" (by decide))
  have parts := Syntax.Grammar.Yields.more opening (List.forall_mem_nil _) closing
  have group : Reads "tuple_pattern" sampleTuple :=
    reads_group (by decide) ⟨_, assignmentRules.empty, parts⟩
  exact group.through (by decide)

theorem reads_sampleValue : Reads "_right_hand_side" sampleValue := by
  have number : Reads "integer" sampleValue := reads_token (by decide) "1"
  have primary : Reads "primary_expression" sampleValue := number.through (by decide)
  have expression : Reads "expression" sampleValue := primary.through (by decide)
  exact expression.through (by decide)

/-- The chain `a = () = a = 1`. -/
def sampleChain : Node := [sampleName, sampleTuple, sampleName].foldr assign sampleValue

/-- The assignment `a: int = 1`. -/
def typedLink : Node :=
  .group "assignment" true none
    [sampleName.withRole (some "left"), .token ":" false none ":",
      .token "identifier" true (some "type") "int", .token "=" false none "=",
      sampleValue.withRole (some "right")]

theorem reads_sampleChain : Reads "assignment" sampleChain := by
  refine reads_assign reads_sampleName (reads_chain reads_sampleValue ?_)
  simp [reads_sampleName, reads_sampleTuple]

/-- The name that stands twice is bound twice, and the chain with a type binds none. -/
theorem assignment_chains_of_sampleChain :
    (grammar.Grown extraKinds sampleChain ∧ sampleChain.kind = "assignment" ∧
      assignmentStatement sampleChain = .assignment ["a", "a"] ∧
      ([sampleName, sampleTuple, sampleName].map (Node.withRole (some "left"))).Sublist
        sampleChain.nodes) ∧
    assignmentStatement (assign sampleName typedLink) = .other := by
  let second := (assign sampleTuple (assign sampleName sampleValue)).withRole (some "right")
  let third := (assign sampleName sampleValue).withRole (some "right")
  let typed := typedLink.withRole (some "right")
  have ends {n : Node} (right : n.child? "right" = some (sampleValue.withRole (some "right"))) :
      Links n [n] := by
    refine .last fun value right' => ?_
    obtain rfl := Option.some.inj (right.symm.trans right')
    decide
  constructor
  · obtain ⟨links, -, unique, -, binds, -, -, order⟩ := assignment_chains sampleChain
    obtain rfl := unique [sampleChain, second, third] (.link rfl rfl (.link rfl rfl (ends rfl)))
    have sides : leftSides [sampleChain, second, third] =
        [sampleName, sampleTuple, sampleName].map (Node.withRole (some "left")) := rfl
    have names : plainNames [sampleChain, second, third] = ["a", "a"] := by
      simp [plainNames, sides, sampleName, sampleTuple, Node.withRole, Node.text]
    have assigns : Assigns [sampleChain, second, third] := by
      refine ⟨?_, ⟨third, rfl, rfl⟩, sampleName.withRole (some "left"), by simp [sides], rfl⟩
      simp only [List.forall_mem_cons]
      exact ⟨rfl, rfl, rfl, List.forall_mem_nil _⟩
    have grown := grown_of_reads_assignment reads_sampleChain
    refine ⟨grown, rfl, (binds _).mpr ⟨assigns, names.symm⟩, ?_⟩
    exact sides ▸ order (.inl grown) rfl
  · obtain ⟨links, -, unique, -, -, -, discards, -⟩ :=
      assignment_chains (assign sampleName typedLink)
    obtain rfl := unique [assign sampleName typedLink, typed] (.link rfl rfl (ends rfl))
    exact discards ⟨typed, by simp, rfl⟩

end Source

end ApiInventory
