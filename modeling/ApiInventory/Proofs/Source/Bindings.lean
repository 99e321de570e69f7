import ApiInventory.Proofs.Source.Outdated

/-!
# What the statements of a module bind

`Binds` says of a single statement which names it binds, and to what: a function or class
definition binds its name, whatever decorates it; a statement that is one chain of assignments
binds the plain names among the targets of its links, unless one of the links is annotated. There
is no other rule, so that other statements bind nothing, and neither does anything inside one.

A module comes to a table, and a class body to the members of its class, by one law (`Reduces`):
each name is as it is bound by the first statement that binds it. Only one table satisfies the law
(`Reduces.unique`), and it is the one that is extracted (`extract_eq_some_iff`).
-/

namespace ApiInventory

namespace Source

open Syntax (Node)

/-! ## Parameters -/

/-- A parameter that can be given by position, and its name. -/
inductive TakesPosition (p : Node) : String → Prop
  | plain (kind : p.kind = "identifier") : TakesPosition p p.text
  | defaulted {label : Node}
      (kind : p.kind = "default_parameter" ∨ p.kind = "typed_default_parameter")
      (named : p.child? "name" = some label) (identifier : label.kind = "identifier") :
      TakesPosition p label.text
  | typed {label : Node} {others : List Node} (kind : p.kind = "typed_parameter")
      (parts : p.namedChildren = label :: others) (identifier : label.kind = "identifier") :
      TakesPosition p label.text

/-- A star, alone or with the name of the arguments that are left, which may be annotated. From
there on parameters are given by keyword only. -/
inductive EndsPositions (p : Node) : Prop
  | star (kind : p.kind = "keyword_separator" ∨ p.kind = "list_splat_pattern")
  | annotated {label : Node} {others : List Node} (kind : p.kind = "typed_parameter")
      (parts : p.namedChildren = label :: others) (splat : label.kind = "list_splat_pattern")

/-- The names of the parameters that can be given by position, in their order. -/
inductive PositionalNames : List Node → List String → Prop
  | done : PositionalNames [] []
  | ends {p : Node} {ps : List Node} (star : EndsPositions p) : PositionalNames (p :: ps) []
  | takes {p : Node} {ps : List Node} {name : String} {names : List String}
      (position : TakesPosition p name) (rest : PositionalNames ps names) :
      PositionalNames (p :: ps) (name :: names)
  | passes {p : Node} {ps : List Node} {names : List String} (noStar : ¬EndsPositions p)
      (nameless : ∀ name, ¬TakesPosition p name) (rest : PositionalNames ps names) :
      PositionalNames (p :: ps) names

theorem nameIfIdentifier_eq_positional {n : Node} {name : String} :
    nameIfIdentifier n = .positional name ↔ n.kind = "identifier" ∧ n.text = name := by
  unfold nameIfIdentifier
  by_cases identifier : n.kind = "identifier" <;> simp [identifier]

theorem nameIfIdentifier_ne_keywordsFollow (n : Node) : nameIfIdentifier n ≠ .keywordsFollow := by
  unfold nameIfIdentifier
  split <;> simp

theorem takesPosition_iff {p : Node} {name : String} :
    TakesPosition p name ↔ parameterRole p = .positional name := by
  constructor
  · intro takes
    cases takes with
    | plain kind => simp [parameterRole, kind]
    | defaulted kind named identifier =>
        rcases kind with kind | kind <;>
          simp [parameterRole, kind, named, nameIfIdentifier_eq_positional, identifier]
    | typed kind parts identifier =>
        simp [parameterRole, kind, parts, identifier, nameIfIdentifier_eq_positional]
  · intro role
    unfold parameterRole at role
    split at role
    · rename_i kind
      cases role
      exact .plain kind
    · rename_i kind
      split at role
      · rename_i named
        obtain ⟨identifier, rfl⟩ := nameIfIdentifier_eq_positional.mp role
        exact .defaulted (.inl kind) named identifier
      · cases role
    · rename_i kind
      split at role
      · rename_i named
        obtain ⟨identifier, rfl⟩ := nameIfIdentifier_eq_positional.mp role
        exact .defaulted (.inr kind) named identifier
      · cases role
    · rename_i kind
      split at role
      · rename_i parts
        split at role
        · cases role
        · obtain ⟨identifier, rfl⟩ := nameIfIdentifier_eq_positional.mp role
          exact .typed kind parts identifier
      · cases role
    all_goals cases role

theorem endsPositions_iff {p : Node} : EndsPositions p ↔ parameterRole p = .keywordsFollow := by
  constructor
  · intro ends
    cases ends with
    | star kind => rcases kind with kind | kind <;> simp [parameterRole, kind]
    | annotated kind parts splat => simp [parameterRole, kind, parts, splat]
  · intro role
    unfold parameterRole at role
    split at role
    · cases role
    · split at role
      · exact absurd role (nameIfIdentifier_ne_keywordsFollow _)
      · cases role
    · split at role
      · exact absurd role (nameIfIdentifier_ne_keywordsFollow _)
      · cases role
    · rename_i kind
      split at role
      · rename_i parts
        split at role
        · rename_i splat
          exact .annotated kind parts (beq_iff_eq.mp splat)
        · exact absurd role (nameIfIdentifier_ne_keywordsFollow _)
      · cases role
    · rename_i kind
      exact .star (.inr kind)
    · rename_i kind
      exact .star (.inl kind)
    · cases role

/-- The names that are recorded for a list of parameters. -/
theorem positionalNames_iff {ps : List Node} {names : List String} :
    PositionalNames ps names ↔ positionalNames ps = names := by
  constructor
  · intro positional
    induction positional with
    | done => rfl
    | ends star => rw [positionalNames, endsPositions_iff.mp star]
    | takes position _ ih => rw [positionalNames, takesPosition_iff.mp position, ih]
    | @passes p ps names noStar nameless _ ih =>
        cases role : parameterRole p with
        | positional name => exact absurd (takesPosition_iff.mpr role) (nameless name)
        | keywordsFollow => exact absurd (endsPositions_iff.mpr role) noStar
        | ignored => rw [positionalNames, role, ih]
  · rintro rfl
    induction ps with
    | nil => exact .done
    | cons p ps ih =>
        cases role : parameterRole p with
        | positional name =>
            rw [positionalNames, role]
            exact .takes (takesPosition_iff.mpr role) ih
        | keywordsFollow =>
            rw [positionalNames, role]
            exact .ends (endsPositions_iff.mpr role)
        | ignored =>
            rw [positionalNames, role]
            have noStar : ¬EndsPositions p := by simp [endsPositions_iff, role]
            have nameless : ∀ name, ¬TakesPosition p name := by simp [takesPosition_iff, role]
            exact .passes noStar nameless ih

/-! ## Assignments -/

/-- The links of a chain of assignments. Each but the first is the value of the one before, and the
last one has a value that is no assignment. -/
inductive Chain : Node → List Node → Prop
  | last {n value : Node} (right : n.child? "right" = some value)
      (ends : value.kind ≠ "assignment") : Chain n [n]
  | link {n value : Node} {links : List Node} (right : n.child? "right" = some value)
      (onward : value.kind = "assignment") (rest : Chain value links) : Chain n (n :: links)

/-- The target of a link, if it is a plain name. -/
def plainTarget (link : Node) : List String :=
  match link.child? "left" with
  | some left => if left.kind = "identifier" then [left.text] else []
  | none => []

/-- The targets of a link come before those of its value, if that is a link, too. -/
theorem chainTargets_eq (n : Node) :
    chainTargets n =
      if (n.child? "type").isSome then none
      else (n.child? "right").bind fun value =>
        if value.kind = "assignment" then (chainTargets value).map (plainTarget n ++ ·)
        else some (plainTarget n) := by
  have here : plainTarget n = match n.child? "left" with
      | some left => if left.kind == "identifier" then [left.text] else []
      | none => [] := by
    unfold plainTarget
    split <;> simp
  rw [chainTargets, here]
  split
  · rfl
  · dsimp only
    split
    · rename_i right
      rw [right, Option.bind_none]
    · rename_i right
      cases n.child? "left" <;> simp [right]

/-- A chain has the plain names among its targets, unless one of its links is annotated. -/
theorem chainTargets_eq_some_iff {n : Node} {targets : List String} :
    chainTargets n = some targets ↔
      ∃ links, Chain n links ∧ (∀ link ∈ links, link.child? "type" = none) ∧
        targets = links.flatMap plainTarget := by
  constructor
  · induction n using chainTargets.induct generalizing targets with
    | case1 n annotated =>
        intro collected
        rw [chainTargets_eq, if_pos annotated] at collected
        cases collected
    | case2 n plain valueless =>
        intro collected
        rw [chainTargets_eq, if_neg plain, valueless] at collected
        cases collected
    | case3 n plain value right onward ih =>
        intro collected
        rw [chainTargets_eq, if_neg plain, right, Option.bind_some,
          if_pos (beq_iff_eq.mp onward)] at collected
        obtain ⟨later, rest, rfl⟩ := Option.map_eq_some_iff.mp collected
        obtain ⟨links, chain, plains, rfl⟩ := ih rest
        refine ⟨n :: links, .link right (beq_iff_eq.mp onward) chain, ?_, rfl⟩
        rw [List.forall_mem_cons]
        exact ⟨by simpa using plain, plains⟩
    | case4 n plain value right ends =>
        intro collected
        have ends : value.kind ≠ "assignment" := by simpa using ends
        rw [chainTargets_eq, if_neg plain, right, Option.bind_some, if_neg ends] at collected
        refine ⟨[n], .last right ends, ?_, by simpa [eq_comm] using collected⟩
        rw [List.forall_mem_singleton]
        simpa using plain
  · rintro ⟨links, chain, plain, rfl⟩
    induction chain with
    | @last n value right ends =>
        rw [List.forall_mem_singleton] at plain
        simp [chainTargets_eq n, plain, right, ends]
    | @link n value links right onward _ ih =>
        obtain ⟨plain, rest⟩ := List.forall_mem_cons.mp plain
        simp [chainTargets_eq n, plain, right, onward, ih rest]

/-! ## Statements -/

/-- What a name is bound to: a function with the parameters that can be given by position, a class
with the statements of its body, or a value. -/
inductive Bound where
  | function (parameters : List String)
  | classType (body : List Node)
  | value

/-- The named nodes of the part that plays a role, if there is one. -/
def partNodes (n : Node) (label : String) : List Node :=
  ((n.child? label).map Node.namedChildren).getD []

/-- A statement binds a name. -/
inductive Binds : Node → String → Bound → Prop
  | decorated {n inner : Node} {name : String} {bound : Bound}
      (kind : n.kind = "decorated_definition") (definition : n.child? "definition" = some inner)
      (binds : Binds inner name bound) : Binds n name bound
  | function {n label : Node} {names : List String}
      (kind : n.kind = "function_definition" ∨ n.kind = "async_function_definition")
      (named : n.child? "name" = some label)
      (parameters : PositionalNames (partNodes n "parameters") names) :
      Binds n label.text (.function names)
  | classType {n label : Node} (kind : n.kind = "class_definition")
      (named : n.child? "name" = some label) :
      Binds n label.text (.classType (partNodes n "body"))
  | assignment {n first link : Node} {links : List Node} {name : String}
      (kind : n.kind = "expression_statement") (only : n.namedChildren = [first])
      (assigns : first.kind = "assignment") (chain : Chain first links)
      (plain : ∀ link ∈ links, link.child? "type" = none) (member : link ∈ links)
      (target : name ∈ plainTarget link) : Binds n name .value

/-- A statement in its reduced form binds a name. -/
def Statement.Binds : Statement → String → Bound → Prop
  | .callable label parameters, name, bound => label = name ∧ .function parameters = bound
  | .typeDeclaration label body, name, bound =>
    label = name ∧ .classType ((body.map Node.namedChildren).getD []) = bound
  | .assignment targets, name, bound => name ∈ targets ∧ .value = bound
  | .other, _, _ => False

variable {n inner label first : Node} {name : String} {bound : Bound}

theorem classify_decorated (kind : n.kind = "decorated_definition")
    (definition : n.child? "definition" = some inner) : classify n = classify inner := by
  rw [classify]
  simp only [kind]
  split
  · rename_i found
    rw [definition] at found
    cases found
    rfl
  · rename_i none
    rw [definition] at none
    cases none

theorem classify_function
    (kind : n.kind = "function_definition" ∨ n.kind = "async_function_definition")
    (named : n.child? "name" = some label) :
    classify n = .callable label.text (positionalNames (partNodes n "parameters")) := by
  have parameters : ((n.child? "parameters").map positionalParameters).getD [] =
      positionalNames (partNodes n "parameters") := by
    unfold partNodes
    cases n.child? "parameters" <;> rfl
  rcases kind with kind | kind <;> simp [classify, kind, named, parameters]

theorem classify_class (kind : n.kind = "class_definition")
    (named : n.child? "name" = some label) :
    classify n = .typeDeclaration label.text (n.child? "body") := by
  simp [classify, kind, named]

theorem classify_expression (kind : n.kind = "expression_statement")
    (only : n.namedChildren = [first]) (assigns : first.kind = "assignment") :
    classify n = assignmentStatement first := by
  simp [classify, kind, only, assigns]

theorem binds_assignmentStatement :
    (assignmentStatement first).Binds name bound ↔
      (∃ targets, chainTargets first = some targets ∧ name ∈ targets) ∧ .value = bound := by
  unfold assignmentStatement
  split
  · rename_i nothing
    simp [Statement.Binds, nothing]
  · rename_i nothing
    simp [Statement.Binds, nothing]
  · rename_i targets some collected
    simp [Statement.Binds, collected]

/-- The reduced form of a statement binds no more than the statement does. -/
theorem binds_of_binds_classify (binds : (classify n).Binds name bound) : Binds n name bound := by
  induction n using classify.induct with
  | case1 n kind inner definition ih =>
      rw [classify_decorated kind definition] at binds
      exact .decorated kind definition (ih binds)
  | case3 n kind label named =>
      rw [classify_function (.inl kind) named] at binds
      obtain ⟨rfl, rfl⟩ := binds
      exact .function (.inl kind) named (positionalNames_iff.mpr rfl)
  | case5 n kind label named =>
      rw [classify_function (.inr kind) named] at binds
      obtain ⟨rfl, rfl⟩ := binds
      exact .function (.inr kind) named (positionalNames_iff.mpr rfl)
  | case7 n kind label named =>
      rw [classify_class kind named] at binds
      obtain ⟨rfl, rfl⟩ := binds
      exact .classType kind named
  | case9 n kind first only assigns =>
      rw [classify_expression kind only (beq_iff_eq.mp assigns)] at binds
      obtain ⟨⟨targets, collected, member⟩, rfl⟩ := binds_assignmentStatement.mp binds
      obtain ⟨links, chain, plain, rfl⟩ := chainTargets_eq_some_iff.mp collected
      obtain ⟨link, inside, target⟩ := List.mem_flatMap.mp member
      exact .assignment kind only (beq_iff_eq.mp assigns) chain plain inside target
  | case2 n kind absent =>
      rw [classify] at binds
      simp only [kind] at binds
      split at binds
      · rename_i found
        rw [absent] at found
        cases found
      · cases binds
  | case4 n kind absent | case6 n kind absent | case8 n kind absent =>
      simp [classify, kind, absent, Statement.Binds] at binds
  | case10 n kind first only other =>
      simp [classify, kind, only, other, Statement.Binds] at binds
  | case11 n kind several =>
      rw [classify] at binds
      simp only [kind] at binds
      exact binds.elim
  | case12 n noDecorated noFunction noAsync noClass noExpression =>
      rw [classify] at binds
      split at binds
      · exact absurd ‹_› noDecorated
      · exact absurd ‹_› noFunction
      · exact absurd ‹_› noAsync
      · exact absurd ‹_› noClass
      · exact absurd ‹_› noExpression
      · cases binds

/-- And no less. -/
theorem Binds.classified (binds : Binds n name bound) : (classify n).Binds name bound := by
  induction binds with
  | decorated kind definition _ ih =>
      rw [classify_decorated kind definition]
      exact ih
  | function kind named parameters =>
      rw [classify_function kind named, positionalNames_iff.mp parameters]
      exact ⟨rfl, rfl⟩
  | classType kind named =>
      rw [classify_class kind named]
      exact ⟨rfl, rfl⟩
  | assignment kind only assigns chain plain member target =>
      rw [classify_expression kind only assigns, binds_assignmentStatement]
      have collected := chainTargets_eq_some_iff.mpr ⟨_, chain, plain, rfl⟩
      exact ⟨⟨_, collected, List.mem_flatMap.mpr ⟨_, member, target⟩⟩, rfl⟩

/-- The reduced form of a statement binds what the statement binds. -/
theorem binds_classify_iff : (classify n).Binds name bound ↔ Binds n name bound :=
  ⟨binds_of_binds_classify, Binds.classified⟩

/-! ## Tables -/

/-- What a name that a statement of a class body binds is as a member. A class is none. -/
inductive IsMember : Bound → Member → Prop
  | method {names : List String} : IsMember (.function names) (.method names)
  | field : IsMember .value .field

variable {α : Type}

/-- A name is as it is bound by one of the statements, and those before it do not bind it. -/
def FirstBinds (is : Bound → α → Prop) (statements : List Node) (name : String) (x : α) : Prop :=
  ∃ before statement after, statements = before ++ statement :: after ∧
    (∃ bound, Binds statement name bound ∧ is bound x) ∧
    ∀ earlier ∈ before, ∀ bound y, Binds earlier name bound → ¬is bound y

/-- Statements come to a map: each name is as it is bound first. -/
def Reduces (is : Bound → α → Prop) (statements : List Node) (m : NameMap α) : Prop :=
  ∀ name x, m.get? name = some x ↔ FirstBinds is statements name x

/-- What a name that a statement of a module binds is as a symbol. A class has the members that the
statements of its body come to. -/
inductive IsSymbol : Bound → Signature → Prop
  | function {names : List String} : IsSymbol (.function names) (.function names)
  | classType {body : List Node} {members : NameMap Member}
      (reduces : Reduces IsMember body members) : IsSymbol (.classType body) (.classType members)
  | variable : IsSymbol .value .variable

theorem Reduces.unique {is : Bound → α → Prop} {statements : List Node} {m m' : NameMap α}
    (h : Reduces is statements m) (h' : Reduces is statements m') : m = m' := by
  apply NameMap.ext_get?
  intro name
  apply Option.ext
  intro x
  rw [h name x, h' name x]

theorem lookup_flatMap (bindings : Statement → List (String × α)) (statements : List Statement)
    (name : String) :
    (statements.flatMap bindings).lookup name =
      statements.findSome? fun s => (bindings s).lookup name := by
  induction statements with
  | nil => rfl
  | cons s rest ih =>
      rw [List.flatMap_cons, List.lookup_append, ih, List.findSome?_cons]
      cases (bindings s).lookup name <;> rfl

/-- Bindings that are added first-come come to the map that the law asks for. -/
theorem reduces_addFirst {is : Bound → α → Prop} {bindings : Statement → List (String × α)}
    (agree : ∀ s name x, (bindings s).lookup name = some x ↔
      ∃ bound, Statement.Binds s name bound ∧ is bound x) (statements : List Node) :
    Reduces is statements (addFirst ∅ ((statements.map classify).flatMap bindings)) := by
  intro name x
  have bound (n : Node) (y : α) : (bindings (classify n)).lookup name = some y ↔
      ∃ bound, Binds n name bound ∧ is bound y := by
    simp only [agree, binds_classify_iff]
  have nothing (n : Node) : (bindings (classify n)).lookup name = none ↔
      ∀ bound y, Binds n name bound → ¬is bound y := by
    rw [Option.eq_none_iff_forall_ne_some]
    constructor
    · intro unbound b y binds holds
      exact unbound y ((bound n y).mpr ⟨b, binds, holds⟩)
    · intro unbound y lookup
      obtain ⟨b, binds, holds⟩ := (bound n y).mp lookup
      exact unbound b y binds holds
  rw [addFirst, NameMap.get?_foldl_insertNew, NameMap.get?_empty, Option.none_or, lookup_flatMap,
    List.findSome?_map, List.findSome?_eq_some_iff]
  simp only [Function.comp_apply, bound, nothing]
  rfl

theorem lookup_targets {targets : List String} {x y : α} :
    (targets.map fun t => (t, x)).lookup name = some y ↔ name ∈ targets ∧ x = y := by
  induction targets with
  | nil => simp
  | cons t rest ih =>
      rw [List.map_cons, NameMap.lookup_cons_if, List.mem_cons]
      by_cases here : name = t
      · simp [here]
      · simp [here, ih]

theorem lookup_singleton {label : String} {x y : α} :
    [(label, x)].lookup name = some y ↔ label = name ∧ x = y := by
  rw [NameMap.lookup_cons_if]
  by_cases same : name = label
  · simp [same]
  · simp [same, Ne.symm same]

/-! ### Members -/

theorem isMember_function {names : List String} {member : Member} :
    IsMember (.function names) member ↔ .method names = member := by
  constructor
  · rintro ⟨⟩
    rfl
  · rintro rfl
    exact .method

theorem not_isMember_classType {body : List Node} {member : Member} :
    ¬IsMember (.classType body) member := nofun

theorem isMember_value {member : Member} : IsMember .value member ↔ .field = member := by
  constructor
  · rintro ⟨⟩
    rfl
  · rintro rfl
    exact .field

theorem lookup_memberBindings (s : Statement) (name : String) (member : Member) :
    (memberBindings s).lookup name = some member ↔
      ∃ bound, s.Binds name bound ∧ IsMember bound member := by
  cases s with
  | callable label names =>
      rw [memberBindings, lookup_singleton]
      simp [Statement.Binds, and_assoc, isMember_function]
  | typeDeclaration label body =>
      simp [memberBindings, Statement.Binds, and_assoc, not_isMember_classType]
  | assignment targets =>
      rw [memberBindings, lookup_targets]
      simp [Statement.Binds, and_assoc, isMember_value]
  | other => simp [memberBindings, Statement.Binds]

theorem reduces_classMembers (body : Node) :
    Reduces IsMember body.namedChildren (classMembers body) :=
  reduces_addFirst lookup_memberBindings body.namedChildren

/-! ### Symbols -/

/-- A class has the members that its body comes to, and no others. -/
theorem isSymbol_classType {body : Option Node} {signature : Signature} :
    IsSymbol (.classType ((body.map Node.namedChildren).getD [])) signature ↔
      .classType ((body.map classMembers).getD ∅) = signature := by
  have reduces : Reduces IsMember ((body.map Node.namedChildren).getD [])
      ((body.map classMembers).getD ∅) := by
    cases body with
    | none => exact reduces_addFirst lookup_memberBindings []
    | some body => exact reduces_classMembers body
  constructor
  · rintro ⟨⟩
    rename_i reduces'
    rw [reduces.unique reduces']
  · rintro rfl
    exact .classType reduces

theorem lookup_symbolBindings (s : Statement) (name : String) (signature : Signature) :
    (symbolBindings s).lookup name = some signature ↔
      ∃ bound, s.Binds name bound ∧ IsSymbol bound signature := by
  have function (names : List String) :
      IsSymbol (.function names) signature ↔ .function names = signature :=
    ⟨by rintro ⟨⟩; rfl, by rintro rfl; exact .function⟩
  have value : IsSymbol .value signature ↔ .variable = signature :=
    ⟨by rintro ⟨⟩; rfl, by rintro rfl; exact .variable⟩
  cases s with
  | callable label names =>
      rw [symbolBindings, lookup_singleton]
      simp [Statement.Binds, and_assoc, function]
  | typeDeclaration label body =>
      rw [symbolBindings, lookup_singleton]
      simp [Statement.Binds, and_assoc, isSymbol_classType]
  | assignment targets =>
      rw [symbolBindings, lookup_targets]
      simp [Statement.Binds, and_assoc, value]
  | other => simp [symbolBindings, Statement.Binds]

theorem reduces_moduleSymbols (root : Node) :
    Reduces IsSymbol root.namedChildren (moduleSymbols root) :=
  reduces_addFirst lookup_symbolBindings root.namedChildren

theorem symbolsOfTree_eq_some_iff {root : Node} {table : SymbolTable} :
    symbolsOfTree root = some table ↔
      ¬HasOutdated root ∧ Reduces IsSymbol root.namedChildren table := by
  by_cases outdated : HasOutdated root
  · simp [symbolsOfTree_of_hasOutdated outdated, outdated]
  · rw [symbolsOfTree_of_not_hasOutdated outdated, Option.some.injEq, and_iff_right outdated]
    constructor
    · rintro rfl
      exact reduces_moduleSymbols root
    · exact (reduces_moduleSymbols root).unique

/-- A source text has a table exactly if the grammar accepts it and no outdated construct stands in
its tree, and its names are then as the statements of the module bind them first. Of any tree, with
whatever parser it was read, the same is true. -/
theorem extract_eq_some_iff (table : SymbolTable) :
    (∀ source, extract source = some table ↔
      ∃ root, parse source = some root ∧ ¬HasOutdated root ∧
        Reduces IsSymbol root.namedChildren table) ∧
    ∀ root, symbolsOfTree root = some table ↔
      ¬HasOutdated root ∧ Reduces IsSymbol root.namedChildren table := by
  refine ⟨fun source => ?_, fun root => symbolsOfTree_eq_some_iff⟩
  simp only [extract, Option.bind_eq_some_iff, symbolsOfTree_eq_some_iff]

end Source

end ApiInventory
