import ApiInventory.Proofs.Source.Bindings
import ApiInventory.Proofs.Syntax.Derivation
import Mathlib

/-!
# Which parameters can be given by position

A list of parameters is what the grammar derives for one (`IsParameterList`): parameters of nine
forms in any order, also in orders that no interpreter takes, with comments and line continuations
between them. Each part of such a list has one of the forms of `Form`, which are told apart by what
the part begins with (`Form.Reads`).

The names that can be given by position are those in front of the first star
(`positionalParameters_eq`). What is not a name or a star does not count, nor does the rest of a
parameter behind its name: lists with the same marks have the same names
(`positionalNames_of_marks`).
-/

namespace ApiInventory.Source

open Syntax (Node Step Symbol Rule Body IsExtra)

/-! ## Forms of parameters -/

/-- The kinds of what may stand between any two tokens of a source. -/
def extraKinds : List String := ["comment", "line_continuation"]

/-- A list of parameters with its parentheses, as the grammar reads it. -/
inductive IsParameterList : Node → Prop
  | intro {role : Option String} {parts : List Node}
      (derives : grammar.Derives extraKinds (.named "parameters") parts) :
      IsParameterList (.group "parameters" true role parts)

inductive Form where
  | plain (name : String)
  | typed (name : String)
  | defaulted (name : String)
  | typedDefaulted (name : String)
  | bareStar
  | arguments
  | typedArguments
  | keywords
  | typedKeywords
  | slash
  | tuple
  | defaultedTuple
  /-- A comment or a line continuation. -/
  | note

namespace Form

/-- The name that can be given by position, if the parameter has one. -/
def name? : Form → Option String
  | plain name | typed name | defaulted name | typedDefaulted name => some name
  | _ => none

/-- From a star on, arguments are given by keyword only. -/
def isStar : Form → Bool
  | bareStar | arguments | typedArguments => true
  | _ => false

/-- All that counts: a name, or a star. -/
def mark (form : Form) : Option (Option String) :=
  if form.isStar then some none else form.name?.map some

/-- A part of a list has the form. Of a parameter with an annotation or a default this says only
what it begins with. -/
inductive Reads : Form → Node → Prop
  | plain (name : String) : Reads (plain name) (.token "identifier" true none name)
  | typed (name : String) (behind : List Node) :
      Reads (typed name)
        (.group "typed_parameter" true none (.token "identifier" true none name :: behind))
  | defaulted (name : String) (value : List Node) :
      Reads (defaulted name)
        (.group "default_parameter" true none
          (.token "identifier" true (some "name") name :: value))
  | typedDefaulted (name : String) (behind : List Node) :
      Reads (typedDefaulted name)
        (.group "typed_default_parameter" true none
          (.token "identifier" true (some "name") name :: behind))
  | bareStar (mark : List Node) : Reads bareStar (.group "keyword_separator" true none mark)
  | arguments (parts : List Node) : Reads arguments (.group "list_splat_pattern" true none parts)
  | typedArguments (parts behind : List Node) :
      Reads typedArguments
        (.group "typed_parameter" true none
          (.group "list_splat_pattern" true none parts :: behind))
  | keywords (parts : List Node) :
      Reads keywords (.group "dictionary_splat_pattern" true none parts)
  | typedKeywords (parts behind : List Node) :
      Reads typedKeywords
        (.group "typed_parameter" true none
          (.group "dictionary_splat_pattern" true none parts :: behind))
  | slash (mark : List Node) : Reads slash (.group "positional_separator" true none mark)
  | tuple (parts : List Node) : Reads tuple (.group "tuple_pattern" true none parts)
  | defaultedTuple (parts value : List Node) :
      Reads defaultedTuple
        (.group "default_parameter" true none
          (.group "tuple_pattern" true (some "name") parts :: value))
  | note {kind : String} (known : kind ∈ extraKinds) (text : String) :
      Reads note (.token kind true none text)

variable {form : Form} {n : Node}

theorem Reads.named (reads : form.Reads n) : n.named = true := by
  cases reads <;> rfl

/-- A part has no more than one form. -/
theorem Reads.unique {form' : Form} (h : form.Reads n) (h' : form'.Reads n) : form = form' := by
  have noNote : "identifier" ∉ extraKinds := by decide
  generalize same : n = n' at h'
  cases h <;> cases h' <;> simp_all

/-- What a part means for the names is read off its form. -/
theorem Reads.parameterRole_eq (reads : form.Reads n) :
    parameterRole n =
      if form.isStar then .keywordsFollow
      else (form.name?.map ParameterRole.positional).getD .ignored := by
  cases reads with
  | note known text => fin_cases known <;> rfl
  | _ =>
      simp [parameterRole, nameIfIdentifier, Node.child?, Node.namedChildren, List.filter_cons,
        Node.text, isStar, name?]

end Form

/-- The names that are in front of the first star. -/
def namesBeforeStar (forms : List Form) : List String :=
  (forms.takeWhile fun form => !form.isStar).filterMap Form.name?

theorem positionalNames_eq {forms : List Form} {parts : List Node}
    (reads : List.Forall₂ Form.Reads forms parts) :
    positionalNames parts = namesBeforeStar forms := by
  induction reads with
  | nil => rfl
  | @cons form n forms parts read _ ih =>
      rw [positionalNames, read.parameterRole_eq, namesBeforeStar, List.takeWhile_cons]
      cases star : form.isStar with
      | true => rfl
      | false =>
          cases name : form.name? with
          | none => simpa [name, namesBeforeStar] using ih
          | some name => simpa [name, namesBeforeStar] using ih

/-! ## Lists of parameters -/

/-- The symbols of a list of parameters that leave no node of their own. -/
def listSymbols : List Symbol :=
  [.named "_parameters", .named "parameter",
    .repetition (.seq (.literal ",") (.named "parameter"))]

/-- The symbols that stand for a parameter. -/
def parameterSymbols : List Symbol :=
  [.named "identifier", .named "typed_parameter", .named "default_parameter",
    .named "typed_default_parameter", .named "list_splat_pattern", .named "tuple_pattern",
    .named "keyword_separator", .named "positional_separator", .named "dictionary_splat_pattern"]

/-- A step that may occur in a list of parameters, on any level above the single parameters. -/
def IsListStep (s : Step) : Prop :=
  s.symbol ∈ listSymbols ++ parameterSymbols ++ [.literal "(", .literal ",", .literal ")"] ∧
    s.marks.label = none ∧ s.marks.shown = none

instance (s : Step) : Decidable (IsListStep s) := inferInstanceAs (Decidable (_ ∧ _))

theorem listSteps : ∀ x ∈ .named "parameters" :: listSymbols, ∀ b ∈ grammar.productionsOf x,
    ∀ s ∈ b.steps, IsListStep s := by
  decide +kernel

/-- What the production begins with. -/
def BeginsWith (b : Body) (label : Option String) (symbols : List Symbol) : Prop :=
  ∃ s ∈ b.steps.take 1, s.symbol ∈ symbols ∧ s.marks.label = label ∧ s.marks.shown = none

instance (b : Body) (label : Option String) (symbols : List Symbol) :
    Decidable (BeginsWith b label symbols) := inferInstanceAs (Decidable (∃ _ ∈ _, _))

theorem typed_begins : ∀ b ∈ grammar.productionsOf (.named "typed_parameter"),
    BeginsWith b none
      [.named "identifier", .named "list_splat_pattern", .named "dictionary_splat_pattern"] := by
  decide +kernel

theorem defaulted_begins : ∀ b ∈ grammar.productionsOf (.named "default_parameter"),
    BeginsWith b (some "name") [.named "identifier", .named "tuple_pattern"] := by
  decide +kernel

theorem typedDefaulted_begins : ∀ b ∈ grammar.productionsOf (.named "typed_default_parameter"),
    BeginsWith b (some "name") [.named "identifier"] := by
  decide +kernel

variable {s : Step} {label : Option String} {nodes : List Node}

/-- A name stands for a token. -/
theorem yields_identifier (symbol : s.symbol = .named "identifier")
    (labelled : s.marks.label = label) (shown : s.marks.shown = none)
    (yields : grammar.Yields extraKinds [s] nodes) :
    ∃ name, nodes = [.token "identifier" true label name] := by
  have display : grammar.display (.named "identifier") = some ("identifier", true) := by
    decide +kernel
  rcases Syntax.Grammar.yields_one_iff.mp yields with ⟨-, name, rfl⟩ | ⟨-, -, ⟨b, made, -⟩, -⟩
  · refine ⟨name, ?_⟩
    rw [Syntax.Grammar.shows, symbol, labelled, shown, display]
    rfl
  · have none : grammar.productionsOf (.named "identifier") = [] := by decide +kernel
    rw [symbol, none] at made
    cases made

/-- A rule that is not hidden stands for a group under its name. -/
theorem yields_rule {kind : String}
    (rule : .named kind ∈ grammar.nonterminals ∧ .named kind ∉ grammar.terminals ∧
      grammar.isHidden kind = false)
    (symbol : s.symbol = .named kind) (labelled : s.marks.label = label)
    (shown : s.marks.shown = none) (yields : grammar.Yields extraKinds [s] nodes) :
    ∃ parts, grammar.Derives extraKinds (.named kind) parts ∧
      nodes = [.group kind true label parts] := by
  rcases Syntax.Grammar.yields_one_iff.mp yields with ⟨token, -⟩ | ⟨-, parts, derives, rfl⟩
  · exact absurd (symbol ▸ token) rule.2.1
  · refine ⟨parts, symbol ▸ derives, ?_⟩
    rw [Syntax.Grammar.shows, symbol, labelled, shown, Syntax.Grammar.display, rule.2.2]
    rfl

theorem BeginsWith.exists_first {b : Body} {symbols : List Symbol}
    (begins : BeginsWith b label symbols) (yields : grammar.Yields extraKinds b.steps nodes) :
    ∃ s first rest, nodes = first ++ rest ∧ grammar.Yields extraKinds [s] first ∧
      s.symbol ∈ symbols ∧ s.marks.label = label ∧ s.marks.shown = none := by
  obtain ⟨s, front, known, labelled, shown⟩ := begins
  cases steps : b.steps with
  | nil => simp [steps] at front
  | cons s' later =>
      obtain rfl : s = s' := by simpa [steps] using front
      obtain ⟨first, between, rest, split, one, -⟩ := Syntax.Grammar.Yields.head (steps ▸ yields)
      rw [List.append_assoc] at split
      exact ⟨s, first, between ++ rest, split, one, known, labelled, shown⟩

/-- The rules for parameters leave nodes of their own. -/
theorem parameterRules {kind : String} (known : .named kind ∈ parameterSymbols)
    (rule : kind ≠ "identifier") :
    .named kind ∈ grammar.nonterminals ∧ .named kind ∉ grammar.terminals ∧
      grammar.isHidden kind = false := by
  rw [Syntax.Grammar.named_mem_nonterminals_iff, Syntax.Grammar.named_mem_terminals_iff]
  simp only [parameterSymbols, List.mem_cons, Symbol.named.injEq, List.not_mem_nil, or_false]
    at known
  rcases known with rfl | rfl | rfl | rfl | rfl | rfl | rfl | rfl | rfl
  · exact absurd rfl rule
  all_goals decide +kernel

theorem reads_typed {parts : List Node}
    (derives : grammar.Derives extraKinds (.named "typed_parameter") parts) :
    ∃ form, Form.Reads form (.group "typed_parameter" true none parts) := by
  obtain ⟨b, made, yields⟩ := derives
  obtain ⟨s, first, rest, rfl, one, known, labelled, shown⟩ :=
    (typed_begins b made).exists_first yields
  simp only [List.mem_cons, List.not_mem_nil, or_false] at known
  rcases known with symbol | symbol | symbol
  · obtain ⟨name, rfl⟩ := yields_identifier symbol labelled shown one
    exact ⟨_, .typed name rest⟩
  · obtain ⟨parts, -, rfl⟩ :=
      yields_rule (parameterRules (by decide) (by decide)) symbol labelled shown one
    exact ⟨_, .typedArguments parts rest⟩
  · obtain ⟨parts, -, rfl⟩ :=
      yields_rule (parameterRules (by decide) (by decide)) symbol labelled shown one
    exact ⟨_, .typedKeywords parts rest⟩

theorem reads_defaulted {parts : List Node}
    (derives : grammar.Derives extraKinds (.named "default_parameter") parts) :
    ∃ form, Form.Reads form (.group "default_parameter" true none parts) := by
  obtain ⟨b, made, yields⟩ := derives
  obtain ⟨s, first, rest, rfl, one, known, labelled, shown⟩ :=
    (defaulted_begins b made).exists_first yields
  simp only [List.mem_cons, List.not_mem_nil, or_false] at known
  rcases known with symbol | symbol
  · obtain ⟨name, rfl⟩ := yields_identifier symbol labelled shown one
    exact ⟨_, .defaulted name rest⟩
  · obtain ⟨parts, -, rfl⟩ :=
      yields_rule (parameterRules (by decide) (by decide)) symbol labelled shown one
    exact ⟨_, .defaultedTuple parts rest⟩

theorem reads_typedDefaulted {parts : List Node}
    (derives : grammar.Derives extraKinds (.named "typed_default_parameter") parts) :
    ∃ form, Form.Reads form (.group "typed_default_parameter" true none parts) := by
  obtain ⟨b, made, yields⟩ := derives
  obtain ⟨s, first, rest, rfl, one, known, labelled, shown⟩ :=
    (typedDefaulted_begins b made).exists_first yields
  obtain ⟨name, rfl⟩ := yields_identifier (List.mem_singleton.mp known) labelled shown one
  exact ⟨_, .typedDefaulted name rest⟩

/-- A step for a parameter stands for one node, of one of the forms. -/
theorem reads_parameter (known : s.symbol ∈ parameterSymbols) (unlabelled : s.marks.label = none)
    (shown : s.marks.shown = none) (yields : grammar.Yields extraKinds [s] nodes) :
    ∃ form n, nodes = [n] ∧ Form.Reads form n := by
  have rule {kind : String} (symbol : s.symbol = .named kind) (other : kind ≠ "identifier") :
      ∃ parts, grammar.Derives extraKinds (.named kind) parts ∧
        nodes = [.group kind true none parts] :=
    yields_rule (parameterRules (symbol ▸ known) other) symbol unlabelled shown yields
  simp only [parameterSymbols, List.mem_cons, List.not_mem_nil, or_false] at known
  rcases known with symbol | symbol | symbol | symbol | symbol | symbol | symbol | symbol | symbol
  · obtain ⟨name, rfl⟩ := yields_identifier symbol unlabelled shown yields
    exact ⟨_, _, rfl, .plain name⟩
  · obtain ⟨parts, derives, rfl⟩ := rule symbol (by decide)
    obtain ⟨form, reads⟩ := reads_typed derives
    exact ⟨form, _, rfl, reads⟩
  · obtain ⟨parts, derives, rfl⟩ := rule symbol (by decide)
    obtain ⟨form, reads⟩ := reads_defaulted derives
    exact ⟨form, _, rfl, reads⟩
  · obtain ⟨parts, derives, rfl⟩ := rule symbol (by decide)
    obtain ⟨form, reads⟩ := reads_typedDefaulted derives
    exact ⟨form, _, rfl, reads⟩
  · obtain ⟨parts, -, rfl⟩ := rule symbol (by decide)
    exact ⟨_, _, rfl, .arguments parts⟩
  · obtain ⟨parts, -, rfl⟩ := rule symbol (by decide)
    exact ⟨_, _, rfl, .tuple parts⟩
  · obtain ⟨parts, -, rfl⟩ := rule symbol (by decide)
    exact ⟨_, _, rfl, .bareStar parts⟩
  · obtain ⟨parts, -, rfl⟩ := rule symbol (by decide)
    exact ⟨_, _, rfl, .slash parts⟩
  · obtain ⟨parts, -, rfl⟩ := rule symbol (by decide)
    exact ⟨_, _, rfl, .keywords parts⟩

/-- The named nodes have forms. -/
def HaveForms (nodes : List Node) : Prop :=
  ∃ forms, List.Forall₂ Form.Reads forms (nodes.filter Node.named)

theorem haveForms_extras {nodes : List Node} (extras : ∀ n ∈ nodes, IsExtra extraKinds n) :
    HaveForms nodes := by
  induction nodes with
  | nil => exact ⟨[], .nil⟩
  | cons n nodes ih =>
      obtain ⟨extra, rest⟩ := List.forall_mem_cons.mp extras
      obtain ⟨forms, reads⟩ := ih rest
      obtain ⟨known, text⟩ := extra
      exact ⟨.note :: forms, .cons (.note known text) reads⟩

theorem HaveForms.append {front rest : List Node} (h : HaveForms front) (h' : HaveForms rest) :
    HaveForms (front ++ rest) := by
  obtain ⟨forms, reads⟩ := h
  obtain ⟨forms', reads'⟩ := h'
  exact ⟨forms ++ forms', by rw [List.filter_append]; exact List.rel_append reads reads'⟩

theorem haveForms_of_unnamed {n : Node} (unnamed : n.named = false) : HaveForms [n] :=
  ⟨[], by rw [List.filter_cons_of_neg (by simp [unnamed])]; exact .nil⟩

theorem haveForms_of_parameter (known : s.symbol ∈ parameterSymbols)
    (unlabelled : s.marks.label = none) (shown : s.marks.shown = none)
    (yields : grammar.Yields extraKinds [s] nodes) : HaveForms nodes := by
  obtain ⟨form, n, rfl, reads⟩ := reads_parameter known unlabelled shown yields
  exact ⟨[form], by rw [List.filter_cons_of_pos reads.named]; exact .cons reads .nil⟩

theorem listSymbols_hidden : ∀ x ∈ listSymbols,
    x ∈ grammar.nonterminals ∧ x ∉ grammar.terminals ∧ grammar.display x = none := by
  simp only [listSymbols, List.forall_mem_cons, Syntax.Grammar.named_mem_nonterminals_iff,
    Syntax.Grammar.repetition_mem_nonterminals_iff, Syntax.Grammar.named_mem_terminals_iff,
    Syntax.Grammar.repetition_not_mem_terminals, not_false_eq_true, true_and]
  decide +kernel

theorem exists_literal {x : Symbol} (known : x ∈ [.literal "(", .literal ",", .literal ")"]) :
    ∃ text, x = .literal text := by
  simp only [List.mem_cons, List.not_mem_nil, or_false] at known
  rcases known with rfl | rfl | rfl <;> exact ⟨_, rfl⟩

/-- What the steps of a list stand for has forms. By induction on the derivation: a symbol that
leaves no node derives steps of a list again. -/
theorem haveForms_of_yields {steps : List Step} (yields : grammar.Yields extraKinds steps nodes)
    (list : ∀ s ∈ steps, IsListStep s) : HaveForms nodes := by
  induction yields with
  | none => exact ⟨[], .nil⟩
  | more _ gap _ ihFront ihRest =>
      obtain ⟨here, later⟩ := List.forall_mem_cons.mp list
      exact ((ihFront (by simpa using here)).append (haveForms_extras gap)).append (ihRest later)
  | @token s terminal text =>
      obtain ⟨known, unlabelled, shown⟩ := list s List.mem_cons_self
      rw [List.append_assoc, List.mem_append, List.mem_append] at known
      rcases known with hidden | parameter | mark
      · exact absurd terminal (listSymbols_hidden _ hidden).2.1
      · exact haveForms_of_parameter parameter unlabelled shown (.token terminal text)
      · obtain ⟨text', symbol⟩ := exists_literal mark
        rw [Syntax.Grammar.shows, symbol, unlabelled, shown]
        exact haveForms_of_unnamed rfl
  | @group s b children nonterminal made inside ih =>
      obtain ⟨known, unlabelled, shown⟩ := list s List.mem_cons_self
      rw [List.append_assoc, List.mem_append, List.mem_append] at known
      rcases known with hidden | parameter | mark
      · rw [Syntax.Grammar.shows, (listSymbols_hidden _ hidden).2.2, unlabelled, shown]
        exact ih (listSteps _ (List.mem_cons_of_mem _ hidden) b made)
      · exact haveForms_of_parameter parameter unlabelled shown (.group nonterminal made inside)
      · obtain ⟨text, symbol⟩ := exists_literal mark
        rw [symbol] at made
        cases made

/-- Every part of a list of parameters has a form. -/
theorem IsParameterList.exists_forms {parameters : Node} (list : IsParameterList parameters) :
    ∃ forms, List.Forall₂ Form.Reads forms parameters.namedChildren := by
  obtain ⟨b, made, yields⟩ := list
  exact haveForms_of_yields yields (listSteps _ List.mem_cons_self b made)

/-! ## Definitions -/

/-- A statement is the definition, or the definition under decorators. -/
inductive Presents : Node → Node → Prop
  | bare {definition : Node} : Presents definition definition
  | decorated {n inner definition : Node} (kind : n.kind = "decorated_definition")
      (inside : n.child? "definition" = some inner) (presents : Presents inner definition) :
      Presents n definition

theorem Presents.binds {statement definition : Node} {name : String} {bound : Bound}
    (presents : Presents statement definition) (binds : Binds definition name bound) :
    Binds statement name bound := by
  induction presents with
  | bare => exact binds
  | decorated kind inside _ ih => exact .decorated kind inside (ih binds)

/-- Among the statements, this one is the first that binds the name. -/
def BindsFirst (statements : List Node) (statement : Node) (name : String) : Prop :=
  ∃ before after, statements = before ++ statement :: after ∧
    ∀ earlier ∈ before, ∀ bound, ¬Binds earlier name bound

theorem BindsFirst.firstBinds {α : Type} {is : Bound → α → Prop} {statements : List Node}
    {statement : Node} {name : String} {bound : Bound} {x : α}
    (first : BindsFirst statements statement name) (binds : Binds statement name bound)
    (what : is bound x) : FirstBinds is statements name x := by
  obtain ⟨before, after, split, unbound⟩ := first
  exact ⟨before, statement, after, split, ⟨bound, binds, what⟩,
    fun earlier inside bound y other => absurd other (unbound earlier inside bound)⟩

/-- A function definition with its name and its parameters. -/
structure Defines (definition label parameters : Node) : Prop where
  kind : definition.kind = "function_definition" ∨ definition.kind = "async_function_definition"
  named : definition.child? "name" = some label
  list : definition.child? "parameters" = some parameters

theorem Defines.binds {definition label parameters : Node}
    (defines : Defines definition label parameters) :
    Binds definition label.text (.function (positionalParameters parameters)) := by
  refine .function defines.kind defines.named (positionalNames_iff.mpr ?_)
  rw [partNodes, defines.list]
  rfl

/-- The names are recorded as the parameters of a function of a module, and of a method of a
class. -/
structure Recorded (definition label : Node) (names : List String) : Prop where
  function : ∀ root statement, Presents statement definition →
    BindsFirst root.namedChildren statement label.text →
    (moduleSymbols root).get? label.text = some (.function names)
  method : ∀ root type typeLabel body typeStatement statement,
    type.kind = "class_definition" → type.child? "name" = some typeLabel →
    type.child? "body" = some body → Presents typeStatement type →
    BindsFirst root.namedChildren typeStatement typeLabel.text →
    Presents statement definition → BindsFirst body.namedChildren statement label.text →
    ∃ members, (moduleSymbols root).get? typeLabel.text = some (.classType members) ∧
      members.get? label.text = some (.method names)

theorem Defines.recorded {definition label parameters : Node}
    (defines : Defines definition label parameters) :
    Recorded definition label (positionalParameters parameters) where
  function root statement presents first :=
    (reduces_moduleSymbols root _ _).mpr
      (first.firstBinds (presents.binds defines.binds) .function)
  method root type typeLabel body typeStatement statement kind named inside typePresents typeFirst
      presents first := by
    have members := reduces_classMembers body
    have bindsType : Binds type typeLabel.text (.classType body.namedChildren) := by
      simpa [partNodes, inside] using Binds.classType kind named
    refine ⟨classMembers body, ?_, ?_⟩
    · exact (reduces_moduleSymbols root _ _).mpr
        (typeFirst.firstBinds (typePresents.binds bindsType) (.classType members))
    · exact (members _ _).mpr (first.firstBinds (presents.binds defines.binds) .method)

/-- Only marks count. -/
theorem namesBeforeStar_eq (forms : List Form) :
    namesBeforeStar forms = ((forms.filterMap Form.mark).takeWhile Option.isSome).reduceOption := by
  induction forms with
  | nil => rfl
  | cons form forms ih =>
      rw [namesBeforeStar] at ih ⊢
      cases star : form.isStar with
      | true => simp [Form.mark, star]
      | false => cases name : form.name? <;> simp [Form.mark, star, name, ih, List.reduceOption]

/-- Lists with the same marks have the same names: what is neither a name nor a star does not count,
and neither does what follows a name inside its parameter. -/
theorem positionalParameters_of_marks {parameters other : Node} {forms forms' : List Form}
    (reads : List.Forall₂ Form.Reads forms parameters.namedChildren)
    (reads' : List.Forall₂ Form.Reads forms' other.namedChildren)
    (marks : forms'.filterMap Form.mark = forms.filterMap Form.mark) :
    positionalParameters other = positionalParameters parameters := by
  rw [positionalParameters, positionalParameters, positionalNames_eq reads,
    positionalNames_eq reads', namesBeforeStar_eq, namesBeforeStar_eq, marks]

/-- The parts of a list of parameters have their forms, in any order, and the names in front of the
first star are what can be given by position. They are what is recorded for the definition that has
the list, be it of a function of a module or of a method of a class. -/
theorem parameters_by_position {parameters : Node} (list : IsParameterList parameters) :
    ∃ forms, (∀ forms', List.Forall₂ Form.Reads forms' parameters.namedChildren ↔ forms' = forms) ∧
      positionalParameters parameters = namesBeforeStar forms ∧
      (∀ other forms', List.Forall₂ Form.Reads forms' other.namedChildren →
        forms'.filterMap Form.mark = forms.filterMap Form.mark →
        positionalParameters other = positionalParameters parameters) ∧
      ∀ definition label, Defines definition label parameters →
        Recorded definition label (namesBeforeStar forms) := by
  obtain ⟨forms, reads⟩ := list.exists_forms
  have names : positionalParameters parameters = namesBeforeStar forms := positionalNames_eq reads
  refine ⟨forms, fun forms' => ?_, names, fun other forms' reads' marks => ?_,
    fun definition label defines => names ▸ defines.recorded⟩
  · constructor
    · intro reads'
      exact List.left_unique_forall₂' (fun _ _ _ h h' => h.unique h') reads' reads
    · rintro rfl
      exact reads
  · exact positionalParameters_of_marks reads reads' marks

/-! ### Any order -/

/-- A node that the grammar takes for a parameter. -/
def IsParameter (n : Node) : Prop :=
  grammar.Yields extraKinds [⟨.named "parameter", {}⟩] [n]

/-- Commas with parameters behind them, and with extras in between. -/
def continued (more : List (List Node × Node)) : List Node :=
  more.flatMap fun p => .token "," false none "," :: p.1 ++ [p.2]

/-- The repeated part of a list. -/
def continuation : Symbol := .repetition (.seq (.literal ",") (.named "parameter"))

theorem parameter_productions : ∀ x ∈ parameterSymbols,
    ⟨[⟨x, {}⟩], 0⟩ ∈ grammar.productionsOf (.named "parameter") := by
  decide +kernel

theorem yields_list {x : Symbol} (known : x ∈ listSymbols)
    (derives : grammar.Derives extraKinds x nodes) : grammar.Yields extraKinds [⟨x, {}⟩] nodes := by
  obtain ⟨nonterminal, -, hidden⟩ := listSymbols_hidden x known
  exact Syntax.Grammar.yields_hidden nonterminal hidden derives

theorem isParameter_of_yields {x : Symbol} {n : Node} (known : x ∈ parameterSymbols)
    (yields : grammar.Yields extraKinds [⟨x, {}⟩] [n]) : IsParameter n :=
  yields_list (by decide) ⟨_, parameter_productions x known, yields⟩

theorem isParameter_name (name : String) : IsParameter (.token "identifier" true none name) := by
  have token := Syntax.Grammar.named_mem_terminals_iff.mpr
    (show "identifier" ∈ grammar.tokens by decide +kernel)
  exact isParameter_of_yields (by decide)
    (Syntax.Grammar.yields_token token (by decide +kernel) name)

theorem isParameter_group {kind : String} {parts : List Node}
    (known : .named kind ∈ parameterSymbols) (rule : kind ≠ "identifier")
    (derives : grammar.Derives extraKinds (.named kind) parts) :
    IsParameter (.group kind true none parts) := by
  obtain ⟨nonterminal, -, hidden⟩ := parameterRules known rule
  have visible : grammar.display (.named kind) = some (kind, true) := by
    rw [Syntax.Grammar.display, hidden]
    rfl
  exact isParameter_of_yields known (Syntax.Grammar.yields_visible nonterminal visible derives)

theorem yields_mark {mark : String} (known : ∃ r ∈ grammar.rules, mark ∈ r.2.literals) :
    grammar.Yields extraKinds [⟨.literal mark, {}⟩] [.token mark false none mark] :=
  Syntax.Grammar.yields_token (Syntax.Grammar.literal_mem_terminals_iff.mpr known) rfl mark

theorem derives_continued {more : List (List Node × Node)} (nonempty : more ≠ [])
    (parameters : ∀ p ∈ more, (∀ n ∈ p.1, IsExtra extraKinds n) ∧ IsParameter p.2) :
    grammar.Derives extraKinds continuation (continued more) := by
  have comma := @yields_mark "," (by decide +kernel)
  induction more using List.reverseRecOn with
  | nil => exact absurd rfl nonempty
  | append_singleton more p ih =>
      obtain ⟨before, last⟩ := List.forall_mem_append.mp parameters
      obtain ⟨gap, parameter⟩ := last p List.mem_cons_self
      have once := Syntax.Grammar.Yields.more comma gap parameter
      cases more with
      | nil =>
          refine ⟨⟨[⟨.literal ",", {}⟩, ⟨.named "parameter", {}⟩], 0⟩, by decide +kernel, ?_⟩
          simpa [continued] using once
      | cons q more =>
          refine ⟨⟨[⟨continuation, {}⟩, ⟨.literal ",", {}⟩, ⟨.named "parameter", {}⟩], 0⟩,
            by decide +kernel, ?_⟩
          have all := yields_list (by decide) (ih (by simp) before)
          have whole := Syntax.Grammar.Yields.more all (List.forall_mem_nil _) once
          simpa [continued] using whole

/-- Whatever the order of the parameters, the grammar takes the list. -/
theorem isParameterList_of_parameters {first : Node} {more : List (List Node × Node)}
    (parameter : IsParameter first)
    (parameters : ∀ p ∈ more, (∀ n ∈ p.1, IsExtra extraKinds n) ∧ IsParameter p.2) :
    IsParameterList (.group "parameters" true none
      (.token "(" false none "(" :: first :: continued more ++ [.token ")" false none ")"])) := by
  have opening := @yields_mark "(" (by decide +kernel)
  have closing := @yields_mark ")" (by decide +kernel)
  have inside : grammar.Derives extraKinds (.named "_parameters") (first :: continued more) := by
    cases more with
    | nil => exact ⟨⟨[⟨.named "parameter", {}⟩], 0⟩, by decide +kernel, parameter⟩
    | cons p more =>
        refine ⟨⟨[⟨.named "parameter", {}⟩, ⟨continuation, {}⟩], 0⟩, by decide +kernel, ?_⟩
        have rest := yields_list (by decide) (derives_continued (by simp) parameters)
        have whole := Syntax.Grammar.Yields.more parameter (List.forall_mem_nil _) rest
        simpa using whole
  have names := yields_list (by decide) inside
  refine .intro ⟨⟨[⟨.literal "(", {}⟩, ⟨.named "_parameters", {}⟩, ⟨.literal ")", {}⟩], 0⟩,
    by decide +kernel, ?_⟩
  have whole := Syntax.Grammar.Yields.more opening (List.forall_mem_nil _)
    (Syntax.Grammar.Yields.more names (List.forall_mem_nil _) closing)
  simpa using whole

/-- The list `(a, # note` and, on the next line, `a, *, b)`. -/
def sampleList : Node :=
  .group "parameters" true none
    (.token "(" false none "(" :: .token "identifier" true none "a" :: continued
      [([.token "comment" true none "# note"], .token "identifier" true none "a"),
        ([], .group "keyword_separator" true none [.token "*" false none "*"]),
        ([], .token "identifier" true none "b")] ++ [.token ")" false none ")"])

theorem isParameterList_sampleList : IsParameterList sampleList := by
  have note : IsExtra extraKinds (.token "comment" true none "# note") := .intro (by decide) _
  have star := @isParameter_group "keyword_separator" _ (by decide) (by decide)
    ⟨⟨[⟨.literal "*", {}⟩], 0⟩, by decide +kernel, yields_mark (by decide +kernel)⟩
  refine isParameterList_of_parameters (isParameter_name "a") ?_
  simp [note, star, isParameter_name]

/-- The name that stands twice is taken twice, and the one behind the star is not. -/
theorem parameters_by_position_of_sampleList :
    IsParameterList sampleList ∧ positionalParameters sampleList = ["a", "a"] := by
  obtain ⟨forms, unique, names, -⟩ := parameters_by_position isParameterList_sampleList
  have reads : List.Forall₂ Form.Reads [.plain "a", .note, .plain "a", .bareStar, .plain "b"]
      sampleList.namedChildren :=
    .cons (.plain "a") (.cons (.note (by decide) _) (.cons (.plain "a")
      (.cons (.bareStar _) (.cons (.plain "b") .nil))))
  rw [← (unique _).mp reads] at names
  exact ⟨isParameterList_sampleList, names⟩

end ApiInventory.Source
