import ApiInventory.Proofs.Source.Acceptance
import ApiInventory.Proofs.Source.Lexing
import ApiInventory.Proofs.Source.Onward
import Mathlib

/-!
# Modules of one definition

The text of a class or of a function without parameters, with nothing behind its colon, declares
the name of the definition and nothing else (`extract_class`, `extract_function`), whatever the name
is. The parser meets no choice on its way.
-/

namespace ApiInventory.Source

open Syntax (Automaton Frame Node Step Symbol)

variable {x : Symbol} {n t : Nat}

/-! ## Their trees -/

/-- The tree of a class without members. -/
def classTree (name : String) : Node :=
  .group "class_definition" true none [.token "class" false none "class",
    .token "identifier" true (some "name") name, .token ":" false none ":",
    .token "block" true (some "body") ""]

/-- The tree of a function without parameters. -/
def functionTree (name : String) : Node :=
  .group "function_definition" true none [.token "def" false none "def",
    .token "identifier" true (some "name") name,
    .group "parameters" true (some "parameters")
      [.token "(" false none "(", .token ")" false none ")"],
    .token ":" false none ":", .token "block" true (some "body") ""]

def moduleOf (tree : Node) : Node := .group "module" true none [tree]

theorem display_eq : ∀ e ∈ ([(.literal "class", some ("class", false)),
    (.literal "def", some ("def", false)), (.literal "(", some ("(", false)),
    (.literal ")", some (")", false)), (.literal ":", some (":", false)),
    (.named "identifier", some ("identifier", true)),
    (.named "parameters", some ("parameters", true)),
    (.named "class_definition", some ("class_definition", true)),
    (.named "function_definition", some ("function_definition", true)),
    (.named "module", some ("module", true))] : List (Symbol × Syntax.Display)),
    grammar.display e.1 = e.2 := by
  decide +kernel

theorem shows_class (name : String) :
    grammar.shows ⟨.named "class_definition", {}⟩ (.group (Automaton.nodesOf grammar classBody.steps
      [.token "class", .token name, .token ":", .token ""])) = [classTree name] := by
  simp [Automaton.nodesOf, classBody, Syntax.Grammar.shows, Frame.appear, classTree,
    display_eq (.literal "class", some ("class", false)) (by decide),
    display_eq (.literal ":", some (":", false)) (by decide),
    display_eq (.named "identifier", some ("identifier", true)) (by decide),
    display_eq (.named "class_definition", some ("class_definition", true)) (by decide)]

theorem shows_function (name : String) :
    grammar.shows ⟨.named "function_definition", {}⟩ (.group (Automaton.nodesOf grammar
      functionBody.steps [.token "def", .token name, .group (Automaton.nodesOf grammar
        parametersBody.steps [.token "(", .token ")"]), .token ":", .token ""])) =
      [functionTree name] := by
  simp [Automaton.nodesOf, functionBody, parametersBody, Syntax.Grammar.shows, Frame.appear,
    functionTree, display_eq (.literal "def", some ("def", false)) (by decide),
    display_eq (.literal "(", some ("(", false)) (by decide),
    display_eq (.literal ")", some (")", false)) (by decide),
    display_eq (.literal ":", some (":", false)) (by decide),
    display_eq (.named "identifier", some ("identifier", true)) (by decide),
    display_eq (.named "parameters", some ("parameters", true)) (by decide),
    display_eq (.named "function_definition", some ("function_definition", true)) (by decide)]

theorem symbolsOfTree_class (name : String) :
    symbolsOfTree (moduleOf (classTree name)) =
      some ((∅ : SymbolTable).insertNew name (.classType ∅)) := by
  have current : containsLegacy (moduleOf (classTree name)) = false := by
    rw [containsLegacy_eq_any]
    simp [moduleOf, classTree, Node.preorder_eq, isLegacy, parentKind]
  have children : (moduleOf (classTree name)).namedChildren = [classTree name] := rfl
  have declares : classify (classTree name) =
      .typeDeclaration name (some (.token "block" true (some "body") "")) := by
    simp [classTree, classify, Node.child?, Node.text]
  rw [symbolsOfTree, current, moduleSymbols, children, List.map_singleton, declares]
  rfl

theorem symbolsOfTree_function (name : String) :
    symbolsOfTree (moduleOf (functionTree name)) =
      some ((∅ : SymbolTable).insertNew name (.function [])) := by
  have current : containsLegacy (moduleOf (functionTree name)) = false := by
    rw [containsLegacy_eq_any]
    simp [moduleOf, functionTree, Node.preorder_eq, isLegacy, parentKind]
  have children : (moduleOf (functionTree name)).namedChildren = [functionTree name] := rfl
  have parameters : positionalParameters (.group "parameters" true (some "parameters")
      [.token "(" false none "(", .token ")" false none ")"]) = [] := rfl
  have declares : classify (functionTree name) = .callable name [] := by
    simp [functionTree, classify, Node.child?, Node.text, parameters]
  rw [symbolsOfTree, current, moduleSymbols, children, List.map_singleton, declares]
  rfl

/-! ## Reading the texts -/

/-- The words and marks of the grammar, with their numbers. -/
def vocabulary : Vocabulary := .ofGrammar grammar.numbered grammar.literals

theorem terminal_eq (terminal : x ∈ grammar.terminals) :
    grammar.numbered.terminal (Syntax.Grammar.spelling x) = grammar.number x :=
  Syntax.Grammar.terminal_spelling separate (by decide +kernel) terminal

theorem formatText_eq : vocabulary.formatText = grammar.number (.named "_format_text") :=
  terminal_eq (by decide : .named "_format_text" ∈ grammar.terminals)

theorem newline_eq : vocabulary.newline = grammar.number (.named "_newline") :=
  terminal_eq (by decide : .named "_newline" ∈ grammar.terminals)

/-- The only reading goes on from one stack and text to another, by so many tokens. -/
def Goes (count : Nat) (frames : List Frame) (text : List Char) (frames' : List Frame)
    (rest : List Char) : Prop :=
  ∀ budget fuel left, ∃ left',
    (Automaton.ofGrammar grammar).follow vocabulary.lexer (budget + 5) (fuel + count)
        [⟨frames, Layout.initial, text, left⟩] none =
      (Automaton.ofGrammar grammar).follow vocabulary.lexer (budget + 5) fuel
        [⟨frames', Layout.initial, rest, left'⟩] none

variable {frames frames' frames'' : List Frame} {name mark : String} {c : Char}
variable {front text text' rest : List Char} {count count' : Nat}

theorem Goes.trans (first : Goes count frames text frames' text')
    (second : Goes count' frames' text' frames'' rest) :
    Goes (count' + count) frames text frames'' rest := by
  intro budget fuel left
  obtain ⟨between, here⟩ := first budget (fuel + count') left
  obtain ⟨left', there⟩ := second budget fuel between
  exact ⟨left', (Nat.add_assoc fuel count' count ▸ here).trans there⟩

/-- A token on the stack. -/
def tokenFrame (n : Nat) (text : String) : Frame := ⟨n, .token text, 0, false⟩

theorem goes_of_next {taken : Nat} {spelled : String}
    (found : vocabulary.next ((Automaton.ofGrammar grammar).allows (Syntax.topState frames))
      .initial text = some ⟨.terminal t, spelled, taken, rest, .initial⟩)
    (advances : ∀ fuel, (Automaton.ofGrammar grammar).advance t spelled (fuel + 5) [frames]
      ⟨[], []⟩ = ⟨[frames'], []⟩) : Goes 1 frames text frames' rest := by
  intro budget fuel left
  let a : Syntax.Reading Layout := ⟨frames, .initial, text, left⟩
  have next : vocabulary.lexer.next ((Automaton.ofGrammar grammar).allows
      (Syntax.topState a.frames)) a.lexer a.rest =
        some ⟨.terminal t, spelled, taken, rest, .initial⟩ := found
  have advances : (Automaton.ofGrammar grammar).advance t spelled (budget + 5) [a.frames] ⟨[], []⟩ =
      ⟨[frames'], []⟩ := advances budget
  exact ⟨_, Automaton.follow_of_moves next rfl advances⟩

theorem next_mark_eq {allowed : Nat → Bool} (marked : Vocabulary.MarkedBy grammar.literals c rest)
    (format : allowed (grammar.number (.named "_format_text")) = false)
    (may : allowed (grammar.number (.literal (String.singleton c))) = true) :
    vocabulary.next allowed .initial (c :: rest) =
      some ⟨.terminal (grammar.number (.literal (String.singleton c))), String.singleton c, 1, rest,
        .initial⟩ := by
  have number : grammar.numbered.terminal (String.singleton c) =
      grammar.number (.literal (String.singleton c)) :=
    terminal_eq (List.mem_append_right _ (List.mem_map_of_mem marked.known))
  have found := Vocabulary.next_mark marked (formatText_eq ▸ format) (number ▸ may)
  rwa [number] at found

section Shift

variable (frames)
variable (format : (Automaton.ofGrammar grammar).allows (Syntax.topState frames)
  (grammar.number (.named "_format_text")) = false)
variable (actions : (Automaton.ofGrammar grammar).actions (Syntax.topState frames)
  (grammar.number x) = [.shift n])
include format actions

theorem goes_word (front rest : List Char) (word : Vocabulary.isWord name = true)
    (known : vocabulary.word ((Automaton.ofGrammar grammar).allows (Syntax.topState frames)) name =
      grammar.number x) (blank : ∀ d ∈ front, d = ' ')
    (ends : ∀ d ∈ rest.head?, Identifier.isContinue d = false)
    (quiet : ∀ d ∈ rest, Layout.isMark d = false) :
    Goes 1 frames (front ++ (name.toList ++ rest)) (tokenFrame n name :: frames) rest := by
  have found := Vocabulary.next_word vocabulary word (formatText_eq ▸ format) blank ends quiet
  rw [known] at found
  exact goes_of_next found fun fuel => Automaton.advance_of_shift actions

theorem goes_mark (same : x = .literal (String.singleton c))
    (marked : Vocabulary.MarkedBy grammar.literals c rest) :
    Goes 1 frames (c :: rest) (tokenFrame n (String.singleton c) :: frames) rest := by
  subst same
  have may : (Automaton.ofGrammar grammar).allows (Syntax.topState frames)
      (grammar.number (.literal (String.singleton c))) = true := by
    rw [Automaton.allows, actions]
    rfl
  exact goes_of_next (next_mark_eq marked format may) fun fuel => Automaton.advance_of_shift actions

end Shift

/-- At the end of the text the line ends. -/
theorem goes_newline (actions : (Automaton.ofGrammar grammar).actions (Syntax.topState frames)
    (grammar.number (.named "_newline")) = [.shift n]) :
    Goes 1 frames [] (tokenFrame n "" :: frames) [] := by
  have may : (Automaton.ofGrammar grammar).allows (Syntax.topState frames)
      vocabulary.newline = true := by
    rw [Automaton.allows, newline_eq, actions]
    rfl
  have found := vocabulary.next_end
    ((Automaton.ofGrammar grammar).allows (Syntax.topState frames))
  rw [may, if_pos rfl, newline_eq] at found
  exact goes_of_next found fun fuel => Automaton.advance_of_shift actions

/-- The last stack becomes the root. -/
theorem rootNode_of_group {g : Syntax.Grammar} {f : Frame} {children : List Node} {kind : String}
    (start : .named g.start ∈ g.nonterminals)
    (display : g.display (.named g.start) = some (kind, true))
    (plain : f.extra = false) (shape : f.shape = .group children) :
    (Automaton.ofGrammar g).rootNode [f] = some (.group kind true none children) := by
  have grammar : (Automaton.ofGrammar g).grammar = g.numbered := rfl
  have number : g.numbered.start = g.number (.named g.start) := rfl
  rw [Automaton.rootNode, grammar, number,
    Syntax.Grammar.displays_number (List.mem_append_right _ start), display]
  simp [plain, shape]

/-- A text is a module of one tree if it has been read and may end there. -/
theorem parse_of_goes {tree : Node} (goes : Goes count [] text frames []) (few : count ≤ 64)
    (line : (Automaton.ofGrammar grammar).allows (Syntax.topState frames)
      (grammar.number (.named "_newline")) = false)
    (closes : (Automaton.ofGrammar grammar).allows (Syntax.topState frames) 0 = true)
    (advances : ∀ fuel, ∃ count, ∃ f : Frame, f.extra = false ∧ f.shape = .group [tree] ∧
      (Automaton.ofGrammar grammar).advance 0 "" (fuel + 5) [frames] ⟨[], []⟩ =
        ⟨[], List.replicate (count + 1) [f]⟩) :
    (Automaton.ofGrammar grammar).parse vocabulary.lexer text = some (moduleOf tree) := by
  have budget : 64 * (text.length + 64) = 64 * text.length + 4091 + 5 := by omega
  have fuel : 64 * text.length + 4091 + 5 = 64 * text.length + (4094 - count) + 2 + count := by
    omega
  obtain ⟨left, goes⟩ := goes (64 * text.length + 4091) (64 * text.length + (4094 - count) + 2)
    text.length
  obtain ⟨times, f, plain, shape, advances⟩ := advances (64 * text.length + 4091)
  have found := vocabulary.next_end
    ((Automaton.ofGrammar grammar).allows (Syntax.topState frames))
  rw [newline_eq, line, if_neg Bool.false_ne_true, closes, if_pos rfl] at found
  let a : Syntax.Reading Layout := ⟨frames, .initial, [], left⟩
  have next : vocabulary.lexer.next ((Automaton.ofGrammar grammar).allows
      (Syntax.topState a.frames)) a.lexer a.rest = some ⟨.terminal 0, "", 0, [], .initial⟩ := found
  have advances : (Automaton.ofGrammar grammar).advance 0 "" (64 * text.length + 4091 + 5)
      [a.frames] ⟨[], []⟩ = ⟨[], List.replicate (times + 1) [f]⟩ := advances
  have done : (Automaton.ofGrammar grammar).follow vocabulary.lexer (64 * text.length + 4091 + 5)
      (64 * text.length + (4094 - count) + 2) [a] none = some [f] :=
    Automaton.follow_of_done next rfl advances
  have whole : (Automaton.ofGrammar grammar).follow vocabulary.lexer
      (64 * text.length + 4091 + 5) (64 * text.length + 4091 + 5)
      [⟨[], Layout.initial, text, text.length⟩] none = some [f] := by
    have same := congrArg (fun fuel => (Automaton.ofGrammar grammar).follow vocabulary.lexer
      (64 * text.length + 4091 + 5) fuel [⟨[], Layout.initial, text, text.length⟩] none) fuel
    exact same.trans (goes.trans done)
  have display : grammar.display (.named grammar.start) = some ("module", true) :=
    display_eq (.named "module", some ("module", true)) (by decide)
  unfold Automaton.parse
  dsimp only
  rw [budget]
  exact (congrArg (·.bind (Automaton.ofGrammar grammar).rootNode) whole).trans
    (rootNode_of_group solid.start_mem display plain shape)

/-! ## The texts -/

theorem word_reserved {allowed : Nat → Bool} (known : mark ∈ grammar.literals)
    (word : Vocabulary.isWord mark = true) (keyword : Vocabulary.reserved.contains mark = true) :
    vocabulary.word allowed mark = grammar.number (.literal mark) :=
  (Vocabulary.word_of_reserved known word keyword).trans
    (terminal_eq (List.mem_append_right _ (List.mem_map_of_mem known)))

theorem word_name {allowed : Nat → Bool} (unknown : name ∉ grammar.literals) :
    vocabulary.word allowed name = grammar.number (.named "identifier") :=
  (Vocabulary.word_of_unknown unknown).trans
    (terminal_eq (by decide : .named "identifier" ∈ grammar.terminals))

/-- The marks behind the name of a definition. -/
theorem marks_behind_name : ∀ e ∈ [(':', []), ('(', [')', ':']), (')', [':'])],
    Vocabulary.MarkedBy grammar.literals e.1 e.2 := by
  decide +kernel

theorem isContinue_eq_false :
    Identifier.isContinue ' ' = false ∧ Identifier.isContinue ':' = false ∧
      Identifier.isContinue '(' = false := by
  decide +kernel

/-- No quote stands behind the keyword of a definition. -/
theorem quiet_behind (word : Vocabulary.isWord name = true) {marks : List Char}
    (quiet : marks.any Layout.isMark = false) :
    ∀ d ∈ ' ' :: (name.toList ++ marks), Layout.isMark d = false := by
  have others := List.any_eq_false.mp quiet
  intro d inside
  rcases List.mem_cons.mp inside with rfl | inside
  · decide
  · rcases List.mem_append.mp inside with letter | mark
    · exact Vocabulary.isMark_eq_false_of_isWord word d letter
    · exact Bool.not_eq_true _ ▸ others d mark

/-- The definitions that are read here, and the keywords that they begin with. -/
def keywords : List (Symbol × Syntax.Body × String) :=
  [(.named "class_definition", classBody, "class"),
    (.named "function_definition", functionBody, "def")]

theorem keywords_first : ∀ e ∈ keywords, (e.1, e.2.1) ∈ [(.named "class_definition", classBody),
      (.named "function_definition", functionBody), (.named "parameters", parametersBody)] ∧
    e.1 ∈ definitions ∧ e.2.1.steps.head? = some ⟨.literal e.2.2, {}⟩ ∧
    .literal e.2.2 ∈ grammar.terminals ∧ (.literal e.2.2, [e.1]) ∈ leaders := by
  decide +kernel

theorem keywords_reserved : ∀ e ∈ keywords, e.2.2 ∈ grammar.literals ∧
    Vocabulary.isWord e.2.2 = true ∧ Vocabulary.reserved.contains e.2.2 = true := by
  decide +kernel

theorem keywords_next : ∀ e ∈ keywords, e.1 ∉ [formatParts, .named "format_specifier"] ∧
    Continues e.1 [.literal e.2.2] [.named "identifier"] ∧
    e.2.1.steps[1]? = some ⟨.named "identifier", { label := some "name" }⟩ := by
  decide +kernel

section Definition

variable {b : Syntax.Body} {keyword : String} {kernels : Array (List Syntax.Item)}
variable (chart : grammar.Chart kernels)
include chart

/-- The keyword of a definition and its name are read. -/
theorem exists_named {marks : List Char} (definition : (x, b, keyword) ∈ keywords)
    (word : Vocabulary.isWord name = true) (unknown : name ∉ grammar.literals)
    (ends : ∀ d ∈ marks.head?, Identifier.isContinue d = false)
    (quiet : marks.any Layout.isMark = false) :
    ∃ n₁ n₂ k, grammar.Halfway kernels 2 n₂ k
        ⟨(· = x), FollowsStatement, [.literal keyword, .named "identifier"]⟩ x b 0 ∧
      Goes 2 [] (keyword.toList ++ (' ' :: (name.toList ++ marks)))
        [tokenFrame n₂ name, tokenFrame n₁ keyword] marks := by
  obtain ⟨known, listed, first, terminal, leader⟩ := keywords_first _ definition
  obtain ⟨literal, spelled, reserved⟩ := keywords_reserved _ definition
  obtain ⟨other, continues, second⟩ := keywords_next _ definition
  obtain ⟨n₁, h₁, shift₁, format₁⟩ :=
    exists_first chart listed (wholes _ known).2.1 first terminal leader
  obtain ⟨n₂, h₂, shift₂, format₂⟩ := exists_next chart (reachable_grammar.of_le (by decide)) h₁
    (fun _ same => same) other continues second (terminals _ (by decide))
    (Continues.not_heads continues h₁.within (fun _ same => same) (by decide +kernel) (by decide))
  have read : Goes 1 [] (keyword.toList ++ (' ' :: (name.toList ++ marks)))
      [tokenFrame n₁ keyword] (' ' :: (name.toList ++ marks)) :=
    goes_word [] format₁ shift₁ [] (' ' :: (name.toList ++ marks)) spelled
      (word_reserved literal spelled reserved) (List.forall_mem_nil _)
      (by simp [isContinue_eq_false]) (quiet_behind word quiet)
  have named : Goes 1 [tokenFrame n₁ keyword] (' ' :: (name.toList ++ marks))
      [tokenFrame n₂ name, tokenFrame n₁ keyword] marks :=
    goes_word [tokenFrame n₁ keyword] format₂ shift₂ [' '] marks word (word_name unknown) (by simp)
      ends fun d inside => by simpa using List.any_eq_false.mp quiet d inside
  exact ⟨n₁, n₂, _, h₂, read.trans named⟩

variable {depth : Nat} {k : List Syntax.Item} {read : List Symbol} {body : Step} {tree : Node}

/-- A definition whose colon has been read is read when the line and the text end. -/
theorem parse_of_colon
    (near : grammar.Reachable depth) (near' : grammar.Reachable (depth + 1))
    (h : grammar.Halfway kernels depth n k ⟨(· = x), FollowsStatement, read⟩ x b 0)
    (definition : (x, b, keyword) ∈ keywords)
    (continues : Continues x read [.named "_newline", .named "_simple_statements",
      .named "_indent"])
    (step : b.steps[read.length]? = some body) (line : body.symbol = .named "_newline")
    (whole : read ++ [.named "_newline"] = b.symbols)
    (goes : Goes count [] text frames []) (few : count < 64) (top : Syntax.topState frames = n)
    (plain : ∀ f ∈ frames, f.extra = false)
    (shows : grammar.shows ⟨x, {}⟩ (.group (Automaton.nodesOf grammar b.steps
      (frames.reverse.map Frame.shape ++ [.token ""]))) = [tree])
    (length : frames.length = read.length) :
    (Automaton.ofGrammar grammar).parse vocabulary.lexer text = some (moduleOf tree) := by
  obtain ⟨known, listed, -⟩ := keywords_first _ definition
  obtain ⟨other, -⟩ := keywords_next _ definition
  obtain ⟨n', h', shift, -⟩ := exists_next chart near h (fun _ same => same) other continues step
    (line ▸ terminals _ (by decide))
    (line ▸ Continues.not_heads_newline continues h.within (fun _ same => same) (by decide))
  rw [line] at h' shift
  have onward : Goes 1 frames [] (tokenFrame n' "" :: frames) [] := goes_newline (top ▸ shift)
  have size : (tokenFrame n' "" :: frames).length = b.steps.length := by
    have symbols := congrArg List.length whole
    rw [Syntax.Body.symbols, List.length_map, List.length_append] at symbols
    rw [List.length_cons, length]
    exact symbols
  have some : b.steps ≠ [] := by
    intro none
    simp [none] at size
  obtain ⟨silent, closes, done⟩ := ends_definition chart near' h' listed (fun _ same => same)
    (fun _ follows => follows) whole some (wholes _ known).2.2
  refine parse_of_goes (goes.trans onward) (by omega) silent closes fun fuel => ?_
  obtain ⟨times, f, plain', shape, advances⟩ := done (tokenFrame n' "" :: frames) rfl
    (List.forall_mem_cons.mpr ⟨rfl, plain⟩) size fuel ""
  refine ⟨times, f, plain', shape.trans (congrArg Syntax.Shape.group ?_), advances⟩
  rw [List.reverse_cons, List.map_append]
  exact shows

end Definition

/-- The text of a class is read as its tree. -/
theorem parse_class (word : Vocabulary.isWord name = true) (unknown : name ∉ grammar.literals) :
    (Automaton.ofGrammar grammar).parse vocabulary.lexer
      ("class".toList ++ (' ' :: (name.toList ++ [':']))) = some (moduleOf (classTree name)) := by
  obtain ⟨kernels, chart⟩ := Syntax.Grammar.exists_chart grammar
  have near (depth : Nat) (le : depth ≤ 6) : grammar.Reachable depth := reachable_grammar.of_le le
  have definition : (.named "class_definition", classBody, "class") ∈ keywords := by decide
  obtain ⟨n₁, n₂, k, h₂, named⟩ := exists_named chart definition word unknown
    (by simp [isContinue_eq_false] : ∀ d ∈ [':'].head?, Identifier.isContinue d = false) (by decide)
  have continues₂ := continues (.named "class_definition", [.literal "class", .named "identifier"],
    [.literal ":", .named "type_parameter", .named "argument_list"]) (by decide)
  obtain ⟨n₃, h₃, shift, format⟩ := exists_next chart (near 2 (by decide)) h₂ (fun _ same => same)
    (by decide) continues₂ (s := ⟨.literal ":", {}⟩) rfl (terminals _ (by decide))
    (Continues.not_heads continues₂ h₂.within (fun _ same => same) (by decide +kernel) (by decide))
  have colon : Goes 1 [tokenFrame n₂ name, tokenFrame n₁ "class"] [':']
      [tokenFrame n₃ ":", tokenFrame n₂ name, tokenFrame n₁ "class"] [] :=
    goes_mark [tokenFrame n₂ name, tokenFrame n₁ "class"] format shift rfl
      (marks_behind_name (':', []) (by decide))
  exact parse_of_colon chart (near 3 (by decide)) (near 4 (by decide)) h₃ definition
    (continues (.named "class_definition", _, _) (by decide)) rfl rfl rfl (named.trans colon)
    (by decide) rfl (by simp [tokenFrame]) (shows_class name) rfl

/-- The parameters of a function without any, on the stack. -/
def parametersFrame (n : Nat) : Frame :=
  ⟨n, .group (Automaton.nodesOf grammar parametersBody.steps [.token "(", .token ")"]), 0, false⟩

/-- The text of a function is read as its tree. -/
theorem parse_function (word : Vocabulary.isWord name = true)
    (unknown : name ∉ grammar.literals) :
    (Automaton.ofGrammar grammar).parse vocabulary.lexer
      ("def".toList ++ (' ' :: (name.toList ++ ['(', ')', ':']))) =
        some (moduleOf (functionTree name)) := by
  obtain ⟨kernels, chart⟩ := Syntax.Grammar.exists_chart grammar
  have near (depth : Nat) (le : depth ≤ 6) : grammar.Reachable depth := reachable_grammar.of_le le
  have definition : (.named "function_definition", functionBody, "def") ∈ keywords := by decide
  obtain ⟨n₁, n₂, k, h₂, named⟩ := exists_named chart definition word unknown
    (by simp [isContinue_eq_false] : ∀ d ∈ ['(', ')', ':'].head?, Identifier.isContinue d = false)
    (by decide)
  obtain ⟨n₃, n₄, n₅, between, h₅⟩ := exists_parameters chart
    (fun more le => near (2 + more) (by omega)) h₂ (fun _ same => same) rfl
  have opened : Goes 1 [tokenFrame n₂ name, tokenFrame n₁ "def"] ['(', ')', ':']
      [tokenFrame n₃ "(", tokenFrame n₂ name, tokenFrame n₁ "def"] [')', ':'] :=
    goes_mark [tokenFrame n₂ name, tokenFrame n₁ "def"] between.before between.opens rfl
      (marks_behind_name ('(', [')', ':']) (by decide))
  have closed : Goes 1 [tokenFrame n₃ "(", tokenFrame n₂ name, tokenFrame n₁ "def"] [')', ':']
      [tokenFrame n₄ ")", tokenFrame n₃ "(", tokenFrame n₂ name, tokenFrame n₁ "def"] [':'] :=
    goes_mark [tokenFrame n₃ "(", tokenFrame n₂ name, tokenFrame n₁ "def"] between.inside
      between.closes rfl (marks_behind_name (')', [':']) (by decide))
  -- in front of the colon the parameters are replaced
  have continues₅ := continues (.named "function_definition", [.literal "def", .named "identifier",
    .named "parameters"], [.literal ":", .literal "->"]) (by decide)
  obtain ⟨n₆, h₆, shift, -⟩ := exists_next chart (near 3 (by decide)) h₅ (fun _ same => same)
    (by decide) continues₅ (s := ⟨.literal ":", {}⟩) rfl (terminals _ (by decide))
    (Continues.not_heads continues₅ h₅.within (fun _ same => same) (by decide +kernel) (by decide))
  have colon : Goes 1
      [tokenFrame n₄ ")", tokenFrame n₃ "(", tokenFrame n₂ name, tokenFrame n₁ "def"] [':']
      [tokenFrame n₆ ":", parametersFrame n₅, tokenFrame n₂ name, tokenFrame n₁ "def"] [] := by
    have found := next_mark_eq (marks_behind_name (':', []) (by decide)) between.behind
      between.colon
    refine goes_of_next found fun fuel => ?_
    have replaced := between.replaced [tokenFrame n₂ name, tokenFrame n₁ "def"] rfl
      (tokenFrame n₄ ")") (tokenFrame n₃ "(") rfl rfl rfl (fuel + 4) ":"
    exact replaced.trans (Automaton.advance_of_shift shift)
  exact parse_of_colon chart (near 4 (by decide)) (near 5 (by decide)) h₆ definition
    (continues (.named "function_definition", _, _) (by decide)) rfl rfl rfl
    (((named.trans opened).trans closed).trans colon) (by decide) rfl
    (by simp [tokenFrame, parametersFrame]) (shows_function name) rfl

/-! ## What they declare -/

theorem parse_eq_vocabulary (source : String) : parse source =
    (Automaton.ofGrammar grammar).parse vocabulary.lexer (withoutMark source.toList) := rfl

/-- A class without members declares its name, whatever that is. -/
theorem extract_class (word : Vocabulary.isWord name = true) (unknown : name ∉ grammar.literals) :
    extract ("class " ++ name ++ ":") = some ((∅ : SymbolTable).insertNew name (.classType ∅)) := by
  have text : withoutMark ("class " ++ name ++ ":").toList =
      "class".toList ++ (' ' :: (name.toList ++ [':'])) := by
    simp [withoutMark]
  rw [extract, parse_eq_vocabulary, text, parse_class word unknown, Option.bind_some,
    symbolsOfTree_class]

/-- A function without parameters declares its name, whatever that is. -/
theorem extract_function (word : Vocabulary.isWord name = true)
    (unknown : name ∉ grammar.literals) :
    extract ("def " ++ name ++ "():") = some ((∅ : SymbolTable).insertNew name (.function [])) := by
  have text : withoutMark ("def " ++ name ++ "():").toList =
      "def".toList ++ (' ' :: (name.toList ++ ['(', ')', ':'])) := by
    simp [withoutMark]
  rw [extract, parse_eq_vocabulary, text, parse_function word unknown, Option.bind_some,
    symbolsOfTree_function]

end ApiInventory.Source
