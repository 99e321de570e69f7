import ApiInventory.Proofs.Source.Leading
import ApiInventory.Proofs.Source.Parameters
import ApiInventory.Proofs.Syntax.Nodes
import ApiInventory.Proofs.Syntax.Soundness
import Mathlib

/-!
# The function definitions of a source

Whatever text is parsed, each function definition in its tree has a name and a list of parameters
that the grammar derives (`definition_of_parse`), so that what is said of such lists holds of all
that are ever read.

This rests on what the parser does with any grammar that is closed (`Syntax.parse_derives`). Of the
lexer of sources it takes that nothing is passed between tokens but comments and line continuations
(`lexer_extras`), and of their grammar which steps a definition has (`definition_parts`) and that
nothing else is shown as one (`onlyRule_function`).
-/

namespace ApiInventory.Source

open Syntax (Node Symbol Step Body Lexeme Lexer)

/-! ## The lexer -/

namespace Vocabulary

theorem mem_of_longest {cs : List Candidate} {best : Candidate} (longest : longest cs = some best) :
    best ∈ cs := by
  induction cs generalizing best with
  | nil => cases longest
  | cons c cs ih =>
      rw [Vocabulary.longest] at longest
      split at longest
      · obtain rfl := Option.some.inj longest
        exact List.mem_cons_self
      · rename_i d found
        split at longest
        · obtain rfl := Option.some.inj longest
          exact List.mem_cons_of_mem _ (ih found)
        · obtain rfl := Option.some.inj longest
          exact List.mem_cons_self

variable {v : Vocabulary} {allowed : Nat → Bool} {kind : String}

/-- If this is a candidate for an extra, it is for one of the two kinds. -/
def IsKnown (o : Option Candidate) : Prop :=
  ∀ c, o = some c → ∀ kind, c.role = .extra kind → kind ∈ extraKinds

theorem isKnown_map {α : Type} {f : α → Candidate}
    (known : ∀ x kind, (f x).role = .extra kind → kind ∈ extraKinds) (o : Option α) :
    IsKnown (o.map f) := by
  intro c found kind extra
  obtain ⟨x, -, rfl⟩ := Option.map_eq_some_iff.mp found
  exact known x kind extra

theorem isKnown_ite {p : Prop} [Decidable p] {o : Option Candidate} (known : IsKnown o) :
    IsKnown (if p then o else none) := by
  split
  · exact known
  · exact fun c found => by cases found

theorem extra_of_mem_candidates {immediate : Bool} {text : List Char} {c : Candidate}
    (member : c ∈ v.candidates allowed immediate text) (extra : c.role = .extra kind) :
    kind ∈ extraKinds := by
  have terminal {α : Type} {length : α → Nat} {priority : Int} {number : α → Nat} (o : Option α) :
      IsKnown (o.map fun x => ⟨length x, priority, .terminal (number x)⟩) :=
    isKnown_map nofun o
  have passed {kind : String} (known : kind ∈ extraKinds) (o : Option Nat) :
      IsKnown (o.map fun n => ⟨n, 0, .extra kind⟩) :=
    isKnown_map (fun _ _ same => by cases same; exact known) o
  unfold candidates at member
  dsimp only at member
  split at member
  · cases member
  · split at member
    · obtain rfl := List.mem_singleton.mp member
      cases extra
    · obtain ⟨o, inside, rfl⟩ := List.mem_filterMap.mp member
      suffices all : ∀ o ∈ _, IsKnown o from all _ inside c rfl kind extra
      simp only [List.forall_mem_cons]
      exact ⟨terminal _, isKnown_ite (passed (by decide) _), passed (by decide) _,
        isKnown_ite (isKnown_ite (terminal _)), isKnown_ite (isKnown_ite (terminal _)),
        isKnown_ite (terminal _), isKnown_ite (terminal _),
        isKnown_ite (isKnown_ite (terminal _)), List.forall_mem_nil _⟩

theorem extra_of_plain {layout : Layout} {passed : Nat} {text : List Char} {found : Lexeme Layout}
    (finds : v.plain allowed layout passed text = some found) (extra : found.role = .extra kind) :
    kind ∈ extraKinds := by
  induction text generalizing passed with
  | nil =>
      rw [plain] at finds
      split at finds
      · obtain rfl := Option.some.inj finds
        cases extra
      · cases finds
  | cons c cs ih =>
      rw [plain] at finds
      split at finds
      · obtain rfl := Option.some.inj finds
        cases extra
      · split at finds
        · exact ih finds
        · obtain ⟨best, longest, rfl⟩ := Option.map_eq_some_iff.mp finds
          exact extra_of_mem_candidates (mem_of_longest longest) extra

/-- Nothing is passed between tokens but comments and line continuations. -/
theorem lexer_extras (v : Vocabulary) : v.lexer.Extras extraKinds := by
  intro allowed layout text found kind finds extra
  change v.next allowed layout text = some found at finds
  unfold next at finds
  split at finds
  · obtain rfl := Option.some.inj finds
    cases extra
  · exact extra_of_plain finds extra

end Vocabulary

/-! ## Trees of sources -/

theorem onlyRule_function : grammar.OnlyRule extraKinds "function_definition" where
  extra := by decide
  token := by decide +kernel
  literal := by decide +kernel
  shown := by decide +kernel

variable {source : String} {root n : Node} {above : List Node}

theorem parse_eq (source : String) :
    ∃ v : Vocabulary, parse source =
      (Syntax.Automaton.ofGrammar grammar).parse v.lexer (withoutMark source.toList) :=
  ⟨_, rfl⟩

/-- The nodes below the root are derived. -/
theorem grown_of_parse (parses : parse source = some root) (occurs : Occurs root above n) :
    (above = [] ∧ n.kind = "module") ∨ grammar.Grown extraKinds n := by
  obtain ⟨v, same⟩ := parse_eq source
  obtain ⟨before, children, after, rfl, extras, derives⟩ :=
    Syntax.parse_derives grammar_closed v.lexer_extras (same ▸ parses)
  have nonterminal := Syntax.Grammar.named_mem_nonterminals_iff.mpr grammar_closed.start
  have inside : ∀ c ∈ before ++ children ++ after, grammar.Grown extraKinds c := by
    intro c member
    obtain ⟨front, last⟩ := List.forall_mem_append.mp extras
    rw [List.mem_append, List.mem_append] at member
    rcases member with (first | middle) | behind
    · exact Syntax.Grammar.grown_of_isExtra (front c first)
    · exact derives.grown nonterminal c middle
    · exact Syntax.Grammar.grown_of_isExtra (last c behind)
  induction occurs with
  | root => exact .inl ⟨rfl, rfl⟩
  | @child above parent n occurs member ih =>
      right
      cases occurs with
      | root => exact inside n member
      | child higher child =>
          rcases ih with ⟨none, -⟩ | grown
          · cases none
          · exact grown.of_mem_children member

/-! ## Definitions -/

/-- The first step with the label expects the symbol and shows it under its own name, and the steps
in front of it leave a node each. -/
structure HasPart (b : Body) (role : String) (x : Symbol) : Prop where
  first : (b.steps.find? fun s => s.marks.label == some role).map Step.look = some (x, none)
  plain : ∀ s ∈ b.steps.takeWhile fun s => s.marks.label != some role,
    (grammar.appearance s).isSome

instance (b : Body) (role : String) (x : Symbol) : Decidable (HasPart b role x) :=
  decidable_of_iff (_ ∧ _) ⟨fun h => ⟨h.1, h.2⟩, fun h => ⟨h.first, h.plain⟩⟩

theorem definition_parts : ∀ b ∈ grammar.productionsOf (.named "function_definition"),
    HasPart b "name" (.named "identifier") ∧ HasPart b "parameters" (.named "parameters") := by
  decide +kernel

/-- The first child in the role is what the symbol stands for. -/
theorem HasPart.child {b : Body} {role : String} {x : Symbol} {nodes : List Node}
    (part : HasPart b role x) (visible : (grammar.display x).isSome)
    (yields : grammar.Yields extraKinds b.steps nodes) :
    ∃ s n, nodes.find? (fun n => n.role == some role) = some n ∧ s.symbol = x ∧
      s.marks.label = some role ∧ s.marks.shown = none ∧ grammar.Yields extraKinds [s] [n] := by
  obtain ⟨s, found, look⟩ := Option.map_eq_some_iff.mp part.first
  obtain ⟨rfl, shown⟩ := Prod.mk.inj look
  have labelled : s.marks.label = some role := by simpa using List.find?_some found
  have appears : (grammar.appearance s).isSome := by
    rw [Syntax.Grammar.appearance, shown]
    exact visible
  obtain ⟨n, finds, one⟩ := yields.child found appears part.plain
  exact ⟨s, n, finds, rfl, labelled, shown, one⟩

/-- Each function definition that is read has a name, and its list of parameters is one that the
grammar derives. -/
theorem definition_of_parse (parses : parse source = some root) (occurs : Occurs root above n)
    (kind : n.kind = "function_definition") :
    ∃ name parameters, Defines n (.token "identifier" true (some "name") name) parameters ∧
      IsParameterList parameters := by
  rcases grown_of_parse parses occurs with ⟨-, top⟩ | grown
  · rw [kind] at top
    exact absurd top (by decide)
  · obtain ⟨role, children, rfl, b, production, yields⟩ :=
      grown.derives grammar_closed onlyRule_function kind
    obtain ⟨nameHas, listHas⟩ := definition_parts b production
    obtain ⟨s, label, named, symbol, labelled, shown, one⟩ :=
      nameHas.child (by decide +kernel) yields
    obtain ⟨name, token⟩ := yields_identifier symbol labelled shown one
    obtain ⟨s', parameters, listed, symbol', labelled', shown', one'⟩ :=
      listHas.child (by decide +kernel) yields
    obtain ⟨parts, derives, group⟩ := yields_rule (by decide +kernel) symbol' labelled' shown' one'
    obtain rfl := List.singleton_inj.mp token
    obtain rfl := List.singleton_inj.mp group
    exact ⟨name, _, ⟨.inl kind, named, listed⟩, .intro derives⟩

/-- So the names in front of the first star of that list are what is recorded for it. -/
theorem recorded_of_parse (parses : parse source = some root) (occurs : Occurs root above n)
    (kind : n.kind = "function_definition") :
    ∃ name parameters forms, n.child? "parameters" = some parameters ∧
      List.Forall₂ Form.Reads forms parameters.namedChildren ∧
      Recorded n (.token "identifier" true (some "name") name) (namesBeforeStar forms) := by
  obtain ⟨name, parameters, defines, list⟩ := definition_of_parse parses occurs kind
  obtain ⟨forms, reads⟩ := list.exists_forms
  have names : positionalParameters parameters = namesBeforeStar forms := positionalNames_eq reads
  exact ⟨name, parameters, forms, defines.list, reads, names ▸ defines.recorded⟩

end ApiInventory.Source
