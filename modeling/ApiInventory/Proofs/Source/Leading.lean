import ApiInventory.Proofs.Syntax.OneReading
import ApiInventory.Source.Grammar
import Mathlib

/-!
# What statements begin with

What the automaton does where a definition is read hangs on a few facts about all productions of
the grammar (`Leads`): which symbols begin with a keyword or a line end, which begin with a
definition, and where the text of a format specifier may stand.
-/

namespace ApiInventory.Source

open Syntax (Automaton Body Item Rule Step Symbol)
open Syntax.Grammar (Ahead Begins Chart Closed EndsWith Follows Heads Opened Passes Reads Within)

/-- The repetition of statements. -/
def statements : Symbol := .repetition (.named "_statement")

/-- The repetition inside a format specifier. -/
def formatParts : Symbol :=
  .repetition (.either (.named "_format_text")
    (.shownAs "format_expression" true (.named "interpolation")))

/-- Some symbols, each with those that may begin with it. -/
def leaders : List (Symbol × List Symbol) := [
  (.literal "class", [.named "class_definition"]),
  (.literal "def", [.named "function_definition"]),
  (.literal ")", []),
  (.named "_newline", [.named "_match_block"]),
  (.named "_match_block", []),
  (.named "block", []),
  (.named "parameters", []),
  (.named "_format_text", [formatParts]),
  (formatParts, [formatParts])]

/-- The two kinds of definitions. -/
def definitions : List Symbol := [.named "class_definition", .named "function_definition"]

/-- The productions that lead from a module to a definition, and what else begins like them. -/
def ladder : List (Symbol × List Symbol) := [
  (.named "module", [statements]),
  (.named "block", [statements, .named "_dedent"]),
  (statements, [statements, .named "_statement"]),
  (statements, [.named "_statement"]),
  (.named "_statement", [.named "class_definition"]),
  (.named "_statement", [.named "function_definition"])]

/-- What holds of all productions. -/
structure Leads (x : Symbol) (b : Body) : Prop where
  empty : b.steps = [] → x = .named "module"
  unused : .named "module" ∉ b.symbols
  leader : ∀ e ∈ leaders, b.symbols.head? = some e.1 → x ∈ e.2
  rung : ∀ y ∈ b.symbols.head?, y ∈ statements :: .named "_statement" :: definitions →
    (x, b.symbols) ∈ ladder
  format : .named "_format_text" ∈ b.symbols → x = formatParts
  parts : formatParts ∈ b.symbols → x ∈ [formatParts, .named "format_specifier"]

instance (x : Symbol) (b : Body) : Decidable (Leads x b) :=
  decidable_of_iff (_ ∧ _ ∧ _ ∧ _ ∧ _ ∧ _)
    ⟨fun ⟨a, b, c, d, e, f⟩ => ⟨a, b, c, d, e, f⟩,
      fun ⟨a, b, c, d, e, f⟩ => ⟨a, b, c, d, e, f⟩⟩

set_option maxRecDepth 100000 in
theorem leads : ∀ e ∈ grammar.productionList, Leads e.1 e.2 :=
  Syntax.Grammar.forall_productionList (by decide +kernel) (by decide +kernel)

variable {x y z : Symbol} {b : Body} {k : List Item} {n t : Nat}

theorem grammar_closed : grammar.Closed where
  known := by decide +kernel
  flat := by decide +kernel
  start := by decide +kernel

theorem separate : grammar.Separate := by
  have tokens : ∀ name ∈ grammar.tokens, name ∉ grammar.rules.map Prod.fst := by decide +kernel
  intro x terminal nonterminal
  rcases List.mem_append.mp terminal with token | literal
  · obtain ⟨name, known, rfl⟩ := List.mem_map.mp token
    exact tokens name known (Syntax.Grammar.named_mem_nonterminals_iff.mp nonterminal).1
  · obtain ⟨text, -, rfl⟩ := List.mem_map.mp literal
    simp [Syntax.Grammar.nonterminals] at nonterminal

theorem solid : grammar.Solid where
  closed := grammar_closed
  separate := separate
  empty e member none := (leads e member).empty none
  unused e member s step same :=
    (leads e member).unused (List.mem_map.mpr ⟨s, step, same⟩)

set_option maxRecDepth 100000 in
theorem symbolCount_le : grammar.numbered.symbolCount ≤ 500 := by
  have count : grammar.symbols.length < 500 := by decide +kernel
  rw [Syntax.Grammar.symbolCount_eq]
  omega

theorem le_symbolCount_mul (small : n ≤ 3) :
    n ≤ grammar.numbered.symbolCount * grammar.numbered.symbolCount := by
  have tokens : grammar.tokens.length = 14 := rfl
  have two : 2 ≤ grammar.numbered.symbolCount := by
    rw [Syntax.Grammar.symbolCount_eq, Syntax.Grammar.symbols, Syntax.Grammar.terminals]
    simp only [List.length_append, List.length_map]
    omega
  calc n ≤ 2 * 2 := by omega
    _ ≤ grammar.numbered.symbolCount * grammar.numbered.symbolCount := Nat.mul_le_mul two two

/-- The states that a few symbols lead to are there. -/
theorem reachable_grammar : grammar.Reachable 6 := by
  have count := symbolCount_le
  calc (2 * grammar.numbered.symbolCount) ^ 6 ≤ (2 * 500) ^ 6 :=
        Nat.pow_le_pow_left (by omega) 6
    _ ≤ Automaton.stateLimit := by decide

theorem head?_of_heads (heads : grammar.Heads x y) :
    ∃ b, (x, b) ∈ grammar.productionList ∧ b.symbols.head? = some y := by
  obtain ⟨b, s, later, member, steps, rfl⟩ := heads
  exact ⟨b, member, by rw [Body.symbols, steps]; rfl⟩

theorem mem_of_heads {xs : List Symbol} (known : (y, xs) ∈ leaders) (heads : grammar.Heads x y) :
    x ∈ xs := by
  obtain ⟨b, member, first⟩ := head?_of_heads heads
  exact (leads _ member).leader _ known first

theorem begins_newline (begins : grammar.Begins x y) (newline : y = .named "_newline") :
    x ∈ [.named "_newline", .named "_match_block"] := by
  induction begins with
  | here => simp [newline]
  | @lead x y b s later member steps _ ih =>
      have heads : grammar.Heads x s.symbol := ⟨b, s, later, member, steps, rfl⟩
      simp only [List.mem_cons, List.not_mem_nil, or_false] at ih ⊢
      rcases ih newline with same | same
      · have inside : x ∈ [.named "_match_block"] := mem_of_heads (by decide) (same ▸ heads)
        exact .inr (List.mem_singleton.mp inside)
      · have inside : x ∈ [] := mem_of_heads (by decide) (same ▸ heads)
        cases inside

/-- No statement begins with the end of a line. -/
theorem not_begins_newline : ¬grammar.Begins (.named "_statement") (.named "_newline") :=
  fun begins => absurd (begins_newline begins rfl) (by decide)

theorem not_opened_block : ¬grammar.Opened (Syntax.startKernel grammar.numbered)
    (.named "block") := by
  intro opened
  refine Syntax.Grammar.of_opened_start (· ≠ .named "block") (by decide) ?_ opened rfl
  rintro x y - heads - rfl
  have inside : x ∈ [] := mem_of_heads (by decide) heads
  cases inside

/-- What may follow a definition at the start: the end, or what a statement begins with. -/
def FollowsStatement (t : Nat) : Prop :=
  t = 0 ∨ ∃ z, t = grammar.number z ∧ grammar.Begins (.named "_statement") z

theorem followsStatement_of_ahead (ahead : grammar.Ahead (Syntax.startKernel grammar.numbered) x t)
    (rung : x ∈ .named "module" :: statements :: .named "_statement" :: definitions) :
    FollowsStatement t := by
  have start {x : Symbol} {b : Body} {s : Step} (member : (x, b) ∈ grammar.productionList)
      (inside : s ∈ b.steps) : s.symbol ≠ .named "module" :=
    solid.unused (x, b) member s inside
  induction ahead with
  | next inside _ _ follows => exact .inl (Syntax.Grammar.followsDot_start inside follows)
  | @lead x z b s next later opened member steps _ begins =>
      have other := start member (steps ▸ List.mem_cons_self)
      have symbols : b.symbols = s.symbol :: next.symbol :: later.map Step.symbol := by
        rw [Body.symbols, steps]
        rfl
      have listed := (leads _ member).rung s.symbol (by rw [symbols]; rfl)
        ((List.mem_cons.mp rung).resolve_left other)
      rw [symbols] at listed
      simp only [ladder, List.mem_cons, Prod.mk.injEq, List.cons.injEq, reduceCtorEq, and_false,
        List.not_mem_nil, or_false, false_or] at listed
      rcases listed with ⟨rfl, -⟩ | ⟨-, -, second, -⟩
      · exact absurd opened not_opened_block
      · exact .inr ⟨z, rfl, second ▸ begins⟩
  | @last x b s n _ member steps _ ih =>
      have other := start member (steps ▸ List.mem_cons_self)
      have symbols : b.symbols = [s.symbol] := by
        rw [Body.symbols, steps]
        rfl
      have listed := (leads _ member).rung s.symbol (by rw [symbols]; rfl)
        ((List.mem_cons.mp rung).resolve_left other)
      rw [symbols] at listed
      refine ih ?_
      simp only [ladder, List.mem_cons, Prod.mk.injEq, List.cons.injEq, reduceCtorEq, and_false,
        List.not_mem_nil, or_false, false_or] at listed ⊢
      tauto

/-! ## Where the text of a format specifier may stand -/

/-- No text of a format specifier is read on a trace that is not of one. -/
theorem not_reads_format {trace : Syntax.Grammar.Trace} (within : grammar.Within k trace)
    (other : ∀ x, trace.among x → x ∉ [formatParts, .named "format_specifier"]) :
    ¬grammar.Reads k (.named "_format_text") := by
  intro reads
  have symbol {x y : Symbol} {b : Body} {n : Nat} {read : List Symbol}
      (taken : b.symbols.take n = read ++ [y]) : y ∈ b.symbols :=
    List.mem_of_mem_take (taken ▸ List.mem_append_right _ (List.mem_singleton_self y))
  rcases within.of_reads solid reads with ⟨x, b, belongs, member, taken⟩ | ⟨x, opened, heads⟩
  · have same := (leads _ member).format (symbol (x := x) taken)
    exact other x belongs (same ▸ List.mem_cons_self)
  · have inside : x ∈ [formatParts] := mem_of_heads (by decide) heads
    refine within.of_opened (· ≠ formatParts) ?_ ?_ opened (List.mem_singleton.mp inside)
    · rintro x b y belongs member taken - rfl
      exact other x belongs ((leads _ member).parts (symbol (x := x) taken))
    · rintro x y notParts heads - rfl
      have inside : x ∈ [formatParts] := mem_of_heads (by decide) heads
      exact notParts (List.mem_singleton.mp inside)

theorem not_reads_format_start :
    ¬grammar.Reads (Syntax.startKernel grammar.numbered) (.named "_format_text") := by
  rintro ⟨item, inside, s, next, same⟩
  rcases Syntax.Grammar.mem_closure solid (Syntax.Grammar.knownAll_start grammar) inside with
    here | ⟨x, b, stands, begins, opened, -⟩
  · have start := Syntax.Grammar.nextStep_start here next
    rw [same] at start
    exact absurd start (by decide)
  · obtain ⟨later, steps⟩ := Syntax.Grammar.nextStep_zero stands begins next
    have heads : grammar.Heads x (.named "_format_text") :=
      ⟨b, s, later, List.mem_of_getElem? stands, steps, same⟩
    have inside : x ∈ [formatParts] := mem_of_heads (by decide) heads
    refine Syntax.Grammar.of_opened_start (· ≠ formatParts) (by decide) ?_ opened
      (List.mem_singleton.mp inside)
    rintro x y notParts heads - rfl
    have inside : x ∈ [formatParts] := mem_of_heads (by decide) heads
    exact notParts (List.mem_singleton.mp inside)

/-! ## Modules of one definition -/

/-- The production with one step that is shown as it is. -/
def single (x : Symbol) : Body := ⟨[⟨x, {}⟩], 0⟩

/-- The steps of the ladder that go straight up. -/
def rungs : List (Symbol × Symbol) := [(.named "module", statements),
  (statements, .named "_statement"), (.named "_statement", .named "class_definition"),
  (.named "_statement", .named "function_definition")]

theorem single_mem : ∀ e ∈ rungs, e.1 ∈ grammar.nonterminals ∧ e.2 ∈ grammar.nonterminals ∧
    single e.2 ∈ grammar.productionsOf e.1 := by
  decide +kernel

/-- No other production consists of these symbols alone. -/
theorem single_unique : ∀ e ∈ rungs, ∀ b ∈ grammar.productionsOf e.1,
    b.symbols = [e.2] → b = single e.2 := by
  decide +kernel

theorem single_mem_productionList (rung : (x, y) ∈ rungs) :
    (x, single y) ∈ grammar.productionList :=
  Syntax.Grammar.mem_productionList_iff.mpr
    ⟨(single_mem _ rung).1, (single_mem _ rung).2.2⟩

theorem passes_statements : grammar.Passes (.named "module") 1 statements :=
  .last .here (single_mem_productionList (by decide)) rfl
    (single_mem (.named "module", statements) (by decide)).2.1

theorem passes_statement : grammar.Passes (.named "module") 2 (.named "_statement") :=
  .last passes_statements (single_mem_productionList (by decide)) rfl
    (single_mem (statements, .named "_statement") (by decide)).2.1

theorem rung_of_mem_definitions :
    ∀ x ∈ definitions, (.named "_statement", x) ∈ rungs := by
  decide

theorem passes_definition (definition : x ∈ definitions) :
    grammar.Passes (.named "module") 3 x := by
  have rung := rung_of_mem_definitions x definition
  exact .last (s := ⟨x, {}⟩) passes_statement (single_mem_productionList rung) rfl
    (single_mem _ rung).2.1

/-- At the end of the text each rung is taken. -/
theorem exists_rung {kernels : Array (List Item)} {count n' : Nat} (chart : grammar.Chart kernels)
    (rung : (x, y) ∈ rungs) (passes : grammar.Passes (.named "module") count x) (few : count ≤ 3)
    (goto : (Automaton.ofGrammar grammar).goto 0 (grammar.number x) = some n') :
    ∃ n, (Automaton.ofGrammar grammar).goto 0 (grammar.number y) = some n ∧
      ∀ f : Syntax.Frame, f.state = n → f.extra = false → ∀ fuel text out,
        (Automaton.ofGrammar grammar).advance 0 text (fuel + 1) [[f]] out =
          (Automaton.ofGrammar grammar).advance 0 text fuel
            [[⟨n', .group (grammar.shows ⟨y, {}⟩ f.shape), 0 + Syntax.totalWeight [f], false⟩]]
            out := by
  have member := single_mem_productionList rung
  have enough : count ≤ grammar.numbered.symbolCount * grammar.numbered.symbolCount :=
    le_symbolCount_mul few
  have follows : grammar.Follows (Syntax.startKernel grammar.numbered) x (single y) 0 0 :=
    passes.follows_start solid enough member
  have steps : (single y).steps = [⟨y, {}⟩] := rfl
  have nonterminal : y ∈ grammar.nonterminals := (single_mem _ rung).2.1
  have whole : ∀ x' b', grammar.Heads x' y → (x', b') ∈ grammar.productionList →
      b'.symbols = [y] → x' = x ∧ b' = single y := by
    have known : ∀ e ∈ rungs, e.2 ∈ statements :: .named "_statement" :: definitions := by decide
    have unique : ∀ e ∈ rungs, ∀ l ∈ ladder, l.2 = [e.2] → l.1 = e.1 := by decide
    intro x' b' _ member' symbols
    have listed := (leads _ member').rung y (by rw [symbols]; rfl) (known _ rung)
    obtain rfl : x' = x := unique _ rung _ listed symbols
    exact ⟨rfl, single_unique _ rung b'
      (Syntax.Grammar.mem_productionList_iff.mp member').2 symbols⟩
  have near : grammar.Reachable 1 := reachable_grammar.of_le (by decide)
  obtain ⟨n, goto', raises⟩ := Syntax.Grammar.exists_raise chart solid near follows steps
    nonterminal (fun z heads => heads) whole goto
  exact ⟨n, goto', raises⟩

/-- After a definition the text may end: the module is accepted that consists of it alone. -/
theorem exists_end {kernels : Array (List Item)} (chart : grammar.Chart kernels)
    (definition : x ∈ definitions) :
    ∃ n, (Automaton.ofGrammar grammar).goto 0 (grammar.number x) = some n ∧
      ∀ f : Syntax.Frame, f.state = n → f.extra = false → ∀ fuel text out,
        ∃ count, ∃ f' : Syntax.Frame, f'.extra = false ∧
          f'.shape = .group (grammar.shows ⟨x, {}⟩ f.shape) ∧
          (Automaton.ofGrammar grammar).advance 0 text (fuel + 4) [[f]] out =
            { out with done := out.done ++ List.replicate (count + 1) [f'] } := by
  have hidden : grammar.display statements = none ∧
      grammar.display (.named "_statement") = none := by decide +kernel
  obtain ⟨last, goto, accepts⟩ :=
    Syntax.Grammar.exists_accept chart solid (reachable_grammar.of_le (by decide))
  obtain ⟨third, goto, raises⟩ := exists_rung chart
    (by decide : (.named "module", statements) ∈ rungs) .here (by decide) goto
  obtain ⟨second, goto, raises'⟩ := exists_rung chart
    (by decide : (statements, .named "_statement") ∈ rungs) passes_statements (by decide) goto
  obtain ⟨first, goto, raises''⟩ := exists_rung chart
    (rung_of_mem_definitions x definition) passes_statement
    (by decide) goto
  refine ⟨first, goto, fun f state plain fuel text out => ?_⟩
  rw [raises'' f state plain, raises' _ rfl rfl, raises _ rfl rfl]
  obtain ⟨count, accepted⟩ := accepts ⟨last, _, _, false⟩ rfl fuel text out
  refine ⟨count, _, rfl, ?_, accepted⟩
  simp [Syntax.Grammar.shows, hidden.1, hidden.2, Syntax.Frame.appear]

end ApiInventory.Source
