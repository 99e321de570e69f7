import ApiInventory.Proofs.Syntax.Stacks
import Mathlib

/-!
# What is read is derived

Whatever text a parser reads, the tree that it hands on is one that the grammar derives
(`parse_derives`): comments and other extras around what the start symbol derives. The parser
follows several readings, drops some and keeps the heavier of those that agree; each reading is a
stack at all times, and none is accepted but at the end of a production of the start.

The lexer may be any. Of its extras only their kinds are asked.
-/

namespace ApiInventory.Syntax

/-- The lexer finds no extras of other kinds. -/
def Lexer.Extras {σ : Type} (lexer : Lexer σ) (extras : List String) : Prop :=
  ∀ allowed s text found kind, lexer.next allowed s text = some found →
    found.role = .extra kind → kind ∈ extras

section

variable (g : Grammar) (extras : List String) (a : Analysis) (kernels : Array (List Item))

/-- A stack that is on its way. -/
def Runs (frames : List Frame) : Prop := ∃ k, Stack g extras a kernels frames k

/-- A stack that is accepted. -/
def Ends (frames : List Frame) : Prop :=
  ∃ k, Stack g extras a kernels frames k ∧ a.Finishes k a.grammar.root

/-- The stacks after a token are on their way, and those that have ended are accepted. -/
structure Advances (out : Automaton.Advance) : Prop where
  read : ∀ frames ∈ out.read, Runs g extras a kernels frames
  done : ∀ frames ∈ out.done, Ends g extras a kernels frames

end

variable {g : Grammar} {extras : List String} {a : Analysis} {kernels : Array (List Item)}
  {m : Automaton} {frames : List Frame} {k : List Item}

theorem settled_of_mem_actions (grounded : m.Grounded a kernels) {n t : Nat} {action : Action}
    (place : kernels[n]? = some k) (member : action ∈ m.actions n t) :
    ∃ state, a.Settled kernels k state ∧ action ∈ state.actions.getD t [] := by
  unfold Automaton.actions at member
  cases found : m.states[n]? with
  | none => simp [found] at member
  | some state =>
      obtain ⟨k', place', settled⟩ := grounded.states n state found
      obtain rfl := Option.some.inj (place.symm.trans place')
      exact ⟨state, settled, by simpa [found] using member⟩

theorem runs_of_mem_addStack {on : List Frame} {others : List (List Frame)}
    (here : Runs g extras a kernels on) (runs : ∀ f ∈ others, Runs g extras a kernels f) :
    ∀ f ∈ Automaton.addStack on others, Runs g extras a kernels f := by
  induction others with
  | nil => exact List.forall_mem_singleton.mpr here
  | cons f others ih =>
      obtain ⟨first, later⟩ := List.forall_mem_cons.mp runs
      rw [Automaton.addStack]
      split
      · refine List.forall_mem_cons.mpr ⟨?_, later⟩
        split
        · exact here
        · exact first
      · exact List.forall_mem_cons.mpr ⟨first, ih later⟩

variable {t : Nat}

/-- A token is read on top of a stack. -/
theorem Runs.shift (grounded : m.Grounded a kernels) (grammar : m.grammar = g.numbered)
    (runs : Runs g extras a kernels frames) {n : Nat}
    (member : .shift n ∈ m.actions (topState frames) t) (text : String) :
    Runs g extras a kernels (⟨n, .token text, 0, false⟩ :: frames) := by
  obtain ⟨k, stack⟩ := runs
  have start : kernels[0]? = some (startKernel g.numbered) := grammar ▸ grounded.start
  obtain ⟨state, settled, member⟩ := settled_of_mem_actions grounded (stack.top start) member
  obtain ⟨terminal, next, place, onward⟩ := settled.shift t n member
  rw [grounded.grammar, grammar] at terminal
  exact ⟨next, .symbol stack rfl (.token terminal text) place onward⟩

theorem Runs.reduce (closed : g.Closed) (grounded : m.Grounded a kernels)
    (grammar : m.grammar = g.numbered) (runs : Runs g extras a kernels frames) {p : Nat}
    (member : .reduce p ∈ m.actions (topState frames) t) {reduced : List Frame}
    (reduces : m.reduceFrames p frames = some reduced) : Runs g extras a kernels reduced := by
  obtain ⟨k, stack⟩ := runs
  have start : kernels[0]? = some (startKernel g.numbered) := grammar ▸ grounded.start
  obtain ⟨state, settled, member⟩ := settled_of_mem_actions grounded (stack.top start) member
  obtain ⟨other, finishes⟩ := settled.reduce t p member
  exact stack.reduce closed grounded grammar other finishes reduces

theorem Runs.accept (grounded : m.Grounded a kernels) (grammar : m.grammar = g.numbered)
    (runs : Runs g extras a kernels frames) (member : .accept ∈ m.actions (topState frames) t) :
    Ends g extras a kernels frames := by
  obtain ⟨k, stack⟩ := runs
  have start : kernels[0]? = some (startKernel g.numbered) := grammar ▸ grounded.start
  obtain ⟨state, settled, member⟩ := settled_of_mem_actions grounded (stack.top start) member
  exact ⟨k, stack, settled.accept t member⟩

theorem advances (closed : g.Closed) (grounded : m.Grounded a kernels)
    (grammar : m.grammar = g.numbered) (t : Nat) (text : String) (fuel : Nat)
    {waiting : List (List Frame)} {out : Automaton.Advance}
    (runs : ∀ f ∈ waiting, Runs g extras a kernels f) (before : Advances g extras a kernels out) :
    Advances g extras a kernels (m.advance t text fuel waiting out) := by
  induction fuel generalizing waiting out with
  | zero => exact before
  | succ fuel ih =>
      cases waiting with
      | nil => exact before
      | cons frames waiting =>
          obtain ⟨here, others⟩ := List.forall_mem_cons.mp runs
          let motive (p : List (List Frame) × Automaton.Advance) : Prop :=
            (∀ f ∈ p.1, Runs g extras a kernels f) ∧ Advances g extras a kernels p.2
          have start : motive (waiting, out) := ⟨others, before⟩
          rw [Automaton.advance]
          generalize folded : List.foldl _ (waiting, out) (m.actions (topState frames) t) = p
          have after : motive p := by
            rw [← folded]
            refine List.foldlRecOn (motive := motive) _ _ start ?_
            rintro ⟨waiting, out⟩ ⟨runs, before⟩ action member
            dsimp only at runs before ⊢
            split
            · exact ⟨runs, fun f inside => (List.mem_append.mp inside).elim (before.read f)
                fun last => List.mem_singleton.mp last ▸ here.shift grounded grammar member text,
                before.done⟩
            · exact ⟨runs, before.read, fun f inside => (List.mem_append.mp inside).elim
                (before.done f) fun last =>
                  List.mem_singleton.mp last ▸ here.accept grounded grammar member⟩
            · split
              · exact ⟨runs, before⟩
              · rename_i reduced reduces
                have next := here.reduce closed grounded grammar member reduces
                exact ⟨runs_of_mem_addStack next runs, before⟩
          exact ih after.1 after.2

/-! ## Readings -/

variable {σ : Type} {lexer : Lexer σ}

/-- After one more token or extra, readings are on their way still. -/
theorem step_sound (closed : g.Closed) (grounded : m.Grounded a kernels)
    (grammar : m.grammar = g.numbered) (known : lexer.Extras extras) (fuel : Nat) {r : Reading σ}
    (runs : Runs g extras a kernels r.frames) :
    (∀ r' ∈ (r.step m lexer fuel).1, Runs g extras a kernels r'.frames) ∧
      ∀ f ∈ (r.step m lexer fuel).2, Ends g extras a kernels f := by
  unfold Reading.step
  dsimp only
  split
  · exact ⟨List.forall_mem_nil _, List.forall_mem_nil _⟩
  · rename_i found next
    split
    · rename_i kind role
      refine ⟨List.forall_mem_singleton.mpr ?_, List.forall_mem_nil _⟩
      obtain ⟨k, stack⟩ := runs
      have extra : IsExtra extras (.token kind true none found.text) :=
        .intro (known _ _ _ found kind next role) found.text
      exact ⟨k, .extra stack ⟨rfl, _, rfl, extra⟩ rfl⟩
    · rename_i t role
      have nothing : Advances g extras a kernels ⟨[], []⟩ :=
        ⟨List.forall_mem_nil _, List.forall_mem_nil _⟩
      have out := advances closed grounded grammar t found.text fuel
        (List.forall_mem_singleton.mpr runs) nothing
      refine ⟨fun r' inside => ?_, out.done⟩
      obtain ⟨f, read, rfl⟩ := List.mem_map.mp inside
      exact out.read f read

variable [BEq σ]

theorem runs_of_mem_addTo {r : Reading σ} {others : List (Reading σ)}
    (here : Runs g extras a kernels r.frames)
    (runs : ∀ r' ∈ others, Runs g extras a kernels r'.frames) :
    ∀ r' ∈ r.addTo others, Runs g extras a kernels r'.frames := by
  induction others with
  | nil => exact List.forall_mem_singleton.mpr here
  | cons r' others ih =>
      obtain ⟨first, later⟩ := List.forall_mem_cons.mp runs
      rw [Reading.addTo]
      split
      · refine List.forall_mem_cons.mpr ⟨?_, later⟩
        split
        · exact here
        · exact first
      · exact List.forall_mem_cons.mpr ⟨first, ih later⟩

theorem runs_of_mem_addAll {moved others : List (Reading σ)}
    (here : ∀ r ∈ moved, Runs g extras a kernels r.frames)
    (runs : ∀ r ∈ others, Runs g extras a kernels r.frames) :
    ∀ r ∈ moved.foldl (fun rs x => x.addTo rs) others, Runs g extras a kernels r.frames := by
  induction moved generalizing others with
  | nil => exact runs
  | cons r moved ih =>
      obtain ⟨first, later⟩ := List.forall_mem_cons.mp here
      exact ih later (runs_of_mem_addTo first runs)

theorem ends_better {best : Option (List Frame)} {f found : List Frame}
    (ended : ∀ b, best = some b → Ends g extras a kernels b) (ends : Ends g extras a kernels f)
    (better : Automaton.better best f = some found) : Ends g extras a kernels found := by
  unfold Automaton.better at better
  split at better
  · exact Option.some.inj better ▸ ends
  · rename_i b
    split at better
    · exact Option.some.inj better ▸ ends
    · exact Option.some.inj better ▸ ended b rfl

theorem ends_of_best {best : Option (List Frame)} {ended : List (List Frame)}
    (before : ∀ b, best = some b → Ends g extras a kernels b)
    (ends : ∀ f ∈ ended, Ends g extras a kernels f) :
    ∀ b, ended.foldl Automaton.better best = some b → Ends g extras a kernels b := by
  induction ended generalizing best with
  | nil => exact before
  | cons f ended ih =>
      obtain ⟨here, later⟩ := List.forall_mem_cons.mp ends
      exact ih (fun b better => ends_better before here better) later

/-- Readings on their way, and the best of those that have ended. -/
def Follows (g : Grammar) (extras : List String) (a : Analysis) (kernels : Array (List Item))
    (p : List (Reading σ) × Option (List Frame)) : Prop :=
  (∀ r ∈ p.1, Runs g extras a kernels r.frames) ∧
    ∀ b, p.2 = some b → Ends g extras a kernels b

theorem follow_sound (closed : g.Closed) (grounded : m.Grounded a kernels)
    (grammar : m.grammar = g.numbered) (known : lexer.Extras extras) (budget fuel : Nat)
    {readings : List (Reading σ)} {best : Option (List Frame)}
    (follows : Follows g extras a kernels (readings, best)) {found : List Frame}
    (ends : m.follow lexer budget fuel readings best = some found) :
    Ends g extras a kernels found := by
  induction fuel generalizing readings best with
  | zero => cases ends
  | succ fuel ih =>
      cases readings with
      | nil => exact follows.2 found ends
      | cons r others =>
          rw [Automaton.follow] at ends
          dsimp only at ends
          generalize folded : List.foldl _ ([], best) (r :: others) = p at ends
          have after : Follows g extras a kernels p := by
            rw [← folded]
            have start : Follows g extras a kernels (([] : List (Reading σ)), best) :=
              ⟨List.forall_mem_nil _, follows.2⟩
            refine List.foldlRecOn (motive := Follows g extras a kernels) _ _ start ?_
            rintro ⟨readings, best⟩ ⟨runs, ended⟩ r' member
            have here := follows.1 r' member
            dsimp only at runs ended ⊢
            split
            · exact ⟨runs_of_mem_addTo here runs, ended⟩
            · obtain ⟨moved, done⟩ := step_sound closed grounded grammar known budget here
              exact ⟨runs_of_mem_addAll moved runs, ends_of_best ended done⟩
          exact ih after ends

/-- The tree of a text is derived from the start of the grammar, with extras around. -/
theorem parse_derives (closed : g.Closed) (known : lexer.Extras extras) {text : List Char}
    {root : Node} (parses : (Automaton.ofGrammar g).parse lexer text = some root) :
    ∃ before children after, root = .group g.start true none (before ++ children ++ after) ∧
      (∀ n ∈ before ++ after, IsExtra extras n) ∧
      g.Derives extras (.named g.start) children := by
  obtain ⟨a, kernels, grounded⟩ := Automaton.exists_grounded g
  obtain ⟨frames, follow, made⟩ := Option.bind_eq_some_iff.mp parses
  have start : Follows g extras a kernels
      ([(⟨[], lexer.initial, text, text.length⟩ : Reading σ)], none) :=
    ⟨List.forall_mem_singleton.mpr ⟨_, .start⟩, by simp⟩
  obtain ⟨k, stack, accepts⟩ := follow_sound closed grounded rfl known _ _ start follow
  exact stack.rootNode closed grounded rfl accepts made

end ApiInventory.Syntax
