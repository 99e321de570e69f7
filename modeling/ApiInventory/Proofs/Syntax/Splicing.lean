import ApiInventory.Proofs.Syntax.Derivation
import Mathlib

/-!
# What the steps of productions expect

Rules are expanded into productions, and rules that are spliced are replaced by their own
productions. In a closed grammar (`Grammar.Closed`) every step that is left expects a terminal or
a nonterminal (`Grammar.Closed.mem_symbols`): each name that a rule mentions is a token or a rule,
and what is spliced mentions nothing that is spliced.
-/

namespace ApiInventory.Syntax

/-! ## Rules -/

/-- What a step expects, and what it is shown as if not under its own name. -/
def Step.look (s : Step) : Symbol × Option (String × Bool) := (s.symbol, s.marks.shown)

def Body.looks (b : Body) : List (Symbol × Option (String × Bool)) := b.steps.map Step.look

namespace Body

@[simp] theorem looks_append (a b : Body) : (a.append b).looks = a.looks ++ b.looks :=
  List.map_append

theorem looks_modifyLast {f : Marks → Marks} (same : ∀ m, (f m).shown = m.shown) (b : Body) :
    (b.modifyLast f).looks = b.looks := by
  unfold modifyLast looks
  split
  · rfl
  · rename_i last before split
    have steps : b.steps = (last :: before).reverse := by rw [← split, List.reverse_reverse]
    simp [steps, Step.look, same]

end Body

namespace Rule

/-- All symbols that a rule mentions, also inside what it repeats. -/
def symbols : Rule → List Symbol
  | .empty => []
  | .named n => [.named n]
  | .literal t => [.literal t]
  | .many r => .repetition r :: r.symbols
  | .seq a b | .either a b => a.symbols ++ b.symbols
  | .ranked _ _ r | .weighted _ r | .labelled _ r | .shownAs _ _ r => r.symbols

/-- The names among them. -/
def names (r : Rule) : List String :=
  r.symbols.filterMap fun
    | .named n => some n
    | _ => none

/-- The kinds that parts of the rule are shown as. -/
def aliases : Rule → List (String × Bool)
  | .empty | .named _ | .literal _ => []
  | .seq a b | .either a b => a.aliases ++ b.aliases
  | .many r | .ranked _ _ r | .weighted _ r | .labelled _ r => r.aliases
  | .shownAs k n r => (k, n) :: r.aliases

variable {r : Rule} {x : Symbol × Option (String × Bool)} {b : Body}

theorem mem_names_iff {n : String} : n ∈ r.names ↔ .named n ∈ r.symbols := by
  rw [names, List.mem_filterMap]
  constructor
  · rintro ⟨x, mem, name⟩
    split at name
    · exact Option.some.inj name ▸ mem
    · cases name
  · exact fun mem => ⟨_, mem, rfl⟩

/-- A step comes from the rule, and so does what it is shown as, unless it is so all around. -/
def Has (r : Rule) (shown : Option (String × Bool)) (x : Symbol × Option (String × Bool)) : Prop :=
  x.1 ∈ r.symbols ∧ (x.2 = shown ∨ ∃ k ∈ r.aliases, x.2 = some k)

theorem Has.mono {r' : Rule} {shown : Option (String × Bool)} (h : r.Has shown x)
    (symbols : r.symbols ⊆ r'.symbols) (aliases : r.aliases ⊆ r'.aliases) : r'.Has shown x :=
  ⟨symbols h.1, h.2.imp id fun ⟨k, inside, same⟩ => ⟨k, aliases inside, same⟩⟩

theorem has_of_expand {m : Marks} {final : Bool} (expands : b ∈ r.expand m final)
    (mem : x ∈ b.looks) : r.Has m.shown x := by
  induction r generalizing m final b with
  | empty | named | literal | many =>
      obtain rfl := List.mem_singleton.mp expands
      simp_all [Body.looks, Step.look, Has, symbols]
  | seq first second ihFirst ihSecond =>
      obtain ⟨front, inFirst, expands⟩ := List.mem_flatMap.mp expands
      obtain ⟨rest, inSecond, rfl⟩ := List.mem_map.mp expands
      rw [Body.looks_append] at mem
      rcases List.mem_append.mp mem with mem | mem
      · exact (ihFirst inFirst mem).mono (by simp [symbols]) (by simp [aliases])
      · exact (ihSecond inSecond mem).mono (by simp [symbols]) (by simp [aliases])
  | either first second ihFirst ihSecond =>
      rcases List.mem_append.mp expands with expands | expands
      · exact (ihFirst expands mem).mono (by simp [symbols]) (by simp [aliases])
      · exact (ihSecond expands mem).mono (by simp [symbols]) (by simp [aliases])
  | ranked level side body ih =>
      rw [expand] at expands
      split at expands
      · have has := ih expands mem
        exact has
      · obtain ⟨inner, inside, rfl⟩ := List.mem_map.mp expands
        rw [Body.looks_modifyLast] at mem
        · have has := ih inside mem
          exact has
        · exact fun _ => rfl
  | weighted weight body ih =>
      obtain ⟨inner, inside, rfl⟩ := List.mem_map.mp expands
      exact ih inside mem
  | labelled label body ih =>
      have has := ih expands mem
      exact has
  | shownAs kind named body ih =>
      obtain ⟨symbol, same | ⟨k, inside, same⟩⟩ := ih expands mem
      · exact ⟨symbol, .inr ⟨(kind, named), List.mem_cons_self, same⟩⟩
      · exact ⟨symbol, .inr ⟨k, List.mem_cons_of_mem _ inside, same⟩⟩

theorem mem_literals_iff {text : String} : text ∈ r.literals ↔ .literal text ∈ r.symbols := by
  induction r <;> simp_all [literals, symbols]

theorem mem_repeated_iff {body : Rule} : body ∈ r.repeated ↔ .repetition body ∈ r.symbols := by
  induction r <;> simp_all [repeated, symbols, or_comm]

/-- What a repeated body mentions is mentioned. -/
theorem subset_of_repeated {body : Rule} (repeats : body ∈ r.repeated) :
    body.symbols ⊆ r.symbols ∧ body.aliases ⊆ r.aliases := by
  induction r with
  | empty | named | literal => cases repeats
  | many inner ih =>
      rcases List.mem_append.mp repeats with inside | here
      · exact ⟨fun x mem => List.mem_cons_of_mem _ ((ih inside).1 mem), (ih inside).2⟩
      · obtain rfl := List.mem_singleton.mp here
        exact ⟨fun x mem => List.mem_cons_of_mem _ mem, List.Subset.refl _⟩
  | seq first second ihFirst ihSecond | either first second ihFirst ihSecond =>
      rcases List.mem_append.mp repeats with inside | inside
      · exact ⟨fun x mem => List.mem_append_left _ ((ihFirst inside).1 mem),
          fun x mem => List.mem_append_left _ ((ihFirst inside).2 mem)⟩
      · exact ⟨fun x mem => List.mem_append_right _ ((ihSecond inside).1 mem),
          fun x mem => List.mem_append_right _ ((ihSecond inside).2 mem)⟩
  | ranked _ _ _ ih | weighted _ _ ih | labelled _ _ ih => exact ih repeats
  | shownAs _ _ _ ih =>
      exact ⟨(ih repeats).1, fun x mem => List.mem_cons_of_mem _ ((ih repeats).2 mem)⟩

end Rule

/-! ## Splicing -/

namespace Grammar

variable {g : Grammar} {x : Symbol × Option (String × Bool)} {b : Body} {s : Step}

/-- Some rule mentions the symbol. -/
def Mentions (g : Grammar) (x : Symbol) : Prop := ∃ r ∈ g.rules, x ∈ r.2.symbols

/-- The symbol is to be replaced wherever it is expected. -/
def IsSpliced (g : Grammar) (x : Symbol) : Prop := ∃ n ∈ g.spliced, x = .named n

/-- What is expected is mentioned, and what it is shown as is an alias of some rule. -/
structure Founded (g : Grammar) (x : Symbol × Option (String × Bool)) : Prop where
  mentioned : g.Mentions x.1
  shown : ∀ k, x.2 = some k → ∃ r ∈ g.rules, k ∈ r.2.aliases

/-- Every name that is mentioned is known, what is spliced mentions nothing that is, and the start
is a nonterminal. -/
structure Closed (g : Grammar) : Prop where
  known : ∀ r ∈ g.rules, ∀ n ∈ r.2.names, n ∈ g.tokens ∨ n ∈ g.rules.map Prod.fst
  flat : ∀ r ∈ g.rules, r.1 ∈ g.spliced → ∀ n ∈ r.2.names, n ∉ g.spliced
  start : g.start ∈ g.rules.map Prod.fst ∧ g.start ∉ g.spliced

theorem Closed.not_isSpliced (closed : g.Closed) {r : String × Rule} (rule : r ∈ g.rules)
    (spliced : r.1 ∈ g.spliced) {y : Symbol} (mem : y ∈ r.2.symbols) : ¬g.IsSpliced y := by
  rintro ⟨n, member, rfl⟩
  exact closed.flat r rule spliced n (Rule.mem_names_iff.mpr mem) member

theorem founded_of_has {r : String × Rule} (rule : r ∈ g.rules) (has : r.2.Has none x) :
    g.Founded x := by
  refine ⟨⟨r, rule, has.1⟩, fun k shown => ⟨r, rule, ?_⟩⟩
  rcases has.2 with none | ⟨k', inside, same⟩
  · rw [none] at shown
    cases shown
  · obtain rfl := Option.some.inj (same.symm.trans shown)
    exact inside

/-- A body comes from the rule of the name. -/
theorem exists_rule_of_bodiesOf {n : String} (production : b ∈ g.bodiesOf n) :
    ∃ r, (n, r) ∈ g.rules ∧ ∀ x ∈ b.looks, r.Has none x := by
  unfold bodiesOf rule? at production
  cases found : g.rules.lookup n with
  | none => simp [found] at production
  | some r =>
      obtain ⟨before, after, split, -⟩ := List.lookup_eq_some_iff.mp found
      refine ⟨r, by simp [split], fun x mem => ?_⟩
      simp only [found, Option.map_some, Option.getD_some, Rule.bodies, List.mem_eraseDups]
        at production
      exact Rule.has_of_expand production mem

theorem looks_covered (removed : Marks) (b : Body) :
    (covered removed b).looks = b.looks.map fun x => (x.1, removed.shown <|> x.2) := by
  rw [covered, Body.looks_modifyLast]
  · simp [Body.looks, Step.look]
  · exact fun _ => rfl

/-- What is put together step by step comes from the start or from one of the steps. -/
theorem mem_looks_of_foldl {f : Step → List Body} {steps : List Step} {made : List Body}
    (folds : b ∈ steps.foldl (fun made step => made.flatMap fun x => (f step).map x.append) made)
    (mem : x ∈ b.looks) :
    (∃ a ∈ made, x ∈ a.looks) ∨ ∃ s ∈ steps, ∃ c ∈ f s, x ∈ c.looks := by
  induction steps generalizing made with
  | nil => exact .inl ⟨b, folds, mem⟩
  | cons s steps ih =>
      rcases ih folds with ⟨a, inside, mem⟩ | ⟨s', later, c, inside, mem⟩
      · obtain ⟨front, earlier, inside⟩ := List.mem_flatMap.mp inside
        obtain ⟨c, here, rfl⟩ := List.mem_map.mp inside
        rw [Body.looks_append] at mem
        rcases List.mem_append.mp mem with mem | mem
        · exact .inl ⟨front, earlier, mem⟩
        · exact .inr ⟨s, List.mem_cons_self, c, here, mem⟩
      · exact .inr ⟨s', List.mem_cons_of_mem _ later, c, inside, mem⟩

theorem spliceStep_of_not_spliced (plain : ¬g.IsSpliced s.symbol) (depth : Nat) :
    g.spliceStep depth s = [⟨[s], 0⟩] := by
  cases depth with
  | zero => rfl
  | succ depth =>
      rw [spliceStep]
      split
      · rename_i n symbol
        rw [if_neg]
        intro member
        exact plain ⟨n, List.contains_iff_mem.mp member, symbol⟩
      · rfl

/-- Nothing that is spliced is left where a step has been replaced. -/
theorem Closed.founded_of_spliceStep (closed : g.Closed) (founded : g.Founded s.look)
    (splices : b ∈ g.spliceStep g.spliced.length s) (mem : x ∈ b.looks) :
    g.Founded x ∧ ¬g.IsSpliced x.1 := by
  by_cases spliced : g.IsSpliced s.symbol
  · obtain ⟨n, member, symbol⟩ := spliced
    obtain ⟨depth, length⟩ := Nat.exists_eq_add_one.mpr (List.length_pos_of_mem member)
    rw [length, spliceStep, symbol] at splices
    simp only [List.contains_iff_mem, if_pos member] at splices
    obtain ⟨body, production, folds⟩ := List.mem_flatMap.mp splices
    obtain ⟨r, rule, has⟩ := exists_rule_of_bodiesOf production
    rcases mem_looks_of_foldl folds mem with ⟨a, start, mem⟩ | ⟨step, inside, c, made, mem⟩
    · obtain rfl := List.mem_singleton.mp start
      cases mem
    · have look : step.look ∈ (covered s.marks body).looks := List.mem_map_of_mem inside
      rw [looks_covered] at look
      obtain ⟨old, before, same⟩ := List.mem_map.mp look
      have symbol : old.1 = step.symbol := congrArg Prod.fst same
      have shown : (s.marks.shown <|> old.2) = step.marks.shown := congrArg Prod.snd same
      have here := founded_of_has rule (has old before)
      have kept := symbol ▸ closed.not_isSpliced rule member (has old before).1
      rw [spliceStep_of_not_spliced kept] at made
      obtain rfl := List.mem_singleton.mp made
      obtain rfl := List.mem_singleton.mp mem
      have mentioned : g.Mentions step.symbol := symbol ▸ here.mentioned
      refine ⟨⟨mentioned, fun k isShown => ?_⟩, kept⟩
      have either : (s.marks.shown <|> old.2) = some k := shown.trans isShown
      rcases outer : s.marks.shown with _ | k'
      · rw [outer] at either
        exact here.shown k either
      · rw [outer] at either
        obtain rfl := Option.some.inj either
        exact founded.shown k' outer
  · rw [spliceStep_of_not_spliced spliced] at splices
    obtain rfl := List.mem_singleton.mp splices
    obtain rfl := List.mem_singleton.mp mem
    exact ⟨founded, spliced⟩

theorem Closed.founded_of_splice (closed : g.Closed) {c : Body}
    (founded : ∀ y ∈ c.looks, g.Founded y) (splices : b ∈ g.splice c) (mem : x ∈ b.looks) :
    g.Founded x ∧ ¬g.IsSpliced x.1 := by
  rcases mem_looks_of_foldl splices mem with ⟨a, start, mem⟩ | ⟨step, inside, c, made, mem⟩
  · obtain rfl := List.mem_singleton.mp start
    cases mem
  · exact closed.founded_of_spliceStep (founded _ (List.mem_map_of_mem inside)) made mem

theorem mem_repetitions_iff {body : Rule} :
    body ∈ g.repetitions ↔ g.Mentions (.repetition body) := by
  simp [repetitions, Mentions, Rule.mem_repeated_iff]

theorem mem_literals_iff {text : String} : text ∈ g.literals ↔ g.Mentions (.literal text) := by
  simp [literals, Mentions, Rule.mem_literals_iff]

/-- Before they are spliced, the productions of a repetition expect what rules mention. -/
theorem founded_of_repetitionBodies {body : Rule} (repeated : body ∈ g.repetitions)
    (production : b ∈ body.repetitionBodies) (mem : x ∈ b.looks) : g.Founded x := by
  obtain ⟨r, rule, repetition⟩ := mem_repetitions_iff.mp repeated
  obtain ⟨symbols, aliases⟩ := Rule.subset_of_repeated (Rule.mem_repeated_iff.mpr repetition)
  have inside {c : Body} (once : c ∈ body.expand {} true) (mem : x ∈ c.looks) : g.Founded x :=
    founded_of_has rule ((Rule.has_of_expand once mem).mono symbols aliases)
  rw [Rule.repetitionBodies, List.mem_eraseDups] at production
  rcases List.mem_append.mp production with again | once
  · obtain ⟨c, once, rfl⟩ := List.mem_map.mp again
    rcases List.mem_cons.mp mem with rfl | mem
    · exact ⟨⟨r, rule, repetition⟩, nofun⟩
    · exact inside once mem
  · exact inside once mem

/-- A step of a production of a closed grammar expects what is mentioned and not spliced. -/
theorem Closed.founded (closed : g.Closed) {y : Symbol} (nonterminal : y ∈ g.nonterminals)
    (production : b ∈ g.productionsOf y) (step : s ∈ b.steps) :
    g.Founded s.look ∧ ¬g.IsSpliced s.symbol := by
  have mem : s.look ∈ b.looks := List.mem_map_of_mem step
  cases y with
  | literal => cases production
  | named n =>
      rw [productionsOf, List.mem_eraseDups] at production
      obtain ⟨c, body, splices⟩ := List.mem_flatMap.mp production
      obtain ⟨r, rule, has⟩ := exists_rule_of_bodiesOf body
      exact closed.founded_of_splice (fun y inside => founded_of_has rule (has y inside)) splices mem
  | repetition r =>
      rw [productionsOf, List.mem_eraseDups] at production
      obtain ⟨c, body, splices⟩ := List.mem_flatMap.mp production
      have repeated : r ∈ g.repetitions := by simpa [nonterminals] using nonterminal
      exact closed.founded_of_splice
        (fun y inside => founded_of_repetitionBodies repeated body inside) splices mem

/-- It expects a terminal or a nonterminal. -/
theorem Closed.mem_symbols (closed : g.Closed) {y : Symbol} (nonterminal : y ∈ g.nonterminals)
    (production : b ∈ g.productionsOf y) (step : s ∈ b.steps) :
    s.symbol ∈ g.terminals ++ g.nonterminals := by
  obtain ⟨founded, unspliced⟩ := closed.founded nonterminal production step
  have mentioned : g.Mentions s.symbol := founded.mentioned
  rw [List.mem_append]
  cases symbol : s.symbol with
  | literal text =>
      rw [symbol] at mentioned
      left
      simpa [terminals] using mem_literals_iff.mpr mentioned
  | repetition r =>
      rw [symbol] at mentioned
      right
      simpa [nonterminals] using mem_repetitions_iff.mpr mentioned
  | named n =>
      rw [symbol] at mentioned unspliced
      obtain ⟨r, rule, inside⟩ := mentioned
      rcases closed.known r rule n (Rule.mem_names_iff.mpr inside) with token | name
      · exact .inl (named_mem_terminals_iff.mpr token)
      · exact .inr (named_mem_nonterminals_iff.mpr
          ⟨name, fun member => unspliced ⟨n, member, rfl⟩⟩)

end Grammar

end ApiInventory.Syntax
