import ApiInventory.Syntax.Parse

/-!
# What a grammar derives

A production yields the nodes that stand for its steps, in their order: for a terminal a token, and
for a nonterminal a group of what one of its own productions yields. A symbol that leaves no node
leaves what is inside it.

Extras may stand between two steps, as many as there are. In front of the first step and behind the
last one there is none, so that a group begins with what its production begins with
(`Yields.head`).
-/

namespace ApiInventory.Syntax

/-- A comment, or whatever else may stand between any two tokens. -/
inductive IsExtra (kinds : List String) : Node → Prop
  | intro {kind : String} (known : kind ∈ kinds) (text : String) :
      IsExtra kinds (.token kind true none text)

namespace Grammar

/-- The nodes by which a step of a production appears. -/
def shows (g : Grammar) (s : Step) (shape : Shape) : List Node :=
  Frame.appear (s.marks.shown <|> g.display s.symbol) s.marks.label shape

inductive Yields (g : Grammar) (extras : List String) : List Step → List Node → Prop
  | none : Yields g extras [] []
  | token {s : Step} (terminal : s.symbol ∈ g.terminals) (text : String) :
      Yields g extras [s] (g.shows s (.token text))
  | group {s : Step} {b : Body} {children : List Node} (nonterminal : s.symbol ∈ g.nonterminals)
      (production : b ∈ g.productionsOf s.symbol) (inside : Yields g extras b.steps children) :
      Yields g extras [s] (g.shows s (.group children))
  | more {s next : Step} {later : List Step} {first between rest : List Node}
      (front : Yields g extras [s] first) (gap : ∀ n ∈ between, IsExtra extras n)
      (onward : Yields g extras (next :: later) rest) :
      Yields g extras (s :: next :: later) (first ++ between ++ rest)

/-- What may be the children of a node that stands for the symbol. -/
def Derives (g : Grammar) (extras : List String) (x : Symbol) (children : List Node) : Prop :=
  ∃ b ∈ g.productionsOf x, g.Yields extras b.steps children

variable {g : Grammar} {extras : List String} {s : Step} {later : List Step} {nodes : List Node}

theorem named_mem_terminals_iff {name : String} : .named name ∈ g.terminals ↔ name ∈ g.tokens := by
  simp [terminals]

theorem named_mem_nonterminals_iff {name : String} :
    .named name ∈ g.nonterminals ↔ name ∈ g.rules.map Prod.fst ∧ name ∉ g.spliced := by
  simp [nonterminals]

theorem repetition_mem_nonterminals_iff {r : Rule} :
    .repetition r ∈ g.nonterminals ↔ ∃ rule ∈ g.rules, r ∈ rule.2.repeated := by
  simp [nonterminals, repetitions]

theorem literal_mem_terminals_iff {text : String} :
    .literal text ∈ g.terminals ↔ ∃ r ∈ g.rules, text ∈ r.2.literals := by
  simp [terminals, literals]

theorem repetition_not_mem_terminals {r : Rule} : .repetition r ∉ g.terminals := by
  simp [terminals]

/-- A symbol that leaves no node leaves what it derives. -/
theorem yields_hidden {x : Symbol} {children : List Node} (nonterminal : x ∈ g.nonterminals)
    (hidden : g.display x = none) (derives : g.Derives extras x children) :
    g.Yields extras [⟨x, {}⟩] children := by
  obtain ⟨b, production, inside⟩ := derives
  have yields : g.Yields extras [⟨x, {}⟩] _ := .group nonterminal production inside
  simpa [shows, hidden, Frame.appear] using yields

theorem yields_visible {x : Symbol} {kind : String} {named : Bool} {children : List Node}
    (nonterminal : x ∈ g.nonterminals) (visible : g.display x = some (kind, named))
    (derives : g.Derives extras x children) :
    g.Yields extras [⟨x, {}⟩] [.group kind named none children] := by
  obtain ⟨b, production, inside⟩ := derives
  have yields : g.Yields extras [⟨x, {}⟩] _ := .group nonterminal production inside
  simpa [shows, visible, Frame.appear] using yields

theorem yields_token {x : Symbol} {kind : String} {named : Bool} (terminal : x ∈ g.terminals)
    (visible : g.display x = some (kind, named)) (text : String) :
    g.Yields extras [⟨x, {}⟩] [.token kind named none text] := by
  have yields : g.Yields extras [⟨x, {}⟩] _ := .token terminal text
  simpa [shows, visible, Frame.appear] using yields

/-- What the first step stands for comes first, then extras, then the rest. -/
theorem Yields.head (h : g.Yields extras (s :: later) nodes) :
    ∃ first between rest, nodes = first ++ between ++ rest ∧ g.Yields extras [s] first ∧
      (∀ n ∈ between, IsExtra extras n) ∧ g.Yields extras later rest := by
  cases h with
  | token terminal text =>
      exact ⟨_, [], [], by simp, .token terminal text, List.forall_mem_nil _, .none⟩
  | group nonterminal production inside =>
      exact ⟨_, [], [], by simp, .group nonterminal production inside, List.forall_mem_nil _, .none⟩
  | more front gap onward => exact ⟨_, _, _, rfl, front, gap, onward⟩

theorem yields_one_iff : g.Yields extras [s] nodes ↔
    (s.symbol ∈ g.terminals ∧ ∃ text, nodes = g.shows s (.token text)) ∨
      s.symbol ∈ g.nonterminals ∧
        ∃ children, g.Derives extras s.symbol children ∧ nodes = g.shows s (.group children) := by
  constructor
  · intro h
    cases h with
    | token terminal text => exact .inl ⟨terminal, text, rfl⟩
    | group nonterminal production inside =>
        exact .inr ⟨nonterminal, _, ⟨_, production, inside⟩, rfl⟩
  · rintro (⟨terminal, text, rfl⟩ | ⟨nonterminal, children, ⟨b, production, inside⟩, rfl⟩)
    · exact .token terminal text
    · exact .group nonterminal production inside

end Grammar

end ApiInventory.Syntax
