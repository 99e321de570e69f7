import ApiInventory.Proofs.Syntax.Splicing
import Mathlib

/-!
# The nodes of a derived tree

Each node of what a grammar derives, on any level, is an extra or stands for a step of some
production (`Grown`). So a node whose kind only a rule can give holds what that rule derives
(`Grown.derives`), wherever in the tree it is.

A child is found by its role if the steps in front of it have other labels and each leave a node
(`Yields.child`): a step that leaves none may hand on children with roles of their own.
-/

namespace ApiInventory.Syntax

namespace Grammar

variable {g : Grammar} {extras : List String} {s : Step} {steps : List Step}
  {n : Node} {nodes : List Node}

/-- Under what a step appears, if not only through its children. -/
def appearance (g : Grammar) (s : Step) : Display := s.marks.shown <|> g.display s.symbol

theorem shows_eq (g : Grammar) (s : Step) (shape : Shape) :
    g.shows s shape = Frame.appear (g.appearance s) s.marks.label shape :=
  rfl

/-- Some production has the step. -/
def Expects (g : Grammar) (s : Step) : Prop :=
  ∃ x ∈ g.nonterminals, ∃ b ∈ g.productionsOf x, s ∈ b.steps

/-! ## Kinds -/

/-- A node of a derived tree, with all that is below it. Its role is not said, since it is given by
the nodes around it. -/
inductive Grown (g : Grammar) (extras : List String) : Node → Prop
  | extra {kind : String} (known : kind ∈ extras) (role : Option String) (text : String) :
      Grown g extras (.token kind true role text)
  | token {s : Step} {kind : String} {named : Bool} (expected : g.Expects s)
      (terminal : s.symbol ∈ g.terminals) (appears : g.appearance s = some (kind, named))
      (role : Option String) (text : String) : Grown g extras (.token kind named role text)
  | group {s : Step} {kind : String} {named : Bool} {children : List Node}
      (expected : g.Expects s) (nonterminal : s.symbol ∈ g.nonterminals)
      (appears : g.appearance s = some (kind, named)) (role : Option String)
      (derives : g.Derives extras s.symbol children)
      (inside : ∀ n ∈ children, Grown g extras n) : Grown g extras (.group kind named role children)

theorem Grown.withRole (grown : g.Grown extras n) (label : Option String) :
    g.Grown extras (n.withRole label) := by
  cases grown with
  | extra known role text => exact .extra known _ text
  | token expected terminal appears role text => exact .token expected terminal appears _ text
  | group expected nonterminal appears role derives inside =>
      exact .group expected nonterminal appears _ derives inside

theorem Grown.of_mem_children {c : Node} (grown : g.Grown extras n) (child : c ∈ n.children) :
    g.Grown extras c := by
  cases grown with
  | extra | token => cases child
  | group expected nonterminal appears role derives inside => exact inside c child

theorem grown_of_isExtra (extra : IsExtra extras n) : g.Grown extras n := by
  obtain ⟨known, text⟩ := extra
  exact .extra known none text

/-- By induction on the derivation: what a step hands on is a node of its own, or the nodes inside
it with another role. -/
theorem Yields.grown (yields : g.Yields extras steps nodes) (expected : ∀ s ∈ steps, g.Expects s) :
    ∀ n ∈ nodes, g.Grown extras n := by
  induction yields with
  | none => exact List.forall_mem_nil _
  | @token s terminal text =>
      have here : g.Expects s := expected s List.mem_cons_self
      cases appears : g.appearance s with
      | none =>
          rw [shows_eq, appears]
          exact List.forall_mem_nil _
      | some look =>
          rw [shows_eq, appears]
          exact List.forall_mem_singleton.mpr (.token here terminal appears _ text)
  | @group s b children nonterminal production inside ih =>
      have here : g.Expects s := expected s List.mem_cons_self
      have grown := ih fun s' step => ⟨s.symbol, nonterminal, b, production, step⟩
      rw [shows_eq]
      cases appears : g.appearance s with
      | none =>
          unfold Frame.appear
          dsimp only
          split
          · exact grown
          · exact List.forall_mem_map.mpr fun n inside => (grown n inside).withRole _
      | some look =>
          exact List.forall_mem_singleton.mpr
            (.group here nonterminal appears _ ⟨b, production, inside⟩ grown)
  | more front gap onward ihFront ihOnward =>
      obtain ⟨here, later⟩ := List.forall_mem_cons.mp expected
      exact List.forall_mem_append.mpr ⟨List.forall_mem_append.mpr
        ⟨ihFront (List.forall_mem_singleton.mpr here),
          fun n between => grown_of_isExtra (gap n between)⟩,
        ihOnward later⟩

theorem Derives.grown {x : Symbol} {children : List Node} (nonterminal : x ∈ g.nonterminals)
    (derives : g.Derives extras x children) : ∀ n ∈ children, g.Grown extras n := by
  obtain ⟨b, production, yields⟩ := derives
  exact yields.grown fun s step => ⟨x, nonterminal, b, production, step⟩

/-- No token, no extra and no alias has the kind, so that it can be that of a rule only. -/
structure OnlyRule (g : Grammar) (extras : List String) (kind : String) : Prop where
  extra : kind ∉ extras
  token : kind ∉ g.tokens
  literal : ∀ r ∈ g.rules, kind ∉ r.2.literals
  shown : ∀ r ∈ g.rules, ∀ k ∈ r.2.aliases, k.1 ≠ kind

theorem Expects.symbol_of_appearance {kind : String} {named : Bool} (expected : g.Expects s)
    (closed : g.Closed) (only : g.OnlyRule extras kind)
    (appears : g.appearance s = some (kind, named)) :
    (s.symbol = .named kind ∧ named = true) ∨ s.symbol = .literal kind := by
  obtain ⟨x, nonterminal, b, production, step⟩ := expected
  have founded : g.Founded s.look := (closed.founded nonterminal production step).1
  unfold appearance at appears
  cases shown : s.marks.shown with
  | some k =>
      obtain ⟨r, rule, inside⟩ := founded.shown k shown
      rw [shown] at appears
      obtain rfl : k = (kind, named) := Option.some.inj appears
      exact absurd rfl (only.shown r rule _ inside)
  | none =>
      rw [shown] at appears
      change g.display s.symbol = some (kind, named) at appears
      cases symbol : s.symbol with
      | named name =>
          rw [symbol, display] at appears
          split at appears
          · cases appears
          · simp_all
      | literal text =>
          rw [symbol] at appears
          simp_all [display]
      | repetition => simp [symbol, display] at appears

/-- A node of the kind holds what the rule derives. -/
theorem Grown.derives {kind : String} (grown : g.Grown extras n) (closed : g.Closed)
    (only : g.OnlyRule extras kind) (same : n.kind = kind) :
    ∃ role children, n = .group kind true role children ∧
      g.Derives extras (.named kind) children := by
  cases grown with
  | extra known role text => exact absurd (same ▸ known) only.extra
  | token expected terminal appears role text =>
      obtain rfl := same
      rcases expected.symbol_of_appearance closed only appears with ⟨symbol, -⟩ | symbol
      · rw [symbol] at terminal
        exact absurd (named_mem_terminals_iff.mp terminal) only.token
      · rw [symbol] at terminal
        obtain ⟨r, rule, inside⟩ := literal_mem_terminals_iff.mp terminal
        exact absurd inside (only.literal r rule)
  | @group s kind' named children expected nonterminal appears role derives inside =>
      obtain rfl : kind' = kind := same
      rcases expected.symbol_of_appearance closed only appears with ⟨symbol, rfl⟩ | symbol
      · exact ⟨role, children, rfl, symbol ▸ derives⟩
      · rw [symbol] at nonterminal
        simp [nonterminals] at nonterminal

/-! ## Roles -/

theorem Yields.exists_one (yields : g.Yields extras [s] nodes) (visible : (g.appearance s).isSome) :
    ∃ n, nodes = [n] ∧ n.role = s.marks.label := by
  obtain ⟨look, appears⟩ := Option.isSome_iff_exists.mp visible
  have shows (shape : Shape) : g.shows s shape = Frame.appear (some look) s.marks.label shape := by
    rw [shows_eq, appears]
  rcases yields_one_iff.mp yields with ⟨-, text, rfl⟩ | ⟨-, children, -, rfl⟩
  · exact ⟨_, shows _, rfl⟩
  · exact ⟨_, shows _, rfl⟩

/-- What the first step with the label stands for is the first child in the role. -/
theorem Yields.child {role : String} (yields : g.Yields extras steps nodes)
    (first : steps.find? (fun s => s.marks.label == some role) = some s)
    (visible : (g.appearance s).isSome)
    (plain : ∀ s ∈ steps.takeWhile fun s => s.marks.label != some role, (g.appearance s).isSome) :
    ∃ n, nodes.find? (fun n => n.role == some role) = some n ∧ g.Yields extras [s] [n] := by
  induction steps generalizing nodes with
  | nil => cases first
  | cons s' later ih =>
      obtain ⟨front, between, rest, rfl, here, gap, onward⟩ := yields.head
      cases label : s'.marks.label == some role with
      | true =>
          rw [List.find?_cons, label] at first
          obtain rfl := Option.some.inj first
          obtain ⟨n, rfl, same⟩ := here.exists_one visible
          exact ⟨n, by simp [same, label], here⟩
      | false =>
          rw [List.find?_cons, label] at first
          rw [List.takeWhile_cons, bne, label] at plain
          obtain ⟨shown, plain⟩ := List.forall_mem_cons.mp plain
          obtain ⟨n, rfl, same⟩ := here.exists_one shown
          obtain ⟨found, finds, one⟩ := ih onward first plain
          have extras : between.find? (fun n => n.role == some role) = Option.none :=
            List.find?_eq_none.mpr fun n inside => by
              obtain ⟨known, text⟩ := gap n inside
              simp
          exact ⟨found, by simp [same, label, extras, finds], one⟩

end Grammar

end ApiInventory.Syntax
