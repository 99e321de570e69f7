import ApiInventory.Syntax.Rule
import Std.Data.HashMap

/-!
# Grammars, numbered

A grammar names its rules. `Grammar.numbered` gives every terminal and every
nonterminal a number and lists the productions over these numbers: terminals come
first, then the nonterminals. Rules that the grammar asks to splice do not
survive as nonterminals: their productions replace them wherever they are used.
-/

namespace ApiInventory.Syntax

/-- A grammar in extended form. Tokens that are not literals are found by a lexer and
named here. A hidden rule leaves no node in the tree, only its children. -/
structure Grammar where
  rules : List (String × Rule)
  start : String
  tokens : List String
  spliced : List String
  hidden : List String

/-- A step of a numbered production. -/
structure Slot where
  symbol : Nat
  rank : Int
  side : Option Side
  label : Option String
  shown : Option (String × Bool)
deriving Repr, Inhabited

structure Production where
  target : Nat
  slots : Array Slot
  weight : Int
deriving Repr, Inhabited

namespace Production

/-- A production binds as its last step does; an empty one has no rank of its own. -/
def rank (p : Production) : Int :=
  (p.slots.back?.map Slot.rank).getD 0

def side (p : Production) : Option Side :=
  p.slots.back?.bind Slot.side

end Production

/-- How a symbol appears in the tree: under a kind, or only through its children. -/
abbrev Display := Option (String × Bool)

structure Numbered where
  terminals : Array String
  displays : Array Display
  productions : Array Production
  /-- The productions of each symbol. -/
  choices : Array (List Nat)
  start : Nat

namespace Grammar

def rule? (g : Grammar) (name : String) : Option Rule :=
  g.rules.lookup name

/-- The productions of a rule, before splicing. -/
def bodiesOf (g : Grammar) (name : String) : List Body :=
  ((g.rule? name).map Rule.bodies).getD []

/-- The marks of a replaced step cover what replaces it: its label and kind win, its
rank and side fill a gap at the last step. -/
def covered (removed : Marks) (b : Body) : Body :=
  let steps := b.steps.map fun s =>
    { s with marks := { s.marks with
        label := removed.label <|> s.marks.label
        shown := removed.shown <|> s.marks.shown } }
  Body.modifyLast
    (fun m => { m with rank := m.rank <|> removed.rank, side := m.side <|> removed.side })
    { b with steps := steps }

/-- What may stand for a step: its own symbol, or the productions of a spliced rule,
whose steps are spliced in turn to the given depth. -/
def spliceStep (g : Grammar) : Nat → Step → List Body
  | 0, s => [⟨[s], 0⟩]
  | depth + 1, s =>
    match s.symbol with
    | .named n =>
      if g.spliced.contains n then
        (g.bodiesOf n).flatMap fun b =>
          (covered s.marks b).steps.foldl
            (fun made step => made.flatMap fun x => (g.spliceStep depth step).map x.append)
            [⟨[], b.weight⟩]
      else [⟨[s], 0⟩]
    | _ => [⟨[s], 0⟩]

/-- Replace the steps of spliced rules by their productions. -/
def splice (g : Grammar) (b : Body) : List Body :=
  b.steps.foldl
    (fun made step =>
      made.flatMap fun x => (g.spliceStep g.spliced.length step).map x.append)
    [⟨[], b.weight⟩]

/-- The literal tokens of the grammar, each once. -/
def literals (g : Grammar) : List String :=
  (g.rules.flatMap fun r => r.2.literals).eraseDups

/-- The repeated bodies of the grammar, each once. -/
def repetitions (g : Grammar) : List Rule :=
  (g.rules.flatMap fun r => r.2.repeated).eraseDups

def nonterminals (g : Grammar) : List Symbol :=
  (g.rules.map (·.1)).filter (!g.spliced.contains ·) |>.map Symbol.named
    |>.append (g.repetitions.map Symbol.repetition)

/-- The end of the text is terminal 0. -/
def terminals (g : Grammar) : List Symbol :=
  g.tokens.map Symbol.named ++ g.literals.map Symbol.literal

def isHidden (g : Grammar) (name : String) : Bool :=
  g.hidden.contains name || name.startsWith "_"

def display (g : Grammar) : Symbol → Display
  | .named n => if g.isHidden n then none else some (n, true)
  | .literal t => some (t, false)
  | .repetition _ => none

def spelling : Symbol → String
  | .named n => n
  | .literal t => t
  | .repetition _ => ""

/-- The spliced productions of a nonterminal. -/
def productionsOf (g : Grammar) : Symbol → List Body
  | .named n => ((g.bodiesOf n).flatMap g.splice).eraseDups
  | .repetition r => (r.repetitionBodies.flatMap g.splice).eraseDups
  | .literal _ => []

def numbered (g : Grammar) : Numbered :=
  let terminals := g.terminals
  let nonterminals := g.nonterminals
  let symbols := terminals ++ nonterminals
  let numbers : Std.HashMap Symbol Nat :=
    Std.HashMap.ofList (symbols.zipIdx 1)
  let number := fun s => numbers.getD s 0
  let slot := fun s : Step =>
    { symbol := number s.symbol
      rank := s.marks.rank.getD 0
      side := s.marks.side
      label := s.marks.label
      shown := s.marks.shown : Slot }
  let productions := nonterminals.flatMap fun s =>
    (g.productionsOf s).map fun b =>
      { target := number s, slots := (b.steps.map slot).toArray, weight := b.weight : Production }
  let choices := productions.zipIdx.foldl
    (fun (table : Array (List Nat)) (p, i) => table.modify p.target (i :: ·))
    (Array.replicate (symbols.length + 1) [])
  { terminals := ("" :: terminals.map spelling).toArray
    displays := (none :: symbols.map g.display).toArray
    productions := productions.toArray
    choices := choices.map List.reverse
    start := number (.named g.start) }

end Grammar

namespace Numbered

def terminalCount (g : Numbered) : Nat := g.terminals.size

def isTerminal (g : Numbered) (symbol : Nat) : Bool := symbol < g.terminals.size

/-- The number of the terminal with this spelling; the end of the text has none. -/
def terminal (g : Numbered) (spelling : String) : Nat :=
  (g.terminals.findIdx? (· == spelling)).getD 0

end Numbered

end ApiInventory.Syntax
