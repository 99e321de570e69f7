import ApiInventory.Syntax.Grammar
import Std.Data.HashMap

/-!
# The canonical automaton of a grammar

A state is a set of items: a production, a position in it, and the terminals that
may follow the finished production. `Automaton.ofGrammar` builds every state that
can be reached and settles, terminal by terminal, between reading on and
finishing a production. Of several finished productions the one of highest rank
stays. Against reading on, the rank decides, then the side that the finished
productions group to. What is left undecided stays as several actions, and the
parser follows them all.

No states are merged, so a terminal has an action in a state only if some text
continues with it there.
-/

namespace ApiInventory.Syntax

/-- A set of terminals, as the bits of a number. -/
abbrev TerminalSet := Nat

namespace TerminalSet

def single (t : Nat) : TerminalSet := 1 <<< t

def has (s : TerminalSet) (t : Nat) : Bool := s.testBit t

end TerminalSet

inductive Action where
  | shift (state : Nat)
  | reduce (production : Nat)
  | accept
deriving DecidableEq, Repr, Inhabited

structure State where
  /-- The actions on each terminal. -/
  actions : Array (List Action)
  /-- Where to go after each nonterminal. -/
  gotos : List (Nat × Nat)
deriving Inhabited

structure Automaton where
  grammar : Numbered
  states : Array State

/-- A production read up to the dot, and the terminals that may come after all of it. -/
structure Item where
  production : Nat
  dot : Nat
  ahead : TerminalSet
deriving BEq, Hashable, Inhabited

/-- A nonterminal that may begin where another does, with the terminals that follow
it there; `through` says that whatever follows the other one may follow it too. -/
structure Opening where
  symbol : Nat
  ahead : TerminalSet
  through : Bool

/-- What the construction asks of a grammar over and over. -/
structure Analysis where
  grammar : Numbered
  vanishing : Array Bool
  first : Array TerminalSet
  openings : Array (List Opening)

namespace Numbered

variable (g : Numbered)

def symbolCount : Nat := g.displays.size

/-- The production `start` alone, numbered after all others. -/
def root : Nat := g.productions.size

def slots (p : Nat) : Array Slot :=
  if p = g.root then #[⟨g.start, 0, none, none, none⟩]
  else (g.productions[p]?.map Production.slots).getD #[]

def target (p : Nat) : Nat := (g.productions[p]?.map Production.target).getD 0

def choicesOf (symbol : Nat) : List Nat := g.choices.getD symbol []

/-- One round of finding the symbols that may stand for no text. -/
def vanishingRound (known : Array Bool) : Array Bool :=
  g.productions.foldl
    (fun known p =>
      if p.slots.all fun s => known.getD s.symbol false then known.setIfInBounds p.target true
      else known)
    known

/-- The terminals that a sequence may begin with, and whether it may be passed over. -/
def firstOf (vanishing : Array Bool) (first : Array TerminalSet) :
    List Slot → TerminalSet × Bool
  | [] => (0, true)
  | s :: rest =>
    let here := first.getD s.symbol 0
    if vanishing.getD s.symbol false then
      let (later, passed) := firstOf vanishing first rest
      (here ||| later, passed)
    else (here, false)

def firstRound (vanishing : Array Bool) (first : Array TerminalSet) : Array TerminalSet :=
  g.productions.foldl
    (fun first p =>
      let found := (firstOf vanishing first p.slots.toList).1
      first.modify p.target (found ||| ·))
    first

/-- Repeat a growing step until it adds nothing, at most `fuel` times. -/
def saturate {α : Type} [BEq α] (step : α → α) : Nat → α → α
  | 0, x => x
  | fuel + 1, x =>
    let y := step x
    if y == x then x else saturate step fuel y

/-- One round of following leading nonterminals. -/
def openingRound (vanishing : Array Bool) (first : Array TerminalSet)
    (reached : Array (Option (TerminalSet × Bool))) : Array (Option (TerminalSet × Bool)) :=
  (List.range g.symbolCount).foldl
    (fun reached symbol =>
      match reached.getD symbol none with
      | none => reached
      | some (ahead, through) =>
        (g.choicesOf symbol).foldl
          (fun reached p =>
            match (g.slots p).toList with
            | [] => reached
            | s :: rest =>
              if g.isTerminal s.symbol then reached
              else
                let (next, passed) := firstOf vanishing first rest
                let ahead := if passed then next ||| ahead else next
                reached.modify s.symbol fun old =>
                  match old with
                  | none => some (ahead, through && passed)
                  | some (a, t) => some (a ||| ahead, t || (through && passed)))
          reached)
    reached

def openingsOf (vanishing : Array Bool) (first : Array TerminalSet) (symbol : Nat) :
    List Opening :=
  let start := (Array.replicate g.symbolCount none).setIfInBounds symbol (some (0, true))
  let reached := saturate (g.openingRound vanishing first) (g.symbolCount * g.symbolCount) start
  reached.toList.zipIdx.filterMap fun (r, i) => r.map fun (a, t) => ⟨i, a, t⟩

def analysis : Analysis :=
  let count := g.symbolCount
  let vanishing := saturate g.vanishingRound count (Array.replicate count false)
  let start := (List.range count).map fun s => if g.isTerminal s then TerminalSet.single s else 0
  let first := saturate (g.firstRound vanishing) (count * count) start.toArray
  let openings := (List.range count).map fun s =>
    if g.isTerminal s then [] else g.openingsOf vanishing first s
  { grammar := g, vanishing, first, openings := openings.toArray }

end Numbered

namespace Analysis

variable (a : Analysis)

/-- The terminals that may follow a nonterminal inside an item. -/
def aheadAfter (item : Item) : TerminalSet :=
  let rest := (a.grammar.slots item.production).toList.drop (item.dot + 1)
  let (next, passed) := Numbered.firstOf a.vanishing a.first rest
  if passed then next ||| item.ahead else next

def nextSlot (item : Item) : Option Slot :=
  (a.grammar.slots item.production)[item.dot]?

/-- For each nonterminal that may begin here, what may follow it. -/
def reached (kernel : List Item) : Array TerminalSet :=
  kernel.foldl
    (fun table item =>
      match a.nextSlot item with
      | none => table
      | some s =>
        if a.grammar.isTerminal s.symbol then table
        else
          let after := a.aheadAfter item
          (a.openings.getD s.symbol []).foldl
            (fun table o =>
              table.modify o.symbol fun old =>
                if o.through then old ||| o.ahead ||| after else old ||| o.ahead)
            table)
    (Array.replicate a.grammar.symbolCount 0)

/-- All items of a state: those that its predecessor led to and those that begin here. -/
def closure (kernel : List Item) : List Item :=
  let table := a.reached kernel
  kernel ++ (List.range a.grammar.symbolCount).flatMap fun symbol =>
    let ahead := table.getD symbol 0
    if ahead = 0 then [] else (a.grammar.choicesOf symbol).map fun p => ⟨p, 0, ahead⟩

/-- The items after each symbol. -/
def successors (items : List Item) : Array (List Item) :=
  items.foldl
    (fun table item =>
      match a.nextSlot item with
      | none => table
      | some s => table.modify s.symbol ({ item with dot := item.dot + 1 } :: ·))
    (Array.replicate a.grammar.symbolCount [])

end Analysis

/-- The finished productions on one terminal: those of the highest rank seen. -/
structure Finished where
  rank : Int
  productions : List Nat
  sides : List (Option Side)
deriving Inhabited

namespace Finished

def add (rank : Int) (side : Option Side) (production : Nat) : Option Finished → Finished
  | none => ⟨rank, [production], [side]⟩
  | some f =>
    if rank > f.rank then ⟨rank, [production], [side]⟩
    else if rank = f.rank then ⟨rank, f.productions ++ [production], side :: f.sides⟩
    else f

end Finished

/-- How reading on compares with finishing, over all items that could read on. -/
inductive Verdict where
  | both
  | readOn
  | finish
deriving DecidableEq

/-- Rank first; between equal ranks the side on which the finished productions
group, if they agree on one. -/
def Verdict.of (ranks : List Int) (f : Finished) : Verdict :=
  let more := ranks.any (· > f.rank)
  let less := ranks.any (· < f.rank)
  if more && !less then .readOn
  else if less && !more then .finish
  else if more && less then .both
  else if f.sides.all (· == some .left) then .finish
  else if f.sides.all (· == some .right) then .readOn
  else .both

namespace Analysis

variable (a : Analysis)

def finishedRank (production : Nat) : Int × Option Side :=
  match (a.grammar.slots production).back? with
  | none => (0, none)
  | some s => (s.rank, s.side)

/-- The finished productions by terminal. -/
def finished (items : List Item) : Array (Option Finished) :=
  items.foldl
    (fun table item =>
      match a.nextSlot item with
      | some _ => table
      | none =>
        let (rank, side) := a.finishedRank item.production
        (List.range a.grammar.terminalCount).foldl
          (fun table t =>
            if item.ahead.testBit t then
              table.modify t fun old => some (Finished.add rank side item.production old)
            else table)
          table)
    (Array.replicate a.grammar.terminalCount none)

/-- The ranks at which items that have begun may go on with the terminal. -/
def readingRanks (items : List Item) (terminal : Nat) : List Int :=
  items.filterMap fun item =>
    if item.dot = 0 then none
    else
      match a.nextSlot item with
      | none => none
      | some s =>
        if (a.first.getD s.symbol 0).testBit terminal then
          ((a.grammar.slots item.production)[item.dot - 1]?).map Slot.rank
        else none

def reduction (production : Nat) : Action :=
  if production = a.grammar.root then .accept else .reduce production

/-- The actions on one terminal, given the state that reading it would lead to. -/
def actionsOn (items : List Item) (terminal : Nat) (f : Option Finished) (next : Option Nat) :
    List Action :=
  match f, next with
  | none, none => []
  | none, some s => [.shift s]
  | some f, none => f.productions.map a.reduction
  | some f, some s =>
    match Verdict.of (a.readingRanks items terminal) f with
    | .readOn => [.shift s]
    | .finish => f.productions.map a.reduction
    | .both => f.productions.map a.reduction ++ [.shift s]

end Analysis

/-- States found so far; those at the end still wait for their actions. -/
structure Construction where
  numbers : Std.HashMap (List Item) Nat
  kernels : Array (List Item)
  states : Array State

namespace Construction

/-- The number of the state with this kernel, which is a new one if need be. -/
def number (c : Construction) (kernel : List Item) : Construction × Nat :=
  match c.numbers[kernel]? with
  | some n => (c, n)
  | none =>
    let n := c.kernels.size
    ({ c with numbers := c.numbers.insert kernel n, kernels := c.kernels.push kernel }, n)

/-- Kernels list their items in one order, so that equal sets are equal lists. -/
def inOrder (kernel : List Item) : List Item :=
  kernel.mergeSort fun x y =>
    x.production < y.production || (x.production == y.production && x.dot ≤ y.dot)

/-- Work out the state of one kernel. -/
def settle (a : Analysis) (c : Construction) (kernel : List Item) : Construction :=
  let items := a.closure kernel
  let after := a.successors items
  let (c, targets) := (List.range after.size).foldl
    (fun (c, targets) symbol =>
      match after.getD symbol [] with
      | [] => (c, targets)
      | k =>
        let (c, n) := c.number (inOrder k)
        (c, (symbol, n) :: targets))
    (c, ([] : List (Nat × Nat)))
  let finished := a.finished items
  let shifts := targets.foldl
    (fun (table : Array (Option Nat)) (symbol, n) => table.setIfInBounds symbol (some n))
    (Array.replicate a.grammar.terminalCount none)
  let actions := (List.range a.grammar.terminalCount).map fun t =>
    a.actionsOn items t (finished.getD t none) (shifts.getD t none)
  let gotos := targets.filter fun (symbol, _) => !a.grammar.isTerminal symbol
  { c with states := c.states.push ⟨actions.toArray, gotos⟩ }

def grow (a : Analysis) : Nat → Construction → Construction
  | 0, c => c
  | fuel + 1, c =>
    match c.kernels[c.states.size]? with
    | none => c
    | some kernel => grow a fuel (c.settle a kernel)

end Construction

namespace Automaton

/-- More states than this are not built. -/
def stateLimit : Nat := Nat.pow 2 60

def ofGrammar (g : Grammar) : Automaton :=
  let grammar := g.numbered
  let a := grammar.analysis
  let start : List Item := [⟨grammar.root, 0, TerminalSet.single 0⟩]
  let c : Construction := ⟨{}, #[], #[]⟩
  { grammar, states := ((c.number start).1.grow a stateLimit).states }

def actions (m : Automaton) (state terminal : Nat) : List Action :=
  ((m.states[state]?).map fun s => s.actions.getD terminal []).getD []

def goto (m : Automaton) (state symbol : Nat) : Option Nat :=
  (m.states[state]?).bind fun s => s.gotos.lookup symbol

/-- Whether the terminal may come next. -/
def allows (m : Automaton) (state terminal : Nat) : Bool :=
  !(m.actions state terminal).isEmpty

end Automaton

end ApiInventory.Syntax
