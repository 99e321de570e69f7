import ApiInventory.Syntax.Automaton
import ApiInventory.Syntax.Node

/-!
# Parsing along all open readings

Where the automaton leaves several actions the parser follows each on a stack of
its own. Every reading asks the lexer for its own next token, since what may come
next, and hence how the text is cut, depends on its state. Readings that stand at the
same place with the same states are the same from there on, so only the one of
greater weight is kept. A reading that finds no token or no action is dropped;
a text has a tree iff some reading survives to its end.

Comments and other extras may stand between any two tokens. They stay in the
tree, inside the node that was open where they occurred.
-/

namespace ApiInventory.Syntax

/-- What a lexer found: a terminal, or an extra under its own kind. -/
inductive Lexeme.Role where
  | terminal (number : Nat)
  | extra (kind : String)
deriving Repr

structure Lexeme (σ : Type) where
  role : Lexeme.Role
  text : String
  /-- How many characters were passed, blanks in front included. -/
  taken : Nat
  rest : List Char
  state : σ

/-- A lexer finds the next token among the terminals allowed at its place. -/
structure Lexer (σ : Type) where
  initial : σ
  next : (allowed : Nat → Bool) → σ → List Char → Option (Lexeme σ)

/-- A symbol that has been read, before its parent decides how it appears. -/
inductive Shape where
  | token (text : String)
  | group (children : List Node)

structure Frame where
  state : Nat
  shape : Shape
  weight : Int
  extra : Bool

/-- One reading of the text up to its place. -/
structure Reading (σ : Type) where
  frames : List Frame
  lexer : σ
  rest : List Char
  left : Nat

namespace Frame

/-- The nodes by which a symbol appears at a step of its parent. -/
def appear (display : Display) (label : Option String) : Shape → List Node
  | .token text =>
    match display with
    | none => []
    | some (kind, named) => [.token kind named label text]
  | .group children =>
    match display with
    | none => if label.isNone then children else children.map (Node.withRole label)
    | some (kind, named) => [.group kind named label children]

/-- The nodes of an extra. -/
def extraNodes (f : Frame) : List Node :=
  match f.shape with
  | .token _ => []
  | .group children => children

end Frame

/-- Take the frames of the last `n` symbols, with the extras between them. -/
def popFrames : Nat → List Frame → List Frame → Option (List Frame × List Frame)
  | 0, taken, frames => some (taken, frames)
  | _ + 1, _, [] => none
  | n + 1, taken, f :: frames =>
    if f.extra then popFrames (n + 1) (f :: taken) frames else popFrames n (f :: taken) frames

def topState : List Frame → Nat
  | [] => 0
  | f :: _ => f.state

def sameStates : List Frame → List Frame → Bool
  | [], [] => true
  | f :: fs, g :: gs => f.state == g.state && sameStates fs gs
  | _, _ => false

def totalWeight (frames : List Frame) : Int :=
  frames.foldl (fun sum f => sum + f.weight) 0

namespace Automaton

variable (m : Automaton)

/-- The children that the frames of a production give, step by step. -/
def childrenOf : List Slot → List Frame → List Node
  | _, [] => []
  | [], f :: frames => f.extraNodes ++ childrenOf [] frames
  | s :: slots, f :: frames =>
    if f.extra then f.extraNodes ++ childrenOf (s :: slots) frames
    else
      let display := s.shown <|> m.grammar.displays.getD s.symbol none
      Frame.appear display s.label f.shape ++ childrenOf slots frames

/-- Replace the steps of a finished production by its symbol. Extras after the last
step stay behind it. -/
def reduceFrames (production : Nat) (frames : List Frame) : Option (List Frame) :=
  let slots := m.grammar.slots production
  let after := if slots.isEmpty then [] else frames.takeWhile Frame.extra
  let inner := frames.drop after.length
  match popFrames slots.size [] inner with
  | none => none
  | some (taken, below) =>
    match m.goto (topState below) (m.grammar.target production) with
    | none => none
    | some state =>
      let weight := ((m.grammar.productions[production]?).map Production.weight).getD 0
      let frame : Frame :=
        { state
          shape := .group (m.childrenOf slots.toList taken)
          weight := weight + totalWeight taken
          extra := false }
      some (after.map (fun f => { f with state }) ++ frame :: below)

/-- The tree of a whole text. Extras around the last symbol belong to it. -/
def rootNode (frames : List Frame) : Option Node :=
  let inOrder := frames.reverse
  let before := inOrder.takeWhile Frame.extra
  match inOrder.drop before.length with
  | [] => none
  | f :: after =>
    match m.grammar.displays.getD m.grammar.start none, f.shape with
    | some (kind, named), .group children =>
      some (.group kind named none
        (before.flatMap Frame.extraNodes ++ children ++ after.flatMap Frame.extraNodes))
    | _, _ => none

/-- Add a stack unless it has the states of one that weighs as much. -/
def addStack (frames : List Frame) : List (List Frame) → List (List Frame)
  | [] => [frames]
  | g :: gs =>
    if sameStates frames g then
      (if totalWeight frames > totalWeight g then frames else g) :: gs
    else g :: addStack frames gs

/-- The stacks after a token has been read, and the finished ones. -/
structure Advance where
  read : List (List Frame)
  done : List (List Frame)

/-- Carry out the actions on one terminal until each stack has read it. -/
def advance (terminal : Nat) (text : String) : Nat → List (List Frame) → Advance → Advance
  | 0, _, out => out
  | _, [], out => out
  | fuel + 1, frames :: waiting, out =>
    let (waiting, out) := (m.actions (topState frames) terminal).foldl
      (fun (waiting, out) action =>
        match action with
        | .shift state =>
          let frame : Frame := { state, shape := .token text, weight := 0, extra := false }
          (waiting, { out with read := out.read ++ [frame :: frames] })
        | .accept => (waiting, { out with done := out.done ++ [frames] })
        | .reduce production =>
          match m.reduceFrames production frames with
          | none => (waiting, out)
          | some reduced => (addStack reduced waiting, out))
      (waiting, out)
    advance terminal text fuel waiting out

end Automaton

namespace Reading

variable {σ : Type} [BEq σ]

/-- Whether two readings agree on everything that decides what follows. -/
def agrees (a b : Reading σ) : Bool :=
  a.left == b.left && a.lexer == b.lexer && sameStates a.frames b.frames

/-- Add a reading unless it agrees with one that weighs as much. -/
def addTo (a : Reading σ) : List (Reading σ) → List (Reading σ)
  | [] => [a]
  | b :: bs =>
    if a.agrees b then
      (if totalWeight a.frames > totalWeight b.frames then a else b) :: bs
    else b :: addTo a bs

/-- Read one token or extra: the readings that follow, and the finished stacks. -/
def step (m : Automaton) (lexer : Lexer σ) (fuel : Nat) (a : Reading σ) :
    List (Reading σ) × List (List Frame) :=
  let state := topState a.frames
  match lexer.next (m.allows state) a.lexer a.rest with
  | none => ([], [])
  | some found =>
    let move := fun frames =>
      { frames, lexer := found.state, rest := found.rest, left := a.left - found.taken : Reading σ }
    match found.role with
    | .extra kind =>
      let node : Node := .token kind true none found.text
      ([move ({ state, shape := .group [node], weight := 0, extra := true } :: a.frames)], [])
    | .terminal t =>
      let out := m.advance t found.text fuel [a.frames] ⟨[], []⟩
      (out.read.map move, out.done)

end Reading

namespace Automaton

variable {σ : Type} [BEq σ]

/-- The heavier of two finished stacks, the earlier one if they weigh the same. -/
def better (best : Option (List Frame)) (frames : List Frame) : Option (List Frame) :=
  match best with
  | none => some frames
  | some b => if totalWeight frames > totalWeight b then some frames else some b

/-- Move the readings that lag behind, until none is left. -/
def follow (m : Automaton) (lexer : Lexer σ) (budget : Nat) :
    Nat → List (Reading σ) → Option (List Frame) → Option (List Frame)
  | 0, _, _ => none
  | _, [], best => best
  | fuel + 1, a :: others, best =>
    let lag := (a :: others).foldl (fun most r => max most r.left) 0
    let (readings, best) := (a :: others).foldl
      (fun (readings, best) r =>
        if r.left < lag then (r.addTo readings, best)
        else
          let (moved, done) := r.step m lexer budget
          (moved.foldl (fun rs x => x.addTo rs) readings, done.foldl better best))
      (([] : List (Reading σ)), best)
    follow m lexer budget fuel readings best

/-- The tree of a text, if it has one. -/
def parse (m : Automaton) (lexer : Lexer σ) (text : List Char) : Option Node :=
  let size := text.length
  let budget := 64 * (size + 64)
  let start : Reading σ := { frames := [], lexer := lexer.initial, rest := text, left := size }
  (m.follow lexer budget budget [start] none).bind m.rootNode

end Automaton

end ApiInventory.Syntax
