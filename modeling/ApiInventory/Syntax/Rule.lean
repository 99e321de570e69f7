/-!
# Grammar rules and their productions

A rule is written in extended form: sequence, choice, repetition, and the
marks that settle ambiguity. `Rule.expand` reads it as a list of productions,
each a sequence of steps.

A mark with a rank holds for every step inside it, except that the last step of
a marked part which is not at the end of the production takes the rank that
surrounds the mark. The rank of a production's last step is thus the rank of the
production, and the rank of an earlier step says how tightly what has been read
so far binds to what follows.
-/

namespace ApiInventory.Syntax

inductive Side where
  | left
  | right
deriving DecidableEq, Repr, Hashable

/-- A rule in extended form. `many` is one or more. -/
inductive Rule where
  | empty
  | named (name : String)
  | literal (text : String)
  | seq (first second : Rule)
  | either (first second : Rule)
  | many (body : Rule)
  | ranked (level : Int) (side : Option Side) (body : Rule)
  | weighted (weight : Int) (body : Rule)
  | labelled (label : String) (body : Rule)
  | shownAs (kind : String) (isNamed : Bool) (body : Rule)
deriving DecidableEq, Repr, Hashable, Inhabited

/-- What a production's step expects. -/
inductive Symbol where
  | named (name : String)
  | literal (text : String)
  | repetition (body : Rule)
deriving DecidableEq, Repr, Hashable, Inhabited

/-- The marks in force at a step. -/
structure Marks where
  rank : Option Int := none
  side : Option Side := none
  label : Option String := none
  shown : Option (String × Bool) := none
deriving DecidableEq, Repr, Inhabited

structure Step where
  symbol : Symbol
  marks : Marks
deriving DecidableEq, Repr, Inhabited

/-- One way to expand a rule. The weight chooses between two readings of the
same text. -/
structure Body where
  steps : List Step
  weight : Int
deriving DecidableEq, Repr, Inhabited

/-- The weight further from zero prevails. -/
def strongerWeight (a b : Int) : Int :=
  if b.natAbs > a.natAbs then b else a

namespace Body

def append (a b : Body) : Body :=
  { steps := a.steps ++ b.steps, weight := strongerWeight a.weight b.weight }

/-- Change the marks of the last step, if there is one. -/
def modifyLast (f : Marks → Marks) (b : Body) : Body :=
  match b.steps.reverse with
  | [] => b
  | last :: before => { b with steps := (({ last with marks := f last.marks }) :: before).reverse }

@[simp] theorem append_steps (a b : Body) : (a.append b).steps = a.steps ++ b.steps := rfl

@[simp] theorem modifyLast_weight (f : Marks → Marks) (b : Body) :
    (b.modifyLast f).weight = b.weight := by
  unfold modifyLast
  split <;> rfl

end Body

namespace Rule

/-- The productions of a rule under surrounding marks; `final` says whether the
rule stands at the end of its production. -/
def expand : Rule → Marks → Bool → List Body
  | .empty, _, _ => [⟨[], 0⟩]
  | .named n, m, _ => [⟨[⟨.named n, m⟩], 0⟩]
  | .literal t, m, _ => [⟨[⟨.literal t, m⟩], 0⟩]
  | .many r, m, _ => [⟨[⟨.repetition r, m⟩], 0⟩]
  | .seq a b, m, final =>
    (a.expand m false).flatMap fun x => (b.expand m final).map x.append
  | .either a b, m, final => a.expand m final ++ b.expand m final
  | .ranked level side r, m, final =>
    let inner := { m with rank := some level, side := side <|> m.side }
    let close := fun last : Marks =>
      { last with rank := m.rank, side := if side.isSome then m.side else last.side }
    let bodies := r.expand inner final
    if final then bodies else bodies.map (Body.modifyLast close)
  | .weighted w r, m, final =>
    (r.expand m final).map fun b => { b with weight := strongerWeight b.weight w }
  | .labelled l r, m, final => r.expand { m with label := some l } final
  | .shownAs k n r, m, final => r.expand { m with shown := some (k, n) } final

/-- The productions of a rule that stands alone. -/
def bodies (r : Rule) : List Body :=
  (r.expand {} true).eraseDups

/-- A repetition is read from the left: what has been repeated so far, then once
more. -/
def repetitionBodies (r : Rule) : List Body :=
  let once := r.expand {} true
  let again : Step := { symbol := .repetition r, marks := {} }
  ((once.map fun b : Body => { b with steps := again :: b.steps }) ++ once).eraseDups

/-- The bodies that are repeated somewhere inside a rule. -/
def repeated : Rule → List Rule
  | .empty | .named _ | .literal _ => []
  | .seq a b | .either a b => a.repeated ++ b.repeated
  | .many r => r.repeated ++ [r]
  | .ranked _ _ r | .weighted _ r | .labelled _ r | .shownAs _ _ r => r.repeated

/-- The literal tokens inside a rule, in order of appearance. -/
def literals : Rule → List String
  | .empty | .named _ => []
  | .literal t => [t]
  | .seq a b | .either a b => a.literals ++ b.literals
  | .many r => r.literals
  | .ranked _ _ r | .weighted _ r | .labelled _ r | .shownAs _ _ r => r.literals

/-- All of the rules, one after the other. -/
def all : List Rule → Rule
  | [] => .empty
  | [r] => r
  | r :: rs => .seq r (all rs)

/-- Any one of the rules. -/
def any : List Rule → Rule
  | [] => .empty
  | [r] => r
  | r :: rs => .either r (any rs)

def optional (r : Rule) : Rule := .either r .empty

def zeroOrMore (r : Rule) : Rule := .either (.many r) .empty

/-- One or more, with a separator between. -/
def separated (separator r : Rule) : Rule := .seq r (zeroOrMore (.seq separator r))

def left (level : Int) (r : Rule) : Rule := .ranked level (some .left) r

def right (level : Int) (r : Rule) : Rule := .ranked level (some .right) r

def rank (level : Int) (r : Rule) : Rule := .ranked level none r

end Rule

end ApiInventory.Syntax
