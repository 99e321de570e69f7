import ApiInventory.Source.Grammar
import ApiInventory.Source.Token

/-!
# Source text to syntax tree

The automaton of the grammar is worked out once, when the first text is read.
-/

namespace ApiInventory.Source

open Syntax (Automaton Node)

structure Tables where
  automaton : Automaton
  vocabulary : Vocabulary

def tables : Thunk Tables :=
  Thunk.mk fun _ =>
    let automaton := Automaton.ofGrammar grammar
    { automaton, vocabulary := .ofGrammar automaton.grammar grammar.literals }

/-- A byte order mark at the start is no part of the text. -/
def withoutMark : List Char → List Char
  | [] => []
  | c :: cs => if c = '\ufeff' then cs else c :: cs

/-- The tree of a source text, if it reads without error. -/
def parse (source : String) : Option Node :=
  let t := tables.get
  t.automaton.parse t.vocabulary.lexer (withoutMark source.toList)

end ApiInventory.Source
