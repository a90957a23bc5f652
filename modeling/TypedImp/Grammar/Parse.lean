import TypedImp.Grammar.Automaton
import TypedImp.Grammar.Lexeme
import TypedImp.Grammar.Tree

/-! Parsing by the automaton. The stack holds a derivation tree for each symbol that is recognised; a
    reduction puts the trees of a rule's symbols together.

    The failures are those that Lark 1.3.1 reports. Where no terminal matches that the state accepts, all of
    them are tried: one that matches is an unexpected token, which names the terminals that were tried before,
    without the ignored ones (`mismatch`); otherwise the character is unexpected. A token or an end for which
    there is no action names the terminals for which there is one, in the state that the reductions before it
    have come to (`parseRest`). The end of the text stands where the last token begins, and at the beginning if
    there is none. -/

namespace TypedImp
namespace Grammar

/-- A recognised symbol and the state behind it. --/
structure Frame where
  state : Nat
  symbol : Symbol
  tree : Tree symbol

/-- The latest symbol comes first. --/
abbrev Stack := List Frame

namespace Stack

/-- The state that the stack leads to. --/
def place (st : Stack) : Nat := (st.head?.map Frame.state).getD Automaton.start

/-- Takes trees of the given symbols from the stack; the last symbol is on top. --/
def pop? : (ss : List Symbol) → Stack → Option (Forest ss × Stack)
  | [], st => some (.nil, st)
  | s :: ss, st =>
    match pop? ss st with
    | some (trees, frame :: below) =>
      if h : frame.symbol = s then some (.cons (h ▸ frame.tree) trees, below) else none
    | _ => none

/-- Replaces the trees of a rule's symbols by the tree of what it defines. --/
def reduce? (a : Automaton) (r : Rule) (st : Stack) : Option Stack :=
  match pop? r.rhs st with
  | none => none
  | some (trees, below) =>
    match (a.state below.place).goto? r.lhs with
    | none => none
    | some target => some (⟨target, .nonterminal r.lhs, .node r trees⟩ :: below)

/-- What a terminal leads to, after the reductions that it allows. --/
inductive Reaction where
  | shift (target : Nat) (st : Stack)
  | accept (st : Stack)
  | stuck (st : Stack)

/-- Reduces as long as the terminal `t` asks for it, at most as often as the second argument says. --/
def react (a : Automaton) (t : Terminal) : Nat → Stack → Reaction
  | 0, st => .stuck st
  | n + 1, st =>
    match (a.state st.place).action? t with
    | none => .stuck st
    | some (.shift target) => .shift target st
    | some (.reduce r) =>
      if r = .root then .accept st
      else
        match reduce? a r st with
        | none => .stuck st
        | some st => react a t n st

/-- Between two reductions that shorten the stack there are fewer than this many others. --/
def chainBound : Nat := 64

def reactTo (a : Automaton) (t : Terminal) (st : Stack) : Reaction :=
  react a t ((st.length + 1) * chainBound) st

end Stack

/-- Why a text has no derivation: nothing matches in front of a character, or a lexeme or the end comes
    where only other terminals are expected. --/
inductive Failure where
  | unmatched (c : Char) (place : Position)
  | unexpected (found : Found) (place : Position) (expected : List Terminal)
  deriving DecidableEq, Repr

namespace Failure

def error : Failure → ParseError
  | unmatched c place => .unexpectedCharacter c place
  | unexpected found place _ => .unexpected found place

/-- The labels of the expected terminals in alphabetical order. --/
def expectedLabels : Failure → List String
  | unmatched .. => []
  | unexpected _ _ expected => (expected.map Terminal.label).mergeSort fun a b => a ≤ b

end Failure

/-- The failure where no accepted terminal matches. If any other one does, that lexeme is unexpected. --/
def mismatch (accepted : List Terminal) (s : Scanner) : Failure :=
  match cut Terminal.lexical s with
  | .lexeme l _ =>
    .unexpected (.lexeme l.text) l.position ((tried accepted).filter fun t => !t.isIgnored)
  | _ => .unmatched (s.rest.headD '\x00') s.position

/-- Parses the rest of a text behind what is on the stack, at most as many lexemes as the first
    argument says. The place of the last lexeme is where an early end is reported. --/
def parseRest (a : Automaton) : Nat → Scanner → Stack → Position → Except Failure (Tree (.nonterminal .start))
  | 0, _, _, last => .error (.unexpected .endOfInput last [])
  | n + 1, s, st, last =>
    let accepted := (a.state st.place).accepted
    match cut accepted s with
    | .nothing s => .error (mismatch accepted s)
    | .lexeme l s =>
      match st.reactTo a l.terminal with
      | .shift target st => parseRest a n s (⟨target, .terminal l.terminal, .leaf l⟩ :: st) l.position
      | .accept st | .stuck st =>
        .error (.unexpected (.lexeme l.text) l.position (a.state st.place).accepted)
    | .endOfText =>
      match st.reactTo a .endOfText with
      | .accept (⟨_, .nonterminal .start, tree⟩ :: _) => .ok tree
      | .accept st | .shift _ st | .stuck st =>
        .error (.unexpected .endOfInput last (a.state st.place).accepted)

/-- The derivation of a text. --/
def parse (text : String) : Except Failure (Tree (.nonterminal .start)) :=
  let s := Scanner.ofText text
  parseRest automaton (s.rest.length + 1) s [] ⟨1, 1⟩

/-- The terminals that may come where a text stops to fit, by their labels. --/
def expectedLabels (text : String) : List String :=
  match parse text with
  | .ok _ => []
  | .error f => f.expectedLabels

/-- The program that a text holds. A text without a derivation is refused before anything in it is
    judged. --/
def programOf (text : String) : Except ParseError Program :=
  match parse text with
  | .error f => .error f.error
  | .ok tree => tree.value

end Grammar
end TypedImp
