import TypedImp.Grammar.Rule

/-! The automaton that recognises the grammar from the left to the right with one terminal of lookahead.
    A state is a set of items with the terminals that may follow each of their rules. States that agree
    but for those terminals are one state, and their terminals are put together.

    These are the LALR(1) tables of Lark 1.3.1. Lark finds the lookaheads from the transitions of the
    nonterminals, here they are passed on from state to state until nothing changes. As in Lark a terminal
    that can be shifted is shifted, whatever could be reduced before it (`State.actionFor?`), and two rules
    are never reduced before the same terminal, which Lark would refuse. What the merged lookaheads allow too
    much delays an error by some reductions, but shifts nothing. -/

namespace TypedImp
namespace Grammar

/-! ### First terminals -/

/-- How the texts of a list of symbols can begin, and whether one of them is empty. --/
structure First where
  terminals : TerminalSet
  hasEmpty : Bool
  deriving DecidableEq, Inhabited, Repr

namespace First

def none : First := ⟨.empty, false⟩

def union (a b : First) : First := ⟨a.terminals.union b.terminals, a.hasEmpty || b.hasEmpty⟩

/-- What may come first if `follow` comes behind. --/
def before (f : First) (follow : TerminalSet) : TerminalSet :=
  if f.hasEmpty then f.terminals.union follow else f.terminals

/-- An entry for each nonterminal, by its number. --/
abbrev Table := List (Nat × First)

def ofSymbols (table : Table) : List Symbol → First
  | [] => ⟨.empty, true⟩
  | .terminal t :: _ => ⟨.single t, false⟩
  | .nonterminal n :: ss =>
    let f := (table.lookup n.number).getD none
    if f.hasEmpty then
      let g := ofSymbols table ss
      ⟨f.terminals.union g.terminals, g.hasEmpty⟩
    else f

/-- One more step of every derivation. --/
def improved (table : Table) : Table :=
  Nonterminal.all.map fun n =>
    (n.number, n.rules.foldl (fun f r => f.union (ofSymbols table r.rhs)) none)

/-- Improves a table until nothing changes, or as often as the first argument says. --/
def settled : Nat → Table → Table
  | 0, table => table
  | n + 1, table =>
    let next := improved table
    if next = table then table else settled n next

def table : Table := settled Nonterminal.all.length []

end First

/-! ### Items -/

/-- A rule of which the first `dot` symbols are recognised. --/
structure Item where
  rule : Rule
  dot : Nat
  deriving DecidableEq, Inhabited, Repr

namespace Item

/-- The symbol that should come next. --/
def next? (i : Item) : Option Symbol := i.rule.rhs[i.dot]?

def rest (i : Item) : List Symbol := i.rule.rhs.drop (i.dot + 1)

def advanced (i : Item) : Item := ⟨i.rule, i.dot + 1⟩

/-- No rule has more than fifteen symbols. --/
def number (i : Item) : Nat := 16 * i.rule.number + i.dot

end Item

/-- Items, each with the terminals that may follow its rule. --/
abbrev ItemSet := List (Item × TerminalSet)

namespace ItemSet

/-- The items alone, as a bit mask of their numbers. --/
def core (s : ItemSet) : Nat := s.foldl (fun m i => m ||| 1 <<< i.1.number) 0

def follow (s : ItemSet) (i : Item) : TerminalSet :=
  ((s.find? fun j => j.1.number.beq i.number).map (·.2)).getD .empty

/-- The items of `s` with the terminals that they have there or in `t`. --/
def merge (s t : ItemSet) : ItemSet := s.map fun i => (i.1, i.2.union (t.follow i.1))

/-- Does every item of `t` have no more terminals than in `s`? --/
def covers (s t : ItemSet) : Bool := t.all fun i => (s.follow i.1).includes i.2

end ItemSet

/-! ### Closure -/

/-- The nonterminals that the rules of a nonterminal begin with, and what can come behind them. --/
def Nonterminal.leads (n : Nonterminal) : List (Nonterminal × First) :=
  n.rules.filterMap fun r =>
    match r.rhs with
    | .nonterminal m :: rest => some (m, First.ofSymbols First.table rest)
    | _ => none

/-- Nonterminals that should come next, each with the terminals that may follow it. --/
abbrev Pending := List (Nonterminal × TerminalSet)

namespace Pending

def follow (p : Pending) (n : Nonterminal) : TerminalSet :=
  ((p.find? fun m => m.1.number.beq n.number).map (·.2)).getD .empty

def set : Pending → Nonterminal → TerminalSet → Pending
  | [], n, s => [(n, s)]
  | (m, t) :: p, n, s => bif m.number.beq n.number then (m, s) :: p else (m, t) :: set p n s

/-- Adds a nonterminal that `s` may follow, and those that it can begin with. The first argument bounds
    the length of a chain of nonterminals. --/
def add : Nat → Pending → Nonterminal → TerminalSet → Pending
  | 0, p, _, _ => p
  | depth + 1, p, n, s =>
    let old := p.follow n
    bif old.includes s then p
    else
      let new := old.union s
      n.leads.foldl (fun p m => add depth p m.1 (m.2.before new)) (p.set n new)

/-- No chain is longer than this without repeating itself twice. --/
def maxDepth : Nat := 2 * Nonterminal.all.length

/-- The nonterminals that should come next in a set of items. --/
def ofItems (s : ItemSet) : Pending :=
  s.foldl (fun p i =>
    match i.1.next? with
    | some (.nonterminal n) => add maxDepth p n ((First.ofSymbols First.table i.1.rest).before i.2)
    | _ => p) []

/-- The items with which the nonterminals begin. --/
def items (p : Pending) : ItemSet := p.flatMap fun n => n.1.rules.map fun r => (⟨r, 0⟩, n.2)

end Pending

/-- Sets of items, one for each of some symbols. --/
abbrev Successors := List (Symbol × ItemSet)

namespace Successors

/-- Adds an item to the set of a symbol. --/
def add : Successors → Symbol → Item × TerminalSet → Successors
  | [], x, i => [(x, [i])]
  | (y, s) :: ss, x, i =>
    bif y.number.beq x.number then (y, s ++ [i]) :: ss else (y, s) :: add ss x i

end Successors

namespace ItemSet

/-- The items together with those of the nonterminals that should come next. --/
def closure (s : ItemSet) : ItemSet := s ++ (Pending.ofItems s).items

/-- The sets that the symbols which may come next lead to. --/
def successors (s : ItemSet) : Successors :=
  s.closure.foldl (fun ss i =>
    match i.1.next? with
    | some x => ss.add x (i.1.advanced, i.2)
    | none => ss) []

end ItemSet

/-! ### Exploration -/

/-- Values in the order of the numbers that they are found by. --/
inductive SearchTree (α : Type) where
  | empty
  | node (lesser : SearchTree α) (key : Nat) (value : α) (greater : SearchTree α)

namespace SearchTree
variable {α β : Type}

def find? : SearchTree α → Nat → Option α
  | empty, _ => none
  | node lesser k v greater, key =>
    bif key.blt k then lesser.find? key else bif k.blt key then greater.find? key else some v

/-- Adds a value, in the place of one with the same number. --/
def insert : SearchTree α → Nat → α → SearchTree α
  | empty, key, value => node empty key value empty
  | node lesser k v greater, key, value =>
    bif key.blt k then node (lesser.insert key value) k v greater
    else bif k.blt key then node lesser k v (greater.insert key value) else node lesser k value greater

def map (f : α → β) : SearchTree α → SearchTree β
  | empty => empty
  | node lesser k v greater => node (lesser.map f) k (f v) (greater.map f)

end SearchTree

/-- The sets of items found so far by their cores, without those that their closures add, and the cores of
    those whose successors are not up to date. --/
structure Exploration where
  found : SearchTree ItemSet
  pending : List Nat

namespace Exploration

/-- Puts a set of items to the one that agrees with it, or makes it a new one. --/
def visit (e : Exploration) (s : ItemSet) : Exploration :=
  let core := s.core
  match e.found.find? core with
  | none => ⟨e.found.insert core s, core :: e.pending⟩
  | some old =>
    bif old.covers s then e
    else ⟨e.found.insert core (old.merge s), bif e.pending.any core.beq then e.pending else core :: e.pending⟩

/-- Explores until nothing changes, or for the given number of steps. --/
def run : Nat → Exploration → Exploration
  | 0, e => e
  | steps + 1, e =>
    match e.pending with
    | [] => e
    | core :: pending =>
      let successors := ((e.found.find? core).getD []).successors
      run steps (successors.foldl (fun e s => e.visit s.2) ⟨e.found, pending⟩)

/-- The set in which nothing is recognised. --/
def startSet : ItemSet := [(⟨.root, 0⟩, .single .endOfText)]

/-- A bound on the number of steps. --/
def maxSteps : Nat := 10000

/-- All sets of items. --/
def all : SearchTree ItemSet := (run maxSteps (visit ⟨.empty, []⟩ startSet)).found

end Exploration

/-! ### States -/

/-- What a state does when a terminal comes next. --/
inductive Action where
  | shift (target : Nat)
  | reduce (r : Rule)
  deriving DecidableEq, Inhabited, Repr

structure State where
  items : ItemSet
  targets : List (Symbol × Nat)
  actions : List (Terminal × Action)
  deriving Inhabited

namespace State

/-- The state that a symbol leads to. --/
def target? (targets : List (Symbol × Nat)) (x : Symbol) : Option Nat :=
  (targets.find? fun y => y.1.number.beq x.number).map (·.2)

/-- The states that terminals are shifted to. --/
def shifts (targets : List (Symbol × Nat)) : List (Terminal × Nat) :=
  targets.filterMap fun x =>
    match x.1 with
    | .terminal t => some (t, x.2)
    | .nonterminal _ => none

/-- The rules of which nothing is left. --/
def reductions (items : ItemSet) : List (Rule × TerminalSet) :=
  items.filterMap fun i => bif i.1.next?.isNone then some (i.1.rule, i.2) else none

/-- Where a terminal can be shifted it is; otherwise the rule that it may follow is reduced. --/
def actionFor? (shifts : List (Terminal × Nat)) (reductions : List (Rule × TerminalSet)) (t : Terminal) :
    Option Action :=
  match shifts.lookup t with
  | some target => some (.shift target)
  | none => (reductions.find? fun r => r.2.has t).map fun r => .reduce r.1

def ofItems (s : ItemSet) : State :=
  let items := s.closure
  let targets := s.successors.map fun t => (t.1, t.2.core)
  let action? := actionFor? (shifts targets) (reductions items)
  ⟨items, targets, Terminal.all.filterMap fun t => (action? t).map fun a => (t, a)⟩

def action? (s : State) (t : Terminal) : Option Action := s.actions.lookup t

def goto? (s : State) (n : Nonterminal) : Option Nat := target? s.targets (.nonterminal n)

/-- The terminals for which there is something to do. --/
def accepted (s : State) : List Terminal := s.actions.map (·.1)

end State

/-- States by the cores of their items. --/
abbrev Automaton := SearchTree State

namespace Automaton

/-- Where nothing is recognised yet. --/
def start : Nat := Exploration.startSet.core

def state (a : Automaton) (k : Nat) : State := (a.find? k).getD default

end Automaton

/-- The automaton of the grammar. --/
def automaton : Automaton := Exploration.all.map State.ofItems

end Grammar
end TypedImp
