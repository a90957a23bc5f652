import Mathlib.Logic.Relation
import TypedImp.Proofs.Grammar.Items

/-! The stack of the automaton. A reduction takes the trees of a rule's symbols from the stack and puts their tree
    there, so that the stack always holds the lexemes that are read. Reductions that follow each other come to
    an end: they shorten the stack, or they replace its latest symbol by one of a higher rank. -/

namespace TypedImp
namespace Grammar
namespace Stack

variable {a : Automaton} {st st' below : Stack} {t : Terminal}

@[simp] theorem place_nil : place [] = Automaton.start := rfl

@[simp] theorem place_cons (f : Frame) (st : Stack) : place (f :: st) = f.state := rfl

/-! ### Pushed forests -/

/-- The trees have been pushed on `below` one after the other, and `st` has come out. -/
inductive Pushed : {ss : List Symbol} → Forest ss → Stack → Stack → Prop
  | nil {st : Stack} : Pushed .nil st st
  | cons {s : Symbol} {ss : List Symbol} {tree : Tree s} {trees : Forest ss} {j : Nat} {below st : Stack} :
      Pushed trees (⟨j, s, tree⟩ :: below) st → Pushed (.cons tree trees) below st

theorem pop?_eq_some_iff {ss : List Symbol} {trees : Forest ss} :
    pop? ss st = some (trees, below) ↔ Pushed trees below st := by
  constructor
  · intro h
    induction ss generalizing below with
    | nil =>
      cases h
      exact .nil
    | cons s ss ih =>
      unfold pop? at h
      split at h
      · next rest frame below' hpop =>
        split at h
        · next hs =>
          subst hs
          cases h
          exact .cons (ih hpop)
        · cases h
      · cases h
  · intro h
    induction h with
    | nil => rfl
    | cons _ ih =>
      unfold pop?
      rw [ih]
      dsimp only
      rw [dif_pos rfl]

theorem Pushed.length {ss : List Symbol} {trees : Forest ss} (h : Pushed trees below st) :
    st.length = below.length + ss.length := by
  induction h with
  | nil => rfl
  | cons _ ih => simp only [ih, List.length_cons]; omega

theorem Pushed.eq_of_single {s : Symbol} {trees : Forest [s]} (h : Pushed trees below st) :
    ∃ j tree, st = ⟨j, s, tree⟩ :: below := by
  cases h with
  | cons h =>
    cases h
    exact ⟨_, _, rfl⟩

/-! ### Lexemes -/

/-- The lexemes of all trees on the stack, in the order in which they were read. -/
def yield : Stack → List Lexeme
  | [] => []
  | f :: st => yield st ++ f.tree.yield

theorem Pushed.yield_eq {ss : List Symbol} {trees : Forest ss} (h : Pushed trees below st) :
    st.yield = below.yield ++ trees.yield := by
  induction h with
  | nil => rw [Forest.yield, List.append_nil]
  | cons _ ih => rw [ih, Stack.yield, Forest.yield, List.append_assoc]

/-! ### Reductions -/

theorem reduce?_eq_some {r : Rule} (h : reduce? a r st = some st') :
    ∃ (trees : Forest r.rhs) (below : Stack) (j : Nat), Pushed trees below st ∧
      State.target? (a.state below.place).targets (.nonterminal r.lhs) = some j ∧
      st' = ⟨j, .nonterminal r.lhs, .node r trees⟩ :: below := by
  unfold reduce? at h
  split at h
  · cases h
  · next trees below hpop =>
    split at h
    · cases h
    · next j hgoto =>
      cases h
      exact ⟨trees, below, j, pop?_eq_some_iff.mp hpop, hgoto, rfl⟩

theorem reduce?_of_pushed {r : Rule} {trees : Forest r.rhs} {j : Nat} (h : Pushed trees below st)
    (hj : State.target? (a.state below.place).targets (.nonterminal r.lhs) = some j) :
    reduce? a r st = some (⟨j, .nonterminal r.lhs, .node r trees⟩ :: below) := by
  unfold reduce?
  rw [pop?_eq_some_iff.mpr h]
  dsimp only
  rw [State.goto?, hj]

/-- A reduction that the terminal asks for. The rule for the empty text is used on the empty stack only. -/
def Reduces (a : Automaton) (t : Terminal) (st st' : Stack) : Prop :=
  ∃ r : Rule, r ≠ .root ∧ (r.rhs = [] → st = []) ∧ (a.state st.place).action? t = some (.reduce r) ∧
    reduce? a r st = some st'

/-! ### The potential -/

/-- The rank of a symbol: a rule with one symbol defines a nonterminal of a higher rank. -/
def rank : Symbol → Nat
  | .terminal _ => 0
  | .nonterminal n =>
    match n with
    | .primary => 1
    | .unary => 2
    | .level .multiplicative => 3
    | .level .additive => 4
    | .level .relational => 5
    | .level .equality => 6
    | .level .and => 7
    | .level .or => 8
    | .expr => 9
    | .form _ => 10
    | .statement => 11
    | .statements => 12
    | .start => 13
    | _ => 14

theorem rank_le (s : Symbol) : rank s ≤ 14 := by
  unfold rank
  split
  · omega
  · split <;> omega

theorem rank_lhs_pos (r : Rule) : 0 < rank (.nonterminal r.lhs) := by
  have key : ∀ r ∈ Rule.all, 0 < rank (.nonterminal r.lhs) := by decide
  exact key r (Rule.mem_all r)

theorem rank_lt_of_single {r : Rule} {s : Symbol} (hroot : r ≠ .root) (hs : r.rhs = [s]) :
    rank s < rank (.nonterminal r.lhs) := by
  have key : ∀ r ∈ Rule.all, r ≠ .root → r.rhs.length = 1 → ∀ s ∈ r.rhs, rank s < rank (.nonterminal r.lhs) := by
    decide
  exact key r (Rule.mem_all r) hroot (by rw [hs]; rfl) s (by rw [hs]; exact List.mem_singleton_self s)

/-- What reductions use up. -/
def potential : Stack → Nat
  | [] => 2 * chainBound - 1
  | f :: st => chainBound * (st.length + 1) + (chainBound - 1 - rank f.symbol)

theorem potential_bounds (st : Stack) :
    chainBound ≤ st.potential ∧ st.potential < chainBound * (st.length + 1) + chainBound := by
  unfold chainBound
  cases st with
  | nil => exact ⟨by decide, by decide⟩
  | cons f st =>
    simp only [potential, chainBound, List.length_cons]
    omega

theorem Reduces.potential_lt (h : Reduces a t st st') : st'.potential < st.potential := by
  obtain ⟨r, hroot, hempty, -, hreduce⟩ := h
  obtain ⟨trees, below, j, hpushed, -, rfl⟩ := reduce?_eq_some hreduce
  have hlength := hpushed.length
  have hrank := rank_le (.nonterminal r.lhs)
  have hpos := rank_lhs_pos r
  cases hrhs : r.rhs with
  | nil =>
    obtain rfl := hempty hrhs
    rw [hrhs] at hlength
    have hbelow : below = [] := List.length_eq_zero_iff.mp (by simpa using hlength.symm)
    subst hbelow
    simp only [potential, chainBound, List.length_nil]
    omega
  | cons s ss =>
    cases ss with
    | nil =>
      have hlt := rank_lt_of_single hroot hrhs
      have hsingle : ∃ j tree, st = ⟨j, s, tree⟩ :: below := by
        clear hlength hreduce
        revert trees
        rw [hrhs]
        exact fun trees h => h.eq_of_single
      obtain ⟨i, tree, rfl⟩ := hsingle
      simp only [potential, chainBound]
      omega
    | cons s' ss =>
      rw [hrhs] at hlength
      cases st with
      | nil =>
        simp only [List.length_nil, List.length_cons] at hlength
        omega
      | cons f st =>
        simp only [List.length_cons] at hlength
        simp only [potential, chainBound]
        omega

/-! ### Reactions -/

theorem react_of_reduce? {r : Rule} (haction : (a.state st.place).action? t = some (.reduce r)) (hroot : r ≠ .root)
    (hreduce : reduce? a r st = some st') (n : Nat) : react a t (n + 1) st = react a t n st' := by
  simp only [react, haction, if_neg hroot, hreduce]

/-- Reductions that are asked for are carried out before anything else happens. -/
theorem react_reduces (h : Relation.ReflTransGen (Reduces a t) st st') {n : Nat}
    (hn : st.potential < n + st'.potential) : ∃ m, react a t n st = react a t (m + 1) st' := by
  induction h using Relation.ReflTransGen.head_induction_on generalizing n with
  | refl =>
    obtain ⟨m, rfl⟩ := Nat.exists_eq_succ_of_ne_zero (show n ≠ 0 by omega)
    exact ⟨m, rfl⟩
  | @head st st₁ hstep hrest ih =>
    have hlt := hstep.potential_lt
    have hle : st'.potential ≤ st₁.potential := by
      clear ih hn
      induction hrest with
      | refl => exact Nat.le_refl _
      | tail _ hlast ih => exact Nat.le_trans (Nat.le_of_lt hlast.potential_lt) ih
    obtain ⟨n, rfl⟩ := Nat.exists_eq_succ_of_ne_zero (show n ≠ 0 by omega)
    obtain ⟨m, hm⟩ := ih (n := n) (by omega)
    obtain ⟨r, hroot, -, haction, hreduce⟩ := hstep
    exact ⟨m, (react_of_reduce? haction hroot hreduce n).trans hm⟩

theorem reactTo_reduces (h : Relation.ReflTransGen (Reduces a t) st st') :
    ∃ m, reactTo a t st = react a t (m + 1) st' := by
  refine react_reduces h ?_
  have hst := (potential_bounds st).2
  have hst' := (potential_bounds st').1
  rw [Nat.mul_comm]
  omega

end Stack
end Grammar
end TypedImp
