import TypedImp.Proofs.Grammar.Stack

/-! The parser finds every derivation. A tree that the items of a state expect is recognised from any stack that
    leads there, whatever comes behind it: its subtrees are recognised one after the other, and where its rule is
    complete the next terminal asks for the reduction. What is read is given as the lexemes that are left; that a
    text is cut into them is a condition of its own. -/

namespace TypedImp
namespace Grammar
namespace Stack

variable {a : Automaton} {st st' : Stack} {ls : List Lexeme}

/-! ### Steps over given lexemes -/

/-- A step of the parser in front of the lexemes that are left. -/
inductive Step (a : Automaton) : Stack × List Lexeme → Stack × List Lexeme → Prop
  | reduce {st st' : Stack} {ls : List Lexeme} : Reduces a (lookahead ls) st st' → Step a (st, ls) (st', ls)
  | shift {st : Stack} {l : Lexeme} {ls : List Lexeme} {j : Nat} :
      (a.state st.place).action? l.terminal = some (.shift j) →
        Step a (st, l :: ls) (⟨j, .terminal l.terminal, .leaf l⟩ :: st, ls)

abbrev Steps (a : Automaton) : Stack × List Lexeme → Stack × List Lexeme → Prop := Relation.ReflTransGen (Step a)

/-- The next symbol can be recognised behind the stack, in front of the terminal `t`, and leads to state `j`. Only
    an empty stack can come before a whole text. -/
structure Ready (a : Automaton) (st : Stack) (s : Symbol) (t : Terminal) (j : Nat) : Prop where
  target : State.target? (a.state st.place).targets s = some j
  shift : ∀ u, s = .terminal u → (a.state st.place).action? u = some (.shift j)
  holds : ∀ r : Rule, s = .nonterminal r.lhs → a.Holds st.place r 0 t
  inner : s ≠ .nonterminal .root ∧ (s = .nonterminal .start → st = [])

theorem symbol_inner {r : Rule} {s : Symbol} (hroot : r ≠ .root) (hs : s ∈ r.rhs) :
    s ≠ .nonterminal .root ∧ s ≠ .nonterminal .start := by
  have key : ∀ r ∈ Rule.all, r ≠ .root → ∀ s ∈ r.rhs, s ≠ .nonterminal .root ∧ s ≠ .nonterminal .start := by decide
  exact key r (Rule.mem_all r) hroot s hs

theorem lhs_of_empty {r : Rule} (h : r.rhs = []) : r.lhs = .start := by
  have key : ∀ r ∈ Rule.all, r.rhs = [] → r.lhs = .start := by decide
  exact key r (Rule.mem_all r) h

/-- The next symbol of an item can be recognised, and then the item is advanced. -/
theorem ready_of_holds {r : Rule} {dot : Nat} {s : Symbol} {us vs : List Lexeme} (ha : a.isSafe = true)
    (hroot : r ≠ .root) (h : a.Holds st.place r dot (lookahead vs)) (hs : r.rhs[dot]? = some s)
    (hus : (First.ofSymbols First.table (r.rhs.drop (dot + 1))).Describes us) :
    ∃ j, Ready a st s (lookahead (us ++ vs)) j ∧ a.Holds j r (dot + 1) (lookahead vs) := by
  obtain ⟨j, hj, hnext⟩ := h.advance ha hs
  have hinner := symbol_inner hroot (List.mem_of_getElem? hs)
  refine ⟨j, ⟨hj, ?_, ?_, hinner.1, fun hstart => absurd hstart hinner.2⟩, hnext⟩
  · rintro u rfl
    exact h.shift ha hs hj
  · rintro r' rfl
    exact h.closed ha hs hus

end Stack

open Stack

mutual
/-- A tree is recognised where its symbol can be. -/
theorem Tree.steps {a : Automaton} (ha : a.isSafe = true) {s : Symbol} :
    (tree : Tree s) → {st : Stack} → {rest : List Lexeme} → {j : Nat} → Ready a st s (lookahead rest) j →
      Steps a (st, tree.yield ++ rest) (⟨j, s, tree⟩ :: st, rest)
  | .leaf l, st, rest, j, h => .single (.shift (h.shift _ rfl))
  | .node r children, st, rest, j, h => by
    have hroot : r ≠ .root := by
      rintro rfl
      exact h.inner.1 rfl
    obtain ⟨st', hsteps, hpushed, hend⟩ := children.steps ha hroot List.drop_zero (h.holds r rfl)
    refine hsteps.tail (.reduce ⟨r, hroot, fun hempty => ?_, ?_, reduce?_of_pushed hpushed h.target⟩)
    · have hst : st = [] := h.inner.2 (congrArg Symbol.nonterminal (lhs_of_empty hempty))
      have hlength := hpushed.length
      rw [hst, hempty] at hlength
      exact List.length_eq_zero_iff.mp hlength
    · exact hend

/-- Trees of what is left of an item are recognised one after the other, and then the rule is asked for. -/
theorem Forest.steps {a : Automaton} (ha : a.isSafe = true) {ss : List Symbol} :
    (trees : Forest ss) → {st : Stack} → {rest : List Lexeme} → {r : Rule} → {dot : Nat} → r ≠ .root →
    r.rhs.drop dot = ss → a.Holds st.place r dot (lookahead rest) →
    ∃ st', Steps a (st, trees.yield ++ rest) (st', rest) ∧ Pushed trees st st' ∧
      (a.state st'.place).action? (lookahead rest) = some (.reduce r)
  | .nil, st, rest, r, dot, _, hss, h =>
    ⟨st, .refl, .nil, h.reduce ha (List.getElem?_eq_none (List.drop_eq_nil_iff.mp hss))⟩
  | @Forest.cons s ss tree trees, st, rest, r, dot, hroot, hss, h => by
    have hnext : r.rhs[dot]? = some s := by rw [← List.head?_drop, hss, List.head?_cons]
    have htail : r.rhs.drop (dot + 1) = ss := by rw [← List.tail_drop, hss, List.tail_cons]
    obtain ⟨j, hready, hholds⟩ := ready_of_holds ha hroot h hnext (by rw [htail]; exact trees.first)
    have hplace : a.Holds (place (⟨j, s, tree⟩ :: st)) r (dot + 1) (lookahead rest) := hholds
    obtain ⟨st', hsteps, hpushed, hend⟩ := trees.steps ha hroot htail hplace
    refine ⟨st', ?_, .cons hpushed, hend⟩
    rw [Forest.yield, List.append_assoc]
    exact (tree.steps ha hready).trans hsteps
end

/-- The derivation of a whole text is recognised from the empty stack. -/
theorem Tree.steps_start {a : Automaton} (ha : a.isSafe = true) (tree : Tree (.nonterminal .start)) :
    ∃ j, Steps a ([], tree.yield) ([⟨j, .nonterminal .start, tree⟩], []) ∧
      (a.state j).action? .endOfText = some (.reduce .root) := by
  obtain ⟨j, hj, hholds⟩ := (Automaton.holds_root ha).advance ha (x := .nonterminal .start) rfl
  have hready : Ready a [] (.nonterminal .start) (lookahead []) j := by
    refine ⟨hj, ?_, fun r hr => ?_, by decide, fun _ => rfl⟩
    · rintro u ⟨⟩
    · have hnext : Rule.root.rhs[0]? = some (.nonterminal r.lhs) := congrArg some hr
      have hempty : (First.ofSymbols First.table (Rule.root.rhs.drop 1)).Describes [] := rfl
      have hroot : a.Holds Automaton.start .root 0 (lookahead []) := Automaton.holds_root ha
      exact hroot.closed ha hnext hempty
  refine ⟨j, ?_, hholds.reduce ha rfl⟩
  simpa using tree.steps ha hready

namespace Stack

/-! ### From steps to reactions -/

/-- Behind the last lexeme there are only reductions. -/
theorem reduces_of_steps_nil (h : Steps a (st, []) (st', [])) :
    Relation.ReflTransGen (Reduces a .endOfText) st st' := by
  generalize hc : (st, ([] : List Lexeme)) = c at h
  induction h using Relation.ReflTransGen.head_induction_on generalizing st with
  | refl =>
    cases hc
    exact .refl
  | head hstep _ ih =>
    cases hc
    cases hstep with
    | reduce hreduce => exact .head hreduce (ih rfl)

/-- A lexeme is shifted after some reductions. -/
theorem shift_of_steps {l : Lexeme} (h : Steps a (st, l :: ls) (st', [])) :
    ∃ st₁ j, Relation.ReflTransGen (Reduces a l.terminal) st st₁ ∧
      (a.state st₁.place).action? l.terminal = some (.shift j) ∧
      Steps a (⟨j, .terminal l.terminal, .leaf l⟩ :: st₁, ls) (st', []) := by
  generalize hc : (st, l :: ls) = c at h
  induction h using Relation.ReflTransGen.head_induction_on generalizing st with
  | refl => cases hc
  | head hstep hrest ih =>
    cases hc
    cases hstep with
    | reduce hreduce =>
      obtain ⟨st₁, j, hreduces, hshift, hsteps⟩ := ih rfl
      exact ⟨st₁, j, .head hreduce hreduces, hshift, hsteps⟩
    | shift hshift => exact ⟨st, _, .refl, hshift, hrest⟩

/-- What is shifted after some reductions was accepted before them. -/
theorem accepted_of_reduces {t : Terminal} {j : Nat} (h : Relation.ReflTransGen (Reduces a t) st st')
    (hshift : (a.state st'.place).action? t = some (.shift j)) : t ∈ (a.state st.place).accepted := by
  cases h using Relation.ReflTransGen.head_induction_on with
  | refl => exact State.mem_accepted_of_action hshift
  | head hstep _ =>
    obtain ⟨_, _, _, haction, _⟩ := hstep
    exact State.mem_accepted_of_action haction

theorem react_shift {t : Terminal} {j : Nat} (h : (a.state st.place).action? t = some (.shift j)) (n : Nat) :
    react a t (n + 1) st = .shift j st := by
  simp only [react, h]

theorem react_root {t : Terminal} (h : (a.state st.place).action? t = some (.reduce .root)) (n : Nat) :
    react a t (n + 1) st = .accept st := by
  simp only [react, h, if_true]

end Stack

/-! ### Texts -/

/-- The text consists of the lexemes: where the parser accepts the first of them it is cut off, and behind the last
    one comes the end. -/
inductive Lexes (a : Automaton) : Scanner → List Lexeme → Prop
  | nil {s : Scanner} : (∀ k, cut (a.state k).accepted s = .endOfText) → Lexes a s []
  | cons {s s' : Scanner} {l : Lexeme} {ls : List Lexeme} :
      (∀ k, l.terminal ∈ (a.state k).accepted → cut (a.state k).accepted s = .lexeme l s') →
      s'.rest.length < s.rest.length → Lexes a s' ls → Lexes a s (l :: ls)

theorem Lexes.length_le {a : Automaton} {s : Scanner} {ls : List Lexeme} (h : Lexes a s ls) :
    ls.length ≤ s.rest.length := by
  induction h with
  | nil => exact Nat.zero_le _
  | cons _ hlt _ ih => exact Nat.succ_le_of_lt (Nat.lt_of_le_of_lt ih hlt)

theorem parseRest_of_steps {a : Automaton} {s : Scanner} {ls : List Lexeme} {tree : Tree (.nonterminal .start)} {j : Nat}
    (hj : (a.state j).action? .endOfText = some (.reduce .root)) (hlexes : Lexes a s ls) :
    ∀ {n : Nat} {st : Stack} (last : Position), Steps a (st, ls) ([⟨j, .nonterminal .start, tree⟩], []) →
      ls.length < n → parseRest a n s st last = .ok tree := by
  induction hlexes with
  | @nil s hcut =>
    intro n st last hsteps hn
    obtain ⟨n, rfl⟩ := Nat.exists_eq_succ_of_ne_zero (Nat.ne_zero_of_lt hn)
    obtain ⟨m, hreact⟩ := reactTo_reduces (reduces_of_steps_nil hsteps)
    have haccept : react a .endOfText (m + 1) [⟨j, .nonterminal .start, tree⟩] = .accept _ := react_root hj m
    simp only [parseRest, hcut, hreact.trans haccept]
  | @cons s s' l ls hcut _ _ ih =>
    intro n st last hsteps hn
    obtain ⟨n, rfl⟩ := Nat.exists_eq_succ_of_ne_zero (Nat.ne_zero_of_lt hn)
    obtain ⟨st₁, j₁, hreduces, hshift, hrest⟩ := shift_of_steps hsteps
    obtain ⟨m, hreact⟩ := reactTo_reduces hreduces
    have haccepted := accepted_of_reduces hreduces hshift
    simp only [parseRest, hcut _ haccepted, hreact.trans (react_shift hshift m)]
    exact ih _ hrest (Nat.lt_of_succ_lt_succ hn)

/-- A text that consists of the lexemes of a derivation is parsed to that derivation. -/
theorem parse_of_lexes {text : String} {tree : Tree (.nonterminal .start)}
    (h : Lexes automaton (Scanner.ofText text) tree.yield) : parse text = .ok tree := by
  obtain ⟨j, hsteps, hj⟩ := tree.steps_start automaton_isSafe
  exact parseRest_of_steps hj h _ hsteps (Nat.lt_succ_of_le h.length_le)

end Grammar
end TypedImp
