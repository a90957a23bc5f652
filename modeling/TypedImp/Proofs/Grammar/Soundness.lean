import TypedImp.Proofs.Grammar.Stack

/-! What the parser returns is a derivation of what it read. The stack always holds derivations of the lexemes that
    were cut off so far, each behind a state that its symbol leads on from; where the whole text is accepted only the
    derivation of the text is left on it. -/

namespace TypedImp
namespace Grammar
namespace Stack

variable {a : Automaton} {st st' below : Stack} {t : Terminal}

/-! ### Valid stacks -/

/-- Each symbol on the stack leads from the state below it to its own. -/
inductive Valid (a : Automaton) : Stack → Prop
  | nil : Valid a []
  | cons {f : Frame} {st : Stack} :
      State.target? (a.state st.place).targets f.symbol = some f.state → Valid a st → Valid a (f :: st)

theorem Pushed.valid {ss : List Symbol} {trees : Forest ss} (h : Pushed trees below st) (hst : Valid a st) :
    Valid a below := by
  induction h with
  | nil => exact hst
  | cons _ ih =>
    cases ih hst with
    | cons _ hbelow => exact hbelow

/-- A reduction leaves the stack valid and the lexemes as they are. -/
theorem reduce?_keeps {r : Rule} (h : reduce? a r st = some st') (hst : Valid a st) :
    Valid a st' ∧ st'.yield = st.yield := by
  obtain ⟨trees, below, j, hpushed, hj, rfl⟩ := reduce?_eq_some h
  refine ⟨.cons hj (hpushed.valid hst), ?_⟩
  rw [hpushed.yield_eq, Stack.yield, Tree.yield]

/-- On a valid stack only the first state lies below the whole text, and so nothing else does. -/
theorem eq_single_of_root (ha : a.isSafe = true) {f : Frame} (h : Valid a (f :: st))
    (hroot : (a.state f.state).action? t = some (.reduce .root)) : st = [] := by
  cases h with
  | cons hf hst =>
    have hplace : st.place = Automaton.start := Automaton.eq_start_of_root ha hf hroot
    cases hst with
    | nil => rfl
    | cons hg _ => exact absurd hplace (Automaton.target_ne_start ha hg)

/-! ### Reactions -/

/-- What a reaction of the terminal `t` to a stack may be. -/
def Reaction.Follows (a : Automaton) (t : Terminal) (st : Stack) : Reaction → Prop
  | .shift j st' => Valid a st' ∧ st'.yield = st.yield ∧ (a.state st'.place).action? t = some (.shift j)
  | .accept st' => Valid a st' ∧ st'.yield = st.yield ∧ (a.state st'.place).action? t = some (.reduce .root)
  | .stuck _ => True

theorem react_follows (n : Nat) (h : Valid a st) : (react a t n st).Follows a t st := by
  induction n generalizing st with
  | zero => trivial
  | succ n ih =>
    unfold react
    split
    · trivial
    · next j haction => exact ⟨h, rfl, haction⟩
    · next r haction =>
      split
      · next hroot => exact ⟨h, rfl, hroot ▸ haction⟩
      · split
        · trivial
        · next st₁ hreduce =>
          obtain ⟨hvalid, hyield⟩ := reduce?_keeps hreduce h
          have hfollows := ih hvalid
          revert hfollows
          cases react a t n st₁ <;> simp only [Reaction.Follows, hyield] <;> exact id

end Stack

/-! ### Texts -/

/-- The parser cuts the text into the lexemes, beginning in state `k`: each one is cut off where the parser stands,
    and leads from some state to the next place. -/
inductive Reads (a : Automaton) : Nat → Scanner → List Lexeme → Prop
  | nil {k : Nat} {s : Scanner} : cut (a.state k).accepted s = .endOfText → Reads a k s []
  | cons {k k' j : Nat} {s s' : Scanner} {l : Lexeme} {ls : List Lexeme} :
      cut (a.state k).accepted s = .lexeme l s' →
      State.target? (a.state k').targets (.terminal l.terminal) = some j → Reads a j s' ls → Reads a k s (l :: ls)

theorem parseRest_reads {a : Automaton} (ha : a.isSafe = true) {n : Nat} {s : Scanner} {st : Stack} {last : Position}
    {tree : Tree (.nonterminal .start)} (h : parseRest a n s st last = .ok tree) (hst : st.Valid a) :
    ∃ ls, Reads a st.place s ls ∧ tree.yield = st.yield ++ ls := by
  induction n generalizing s st last with
  | zero => cases h
  | succ n ih =>
    simp only [parseRest] at h
    split at h
    · cases h
    · next l s' hcut =>
      have hfollows := Stack.react_follows (t := l.terminal) ((st.length + 1) * Stack.chainBound) hst
      simp only [Stack.reactTo] at h
      split at h
      · next j st' hreact =>
        rw [hreact] at hfollows
        obtain ⟨hvalid, hyield, haction⟩ := hfollows
        have htarget := Automaton.target_of_shift ha haction
        obtain ⟨ls, hreads, htree⟩ := ih h (.cons htarget hvalid)
        refine ⟨l :: ls, .cons hcut htarget hreads, ?_⟩
        rw [htree, Stack.yield, Tree.yield, hyield, List.append_assoc, List.singleton_append]
      all_goals cases h
    · next hcut =>
      have hfollows := Stack.react_follows (t := .endOfText) ((st.length + 1) * Stack.chainBound) hst
      simp only [Stack.reactTo] at h
      split at h
      · next j tree' below hreact =>
        rw [hreact] at hfollows
        obtain ⟨hvalid, hyield, haction⟩ := hfollows
        obtain rfl := Stack.eq_single_of_root ha hvalid haction
        cases h
        refine ⟨[], .nil hcut, ?_⟩
        rw [← hyield, List.append_nil]
        rfl
      all_goals cases h

/-- A text that is parsed is cut into the lexemes of its derivation. -/
theorem reads_of_parse {text : String} {tree : Tree (.nonterminal .start)} (h : parse text = .ok tree) :
    Reads automaton Automaton.start (Scanner.ofText text) tree.yield := by
  obtain ⟨ls, hreads, hyield⟩ := parseRest_reads automaton_isSafe h .nil
  rw [hyield]
  exact hreads

end Grammar
end TypedImp
