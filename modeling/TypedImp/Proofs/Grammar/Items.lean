import TypedImp.Grammar.Parse
import TypedImp.Proofs.Grammar.First

/-! What the states of an automaton hold. A state that holds an item also holds those that its next symbol can
    begin with, leads on with that symbol to a state with the item advanced, and reduces the item's rule where
    nothing is left of it. An automaton is safe if this holds of all of its states; that the computed one is safe
    is checked state by state. -/

namespace TypedImp
namespace Grammar

/-! ### Search trees -/

namespace SearchTree
variable {α : Type} {p : Nat → α → Bool}

/-- Does every value pass the test, with the number that it is found by? -/
def all (p : Nat → α → Bool) : SearchTree α → Bool
  | empty => true
  | node lesser k v greater => p k v && (lesser.all p && greater.all p)

theorem of_all : {t : SearchTree α} → {k : Nat} → {v : α} → t.all p = true → t.find? k = some v → p k v = true
  | empty, _, _, _, hfind => by cases hfind
  | node lesser k' v' greater, k, v, hall, hfind => by
    simp only [all, Bool.and_eq_true] at hall
    obtain ⟨hnode, hlesser, hgreater⟩ := hall
    rw [find?, Bool.cond_eq_ite, Bool.cond_eq_ite] at hfind
    split at hfind
    · exact of_all hlesser hfind
    · next hless =>
      split at hfind
      · exact of_all hgreater hfind
      · next hmore =>
        rw [Nat.blt_eq] at hless hmore
        obtain rfl : k = k' := by omega
        cases hfind
        exact hnode

end SearchTree

/-! ### The check -/

def Action.shifts (j : Nat) : Action → Bool
  | .shift i => i.beq j
  | .reduce _ => false

def Action.reduces (r : Rule) : Action → Bool
  | .shift _ => false
  | .reduce r' => r'.number.beq r.number

theorem Action.any_shifts {o : Option Action} {j : Nat} : o.any (Action.shifts j) = true ↔ o = some (.shift j) := by
  rcases o with _ | _ | _ <;> simp [Action.shifts]

theorem Action.any_reduces {o : Option Action} {r : Rule} :
    o.any (Action.reduces r) = true ↔ o = some (.reduce r) := by
  rcases o with _ | _ | r'
  · simp
  · simp [Action.reduces]
  · simpa [Action.reduces] using ⟨Rule.number_injective, congrArg Rule.number⟩

/-- Does the state hold the item, with all of these terminals behind its rule? -/
def State.holds (s : State) (r : Rule) (dot : Nat) (follow : TerminalSet) : Bool :=
  s.items.any fun e => e.1.rule.number.beq r.number && (e.1.dot.beq dot && e.2.includes follow)

/-- Does the state accept what could be read instead of something that it accepts? -/
def State.acceptsSafely (s : State) : Bool :=
  (!s.accepted.contains .int || s.accepted.contains .float) &&
    s.accepted.all fun t => t.keyword?.isNone || s.accepted.contains .name

/-- Does a shift lead to where its terminal does? -/
def State.shiftsSafely (s : State) (e : Terminal × Action) : Bool :=
  match e.2 with
  | .shift j => (State.target? s.targets (.terminal e.1)).any j.beq
  | .reduce _ => true

namespace Automaton
variable (a : Automaton)

/-- Does the state do with an item of it what the item asks for? -/
def itemSafe (s : State) (e : Item × TerminalSet) : Bool :=
  match e.1.next? with
  | none => Terminal.all.all fun t => !e.2.has t || (s.action? t).any (Action.reduces e.1.rule)
  | some x =>
    match State.target? s.targets x with
    | none => false
    | some j =>
      (a.state j).holds e.1.rule (e.1.dot + 1) e.2 &&
        match x with
        | .terminal t => (s.action? t).any (Action.shifts j)
        | .nonterminal n => n.rules.all fun r => s.holds r 0 ((First.ofSymbols First.table e.1.rest).before e.2)

/-- Nothing leads back to the first state, only the first state leads to where the whole text is recognised, and
    behind an equals sign there is no other one. -/
def targetSafe (k : Nat) (x : Symbol × Nat) : Bool :=
  !x.2.beq start && (k.beq start || (a.state x.2).actions.all fun e => !e.2.reduces .root) &&
    (!x.1.number.beq (Symbol.terminal .equal).number ||
      !(a.state x.2).accepted.contains .equal && !(a.state x.2).accepted.contains .equality)

def stateSafe (k : Nat) (s : State) : Bool :=
  s.items.all (a.itemSafe s) && s.acceptsSafely && s.targets.all (a.targetSafe k) && s.actions.all s.shiftsSafely

def isSafe : Bool := a.all a.stateSafe && (a.state start).holds .root 0 (.single .endOfText)

end Automaton

theorem automaton_isSafe : automaton.isSafe = true := by decide +kernel

theorem State.mem_actions_of_action {s : State} {t : Terminal} {act : Action} (h : s.action? t = some act) :
    (t, act) ∈ s.actions := by
  obtain ⟨l, l', hl, -⟩ := List.lookup_eq_some_iff.mp h
  rw [hl]
  exact List.mem_append_right l (List.mem_cons_self ..)

theorem State.mem_accepted_of_action {s : State} {t : Terminal} {act : Action} (h : s.action? t = some act) :
    t ∈ s.accepted :=
  List.mem_map.mpr ⟨(t, act), mem_actions_of_action h, rfl⟩

/-! ### Items -/

namespace Automaton
variable {a : Automaton} {k j : Nat}

theorem stateSafe_of_isSafe (ha : a.isSafe = true) (k : Nat) : a.stateSafe k (a.state k) = true := by
  rw [state]
  cases hk : a.find? k with
  | none => rfl
  | some s => exact SearchTree.of_all (Bool.and_eq_true_iff.mp ha).1 hk

/-- The state `k` holds the item, with the terminal behind its rule. -/
def Holds (a : Automaton) (k : Nat) (r : Rule) (dot : Nat) (t : Terminal) : Prop :=
  ∃ e ∈ (a.state k).items, e.1 = ⟨r, dot⟩ ∧ e.2.has t = true

variable {r : Rule} {dot : Nat} {t : Terminal}

theorem holds_of_holds {follow : TerminalSet} (h : (a.state k).holds r dot follow = true) (ht : follow.has t = true) :
    a.Holds k r dot t := by
  obtain ⟨e, he, h⟩ := List.any_eq_true.mp h
  simp only [Bool.and_eq_true, Nat.beq_eq] at h
  obtain ⟨hrule, hdot, hfollow⟩ := h
  refine ⟨e, he, ?_, TerminalSet.has_of_includes hfollow ht⟩
  rw [← Rule.number_injective hrule, ← hdot]

theorem holds_root (ha : a.isSafe = true) : a.Holds start .root 0 .endOfText :=
  holds_of_holds (Bool.and_eq_true_iff.mp ha).2 (TerminalSet.has_single_self _)

namespace Holds

theorem itemSafe (ha : a.isSafe = true) (h : a.Holds k r dot t) :
    ∃ follow, a.itemSafe (a.state k) (⟨r, dot⟩, follow) = true ∧ follow.has t = true := by
  obtain ⟨⟨i, follow⟩, he, rfl, ht⟩ := h
  have hsafe := stateSafe_of_isSafe ha k
  simp only [stateSafe, Bool.and_eq_true] at hsafe
  exact ⟨follow, List.all_eq_true.mp hsafe.1.1.1 _ he, ht⟩

/-- Where nothing is left of a rule it is reduced. -/
theorem reduce (ha : a.isSafe = true) (h : a.Holds k r dot t) (hend : r.rhs[dot]? = none) :
    (a.state k).action? t = some (.reduce r) := by
  obtain ⟨follow, hsafe, ht⟩ := h.itemSafe ha
  have hnext : (Item.next? ⟨r, dot⟩) = none := hend
  simp only [Automaton.itemSafe, hnext] at hsafe
  have := List.all_eq_true.mp hsafe t (Terminal.mem_all t)
  exact Action.any_reduces.mp (by simpa [ht] using this)

/-- The next symbol leads to a state that holds the item advanced. -/
theorem advance (ha : a.isSafe = true) (h : a.Holds k r dot t) {x : Symbol} (hx : r.rhs[dot]? = some x) :
    ∃ j, State.target? (a.state k).targets x = some j ∧ a.Holds j r (dot + 1) t := by
  obtain ⟨follow, hsafe, ht⟩ := h.itemSafe ha
  have hnext : (Item.next? ⟨r, dot⟩) = some x := hx
  simp only [Automaton.itemSafe, hnext] at hsafe
  cases hj : State.target? (a.state k).targets x with
  | none => simp [hj] at hsafe
  | some j =>
    simp only [hj, Bool.and_eq_true] at hsafe
    exact ⟨j, rfl, holds_of_holds hsafe.1 ht⟩

/-- A terminal that comes next is shifted. -/
theorem shift (ha : a.isSafe = true) (h : a.Holds k r dot t) {u : Terminal} (hu : r.rhs[dot]? = some (.terminal u))
    (hj : State.target? (a.state k).targets (.terminal u) = some j) : (a.state k).action? u = some (.shift j) := by
  obtain ⟨follow, hsafe, ht⟩ := h.itemSafe ha
  have hnext : (Item.next? ⟨r, dot⟩) = some (.terminal u) := hu
  simp only [Automaton.itemSafe, hnext, hj, Bool.and_eq_true] at hsafe
  exact Action.any_shifts.mp hsafe.2

/-- The rules of a nonterminal that comes next are held from their beginning. -/
theorem closed (ha : a.isSafe = true) {us vs : List Lexeme} (h : a.Holds k r dot (lookahead vs)) {r' : Rule}
    (hn : r.rhs[dot]? = some (.nonterminal r'.lhs))
    (hus : (First.ofSymbols First.table (r.rhs.drop (dot + 1))).Describes us) :
    a.Holds k r' 0 (lookahead (us ++ vs)) := by
  obtain ⟨follow, hsafe, ht⟩ := h.itemSafe ha
  have hnext : (Item.next? ⟨r, dot⟩) = some (.nonterminal r'.lhs) := hn
  simp only [Automaton.itemSafe, hnext] at hsafe
  cases hj : State.target? (a.state k).targets (.nonterminal r'.lhs) with
  | none => simp [hj] at hsafe
  | some j =>
    simp only [hj, Bool.and_eq_true] at hsafe
    exact holds_of_holds (List.all_eq_true.mp hsafe.2 r' (First.mem_rules r')) (hus.before ht)

end Holds

/-! ### Accepted terminals and targets -/

theorem float_accepted (ha : a.isSafe = true) (h : .int ∈ (a.state k).accepted) :
    .float ∈ (a.state k).accepted := by
  have hsafe := stateSafe_of_isSafe ha k
  simp only [stateSafe, State.acceptsSafely, Bool.and_eq_true] at hsafe
  simpa [h] using hsafe.1.1.2.1

theorem name_accepted (ha : a.isSafe = true) (h : t ∈ (a.state k).accepted) (ht : t.keyword?.isSome = true) :
    .name ∈ (a.state k).accepted := by
  have hsafe := stateSafe_of_isSafe ha k
  simp only [stateSafe, State.acceptsSafely, Bool.and_eq_true] at hsafe
  have := List.all_eq_true.mp hsafe.1.1.2.2 t h
  simpa [Option.isNone_eq_false_iff.mpr ht] using this

theorem targetSafe_of_isSafe (ha : a.isSafe = true) {x : Symbol}
    (h : State.target? (a.state k).targets x = some j) :
    ∃ y : Symbol, y.number = x.number ∧ a.targetSafe k (y, j) = true := by
  unfold State.target? at h
  obtain ⟨⟨y, j⟩, hfind, rfl⟩ := Option.map_eq_some_iff.mp h
  have hnumber := List.find?_some hfind
  have hsafe := stateSafe_of_isSafe ha k
  simp only [stateSafe, Bool.and_eq_true] at hsafe
  exact ⟨y, Nat.eq_of_beq_eq_true hnumber, List.all_eq_true.mp hsafe.1.2 _ (List.mem_of_find?_eq_some hfind)⟩

theorem target_ne_start (ha : a.isSafe = true) {x : Symbol} (h : State.target? (a.state k).targets x = some j) :
    j ≠ start := by
  obtain ⟨y, -, hsafe⟩ := targetSafe_of_isSafe ha h
  simp only [targetSafe, Bool.and_eq_true, Bool.not_eq_true'] at hsafe
  exact Nat.ne_of_beq_eq_false hsafe.1.1

/-- Only from the first state the whole text is recognised by one symbol. -/
theorem eq_start_of_root (ha : a.isSafe = true) {x : Symbol} (h : State.target? (a.state k).targets x = some j)
    (hroot : (a.state j).action? t = some (.reduce .root)) : k = start := by
  obtain ⟨y, -, hsafe⟩ := targetSafe_of_isSafe ha h
  simp only [targetSafe, Bool.and_eq_true, Bool.or_eq_true, Nat.beq_eq] at hsafe
  refine hsafe.1.2.resolve_right fun hall => ?_
  have := List.all_eq_true.mp hall _ (State.mem_actions_of_action hroot)
  cases this

/-- Behind an equals sign no other one is accepted. -/
theorem not_accepted_behind_equal (ha : a.isSafe = true)
    (h : State.target? (a.state k).targets (.terminal .equal) = some j) :
    .equal ∉ (a.state j).accepted ∧ .equality ∉ (a.state j).accepted := by
  obtain ⟨y, hy, hsafe⟩ := targetSafe_of_isSafe ha h
  simp only [targetSafe, Bool.and_eq_true] at hsafe
  simpa [hy] using hsafe.2

theorem target_of_shift (ha : a.isSafe = true) (h : (a.state k).action? t = some (.shift j)) :
    State.target? (a.state k).targets (.terminal t) = some j := by
  have hsafe := stateSafe_of_isSafe ha k
  simp only [stateSafe, Bool.and_eq_true] at hsafe
  have hshift := List.all_eq_true.mp hsafe.2 _ (State.mem_actions_of_action h)
  dsimp only [State.shiftsSafely] at hshift
  cases hi : State.target? (a.state k).targets (.terminal t) with
  | none => simp [hi] at hshift
  | some i =>
    rw [hi] at hshift
    rw [Nat.eq_of_beq_eq_true hshift]

end Automaton

end Grammar
end TypedImp
