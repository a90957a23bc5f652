import TypedImp.Proofs.Grammar.Completeness
import TypedImp.Proofs.Grammar.Soundness

/-! What may come next. Everything that a state holds has a reason: an item that has come on comes from a state below
    it, and the rules that begin in it define what it expects. So the lexemes on a stack begin a text that the grammar
    derives, and a terminal may come behind them if and only if it is shifted, after the reductions that it asks for.
    That the computed automaton is grounded in this way is checked state by state, as its safety is. -/

namespace TypedImp
namespace Grammar

/-! ### The check -/

/-- Does the state hold the item? -/
def State.contains (s : State) (r : Rule) (dot : Nat) : Bool :=
  s.items.any fun e => e.1.rule.number.beq r.number && e.1.dot.beq dot

/-- Does the state hold the item, if it has come on over the symbol `x`, as it was in front of `x`? -/
def State.isBehind (s : State) (x : Symbol) (e : Item × TerminalSet) : Bool :=
  match e.1.dot with
  | 0 => true
  | dot + 1 => (e.1.rule.rhs[dot]?).any (fun y => y.number.beq x.number) && s.contains e.1.rule dot

/-- Do the items that have not come on begin what is expected, by the root, by one of the items in front of them or
    among the nonterminals with these numbers? -/
def ItemSet.isIntroduced : List Nat → ItemSet → Bool
  | _, [] => true
  | expected, e :: es =>
    (!e.1.dot.beq 0 || e.1.rule.number.beq Rule.root.number || expected.any e.1.rule.lhs.number.beq) &&
      isIntroduced (match e.1.next? with | some (.nonterminal n) => n.number :: expected | _ => expected) es

/-- Is a shift one that an item asks for, and a reduction one of a rule of which nothing is left? The whole text is
    recognised at its end only. -/
def State.isAsked (s : State) (e : Terminal × Action) : Bool :=
  match e.2 with
  | .shift _ => s.items.any fun i => i.1.next?.any fun x => x.number.beq (Symbol.terminal e.1).number
  | .reduce r => s.contains r r.rhs.length && (!r.number.beq Rule.root.number || e.1 == .endOfText)

namespace Automaton
variable (a : Automaton)

/-- Does everything that the state holds have a reason? The root begins in the first state only. -/
def stateGrounded (k : Nat) (s : State) : Bool :=
  s.targets.all (fun x => (a.state x.2).items.all (s.isBehind x.1)) && ItemSet.isIntroduced [] s.items &&
    s.actions.all s.isAsked && (k.beq start || !s.contains .root 0)

def isGrounded : Bool := a.all a.stateGrounded && (a.state start).items.all fun e => e.1.dot.beq 0

end Automaton

theorem automaton_isGrounded : automaton.isGrounded = true := by decide +kernel

/-! ### Reasons -/

theorem Symbol.number_injective {x y : Symbol} (h : x.number = y.number) : x = y := by
  have key : ∀ t ∈ Terminal.all, ∀ u ∈ Terminal.all, t.ctorIdx = u.ctorIdx → t = u := by decide
  cases x with
  | terminal t =>
    cases y with
    | terminal u =>
      simp only [Symbol.number] at h
      rw [key t (Terminal.mem_all t) u (Terminal.mem_all u) (by omega)]
    | nonterminal n =>
      simp only [Symbol.number] at h
      omega
  | nonterminal m =>
    cases y with
    | terminal u =>
      simp only [Symbol.number] at h
      omega
    | nonterminal n =>
      simp only [Symbol.number] at h
      rw [Nonterminal.number_injective (show m.number = n.number by omega)]

namespace Automaton
variable {a : Automaton} {k j : Nat} {r : Rule} {dot : Nat} {t : Terminal}

/-- The state `k` holds the item, whatever comes behind its rule. -/
def Contains (a : Automaton) (k : Nat) (r : Rule) (dot : Nat) : Prop := ∃ e ∈ (a.state k).items, e.1 = ⟨r, dot⟩

theorem contains_iff : (a.state k).contains r dot = true ↔ a.Contains k r dot := by
  simp only [State.contains, Contains, List.any_eq_true, Bool.and_eq_true, Nat.beq_eq]
  refine exists_congr fun e => and_congr_right fun _ => ⟨?_, ?_⟩
  · rintro ⟨hrule, hdot⟩
    rw [← Rule.number_injective hrule, ← hdot]
  · intro h
    rw [h]
    exact ⟨rfl, rfl⟩

/-- What has been checked of the state `k`. -/
structure Grounded (a : Automaton) (k : Nat) : Prop where
  behind : ∀ x ∈ (a.state k).targets, ∀ e ∈ (a.state x.2).items, (a.state k).isBehind x.1 e = true
  introduced : ItemSet.isIntroduced [] (a.state k).items = true
  asked : ∀ e ∈ (a.state k).actions, (a.state k).isAsked e = true
  root : k = start ∨ ¬ a.Contains k .root 0

theorem grounded_of_isGrounded (hg : a.isGrounded = true) (k : Nat) : a.Grounded k := by
  have hgrounded : a.stateGrounded k (a.state k) = true := by
    rw [state]
    cases hk : a.find? k with
    | none => simp [stateGrounded, ItemSet.isIntroduced, State.contains, show (default : State) = ⟨[], [], []⟩ from rfl]
    | some s => exact SearchTree.of_all (Bool.and_eq_true_iff.mp hg).1 hk
  simp only [stateGrounded, Bool.and_eq_true, Bool.or_eq_true, Nat.beq_eq, List.all_eq_true] at hgrounded
  obtain ⟨⟨⟨htargets, hintroduced⟩, hactions⟩, hroot⟩ := hgrounded
  refine ⟨htargets, hintroduced, hactions, hroot.imp_right fun hroot h => ?_⟩
  rw [contains_iff.mpr h] at hroot
  cases hroot

/-- An item that has come on comes from the state below, over the symbol that leads from there. -/
theorem Contains.before (hg : a.isGrounded = true) (h : a.Contains j r (dot + 1)) {x : Symbol}
    (hx : State.target? (a.state k).targets x = some j) : r.rhs[dot]? = some x ∧ a.Contains k r dot := by
  obtain ⟨⟨y, j'⟩, hfind, rfl⟩ := Option.map_eq_some_iff.mp hx
  have hnumber := List.find?_some hfind
  obtain rfl : y = x := Symbol.number_injective (Nat.eq_of_beq_eq_true hnumber)
  obtain ⟨e, he, hitem⟩ := h
  have hbehind := (grounded_of_isGrounded hg k).behind _ (List.mem_of_find?_eq_some hfind) e he
  rw [State.isBehind, hitem] at hbehind
  simp only [Bool.and_eq_true] at hbehind
  obtain ⟨z, hz, hnumber⟩ := (Option.any_eq_true _ _).mp hbehind.1
  rw [Symbol.number_injective (Nat.eq_of_beq_eq_true hnumber)] at hz
  exact ⟨hz, contains_iff.mp hbehind.2⟩

/-- In the first state nothing has come on. -/
theorem Contains.start (hg : a.isGrounded = true) (h : a.Contains start r dot) : dot = 0 := by
  obtain ⟨e, he, hitem⟩ := h
  have hdot := List.all_eq_true.mp (Bool.and_eq_true_iff.mp hg).2 e he
  rw [hitem] at hdot
  exact Nat.eq_of_beq_eq_true hdot

/-- The root begins in the first state only. -/
theorem Contains.root (hg : a.isGrounded = true) (h : a.Contains k .root 0) : k = Automaton.start :=
  (grounded_of_isGrounded hg k).root.resolve_right (absurd h)

/-- The items in a list that is introduced are reached from those that have come on and from the root, by going to the
    rules of what an item expects. -/
theorem induction_of_isIntroduced {P : Item → Prop} {expected : List Nat} {es : ItemSet}
    (h : ItemSet.isIntroduced expected es = true) (hexpected : ∀ r : Rule, r.lhs.number ∈ expected → P ⟨r, 0⟩)
    (hon : ∀ e ∈ es, e.1.dot ≠ 0 ∨ e.1.rule = .root → P e.1)
    (hnext : ∀ e ∈ es, P e.1 → ∀ r : Rule, e.1.next? = some (.nonterminal r.lhs) → P ⟨r, 0⟩) : ∀ e ∈ es, P e.1 := by
  induction es generalizing expected with
  | nil => exact fun _ he => nomatch he
  | cons e es ih =>
    obtain ⟨hfirst, hrest⟩ := Bool.and_eq_true_iff.mp h
    have hP : P e.1 := by
      rw [Bool.or_eq_true, Bool.or_eq_true] at hfirst
      rcases hfirst with (hdot | hroot) | hmem
      · exact hon e (List.mem_cons_self ..) (.inl (Nat.ne_of_beq_eq_false (by simpa using hdot)))
      · exact hon e (List.mem_cons_self ..) (.inr (Rule.number_injective (Nat.eq_of_beq_eq_true hroot)))
      · by_cases hdot : e.1.dot = 0
        · obtain ⟨n, hn, hnumber⟩ := List.any_eq_true.mp hmem
          have := hexpected e.1.rule (Nat.eq_of_beq_eq_true hnumber ▸ hn)
          rwa [← hdot] at this
        · exact hon e (List.mem_cons_self ..) (.inl hdot)
    refine List.forall_mem_cons.mpr ⟨hP, ih hrest ?_ (fun e he => hon e (List.mem_cons_of_mem _ he))
      (fun e he => hnext e (List.mem_cons_of_mem _ he))⟩
    intro r hr
    split at hr
    · next n hn =>
      rcases List.mem_cons.mp hr with hnumber | hmem
      · obtain rfl := Nonterminal.number_injective hnumber
        exact hnext e (List.mem_cons_self ..) hP r hn
      · exact hexpected r hmem
    · exact hexpected r hr

/-- A rule that begins defines what an item of the state expects, if it is not the root's. -/
theorem Contains.expected (hg : a.isGrounded = true) (h : a.Contains k r 0) (hroot : r ≠ .root) :
    ∃ r' dot', a.Contains k r' dot' ∧ r'.rhs[dot']? = some (.nonterminal r.lhs) := by
  obtain ⟨e, he, hitem⟩ := h
  have hall := induction_of_isIntroduced (grounded_of_isGrounded hg k).introduced
    (P := fun i => i.dot = 0 → i.rule ≠ .root →
      ∃ r' dot', a.Contains k r' dot' ∧ r'.rhs[dot']? = some (.nonterminal i.rule.lhs))
    (fun _ hmem => nomatch hmem)
    (fun _ _ hreason hdot hroot => absurd (hreason.resolve_left (absurd hdot)) hroot)
    (fun e he _ r hnext _ _ => ⟨e.1.rule, e.1.dot, ⟨e, he, rfl⟩, hnext⟩) e he
  rw [hitem] at hall
  exact hall rfl hroot

/-- The symbol that an item expects leads on. -/
theorem Contains.target (ha : a.isSafe = true) (h : a.Contains k r dot) {x : Symbol} (hx : r.rhs[dot]? = some x) :
    ∃ j, State.target? (a.state k).targets x = some j := by
  obtain ⟨e, he, hitem⟩ := h
  have hsafe := stateSafe_of_isSafe ha k
  simp only [stateSafe, Bool.and_eq_true] at hsafe
  have hnext : e.1.next? = some x := by rw [hitem]; exact hx
  have hitemSafe := List.all_eq_true.mp hsafe.1.1.1 e he
  simp only [itemSafe, hnext] at hitemSafe
  cases hj : State.target? (a.state k).targets x with
  | none => simp [hj] at hitemSafe
  | some j => exact ⟨j, rfl⟩

theorem isAsked_of_action (hg : a.isGrounded = true) {act : Action} (h : (a.state k).action? t = some act) :
    (a.state k).isAsked (t, act) = true :=
  (grounded_of_isGrounded hg k).asked (t, act) (State.mem_actions_of_action h)

/-- A terminal that is shifted is expected. -/
theorem contains_of_shift (hg : a.isGrounded = true) (h : (a.state k).action? t = some (.shift j)) :
    ∃ r dot, a.Contains k r dot ∧ r.rhs[dot]? = some (.terminal t) := by
  obtain ⟨e, he, hnext⟩ := List.any_eq_true.mp (isAsked_of_action hg h)
  obtain ⟨x, hx, hnumber⟩ := (Option.any_eq_true _ _).mp hnext
  rw [Symbol.number_injective (Nat.eq_of_beq_eq_true hnumber)] at hx
  exact ⟨e.1.rule, e.1.dot, ⟨e, he, rfl⟩, hx⟩

/-- A rule that is reduced is complete, and the root's is reduced at the end of the text. -/
theorem contains_of_reduce (hg : a.isGrounded = true) (h : (a.state k).action? t = some (.reduce r)) :
    a.Contains k r r.rhs.length ∧ (r = .root → t = .endOfText) := by
  obtain ⟨hcontains, hend⟩ := Bool.and_eq_true_iff.mp (isAsked_of_action hg h)
  refine ⟨contains_iff.mp hcontains, ?_⟩
  rintro rfl
  simpa using hend

end Automaton

/-! ### Every symbol has a derivation -/

/-- Every nonterminal has a rule with lower ones only. -/
def Nonterminal.height : Nonterminal → Nat
  | primary | param | block => 1
  | unary | paramTail => 2
  | level .multiplicative => 3
  | level .additive => 4
  | level .relational => 5
  | level .equality => 6
  | level .and => 7
  | level .or => 8
  | expr | levelTail _ => 9
  | form .forLoop => 12
  | form _ | forStep | argumentTail => 10
  | statement | forInit => 11
  | statements => 12
  | start => 13
  | root => 14

theorem exists_lower_rule (n : Nonterminal) :
    ∃ r : Rule, r.lhs = n ∧ ∀ m, .nonterminal m ∈ r.rhs → m.height < n.height := by
  have key : ∀ n ∈ Nonterminal.all, ∃ r ∈ Rule.all, r.lhs = n ∧
      ∀ s ∈ r.rhs, ∀ m ∈ Nonterminal.all, s = .nonterminal m → m.height < n.height := by decide +kernel
  obtain ⟨r, -, hr, hlower⟩ := key n (Nonterminal.mem_all n)
  exact ⟨r, hr, fun m hm => hlower _ hm m (Nonterminal.mem_all m) rfl⟩

theorem Forest.nonempty_of_trees {ss : List Symbol} (h : ∀ s ∈ ss, Nonempty (Tree s)) : Nonempty (Forest ss) := by
  induction ss with
  | nil => exact ⟨.nil⟩
  | cons s ss ih =>
    obtain ⟨tree⟩ := h s (List.mem_cons_self ..)
    obtain ⟨trees⟩ := ih fun s hs => h s (List.mem_cons_of_mem _ hs)
    exact ⟨.cons tree trees⟩

theorem Tree.nonempty_terminal (t : Terminal) : Nonempty (Tree (.terminal t)) := ⟨.leaf ⟨t, "", ⟨1, 1⟩⟩⟩

theorem Tree.nonempty_nonterminal (n : Nonterminal) : Nonempty (Tree (.nonterminal n)) := by
  induction hk : n.height using Nat.strongRecOn generalizing n with
  | ind k ih =>
    obtain ⟨r, rfl, hlower⟩ := exists_lower_rule n
    obtain ⟨trees⟩ : Nonempty (Forest r.rhs) := by
      refine Forest.nonempty_of_trees fun s hs => ?_
      cases s with
      | terminal t => exact Tree.nonempty_terminal t
      | nonterminal m => exact ih _ (hk ▸ hlower m hs) m rfl
    exact ⟨.node r trees⟩

theorem Forest.nonempty (ss : List Symbol) : Nonempty (Forest ss) :=
  nonempty_of_trees fun s _ => by
    cases s with
    | terminal t => exact Tree.nonempty_terminal t
    | nonterminal n => exact Tree.nonempty_nonterminal n

/-! ### Texts that begin with a stack -/

/-- Behind the lexemes the terminal can come, in a row of lexemes that the grammar derives. -/
def CanFollow (ls : List Lexeme) (t : Terminal) : Prop :=
  ∃ (tree : Tree (.nonterminal .start)) (l : Lexeme) (rest : List Lexeme),
    l.terminal = t ∧ tree.yield = ls ++ l :: rest

namespace Stack
variable {a : Automaton} {st st' : Stack} {t : Terminal} {r : Rule} {dot : Nat}

theorem drop_of_next {ss : List Symbol} {s : Symbol} {n : Nat} (h : ss[n]? = some s) :
    ss.drop n = s :: ss.drop (n + 1) := by
  obtain ⟨hlt, rfl⟩ := List.getElem?_eq_some_iff.mp h
  exact List.drop_eq_getElem_cons hlt

theorem Valid.eq_nil_of_start (ha : a.isSafe = true) (h : Valid a st) (hplace : st.place = Automaton.start) :
    st = [] := by
  cases h with
  | nil => rfl
  | cons hf _ => exact absurd hplace (Automaton.target_ne_start ha hf)

/-- However what is left of the item is derived, the lexemes of the stack and of the derivation begin a text. -/
def Completes (st : Stack) (i : Item) : Prop :=
  ∀ {ss : List Symbol} (trees : Forest ss), i.rule.rhs.drop i.dot = ss →
    ∃ (tree : Tree (.nonterminal .start)) (rest : List Lexeme), tree.yield = st.yield ++ trees.yield ++ rest

theorem Completes.next {i : Item} (h : Completes st i) (hnext : i.next? = some (.nonterminal r.lhs)) :
    Completes st ⟨r, 0⟩ := by
  intro ss trees hss
  obtain rfl : r.rhs = ss := hss
  obtain ⟨more⟩ := Forest.nonempty (i.rule.rhs.drop (i.dot + 1))
  obtain ⟨tree, rest, hyield⟩ := h (.cons (.node r trees) more) (drop_of_next hnext)
  refine ⟨tree, more.yield ++ rest, ?_⟩
  rw [hyield, Forest.yield, Tree.yield]
  simp only [List.append_assoc]

/-- Every item that a valid stack leads to can be completed. -/
theorem Valid.completes (ha : a.isSafe = true) (hg : a.isGrounded = true) (h : Valid a st) :
    ∀ e ∈ (a.state st.place).items, Completes st e.1 := by
  induction h with
  | nil =>
    refine Automaton.induction_of_isIntroduced (Automaton.grounded_of_isGrounded hg _).introduced
      (fun _ hmem => nomatch hmem) (fun e he hreason => ?_) (fun e _ he r hnext => he.next hnext)
    have hdot : e.1.dot = 0 := Automaton.Contains.start hg ⟨e, he, rfl⟩
    intro ss trees hss
    rw [hdot, hreason.resolve_left (absurd hdot)] at hss
    obtain rfl : [.nonterminal .start] = ss := hss
    cases trees with
    | cons tree trees =>
      cases trees
      exact ⟨tree, [], by simp [Stack.yield, Forest.yield]⟩
  | @cons f st hf hst ih =>
    refine Automaton.induction_of_isIntroduced (Automaton.grounded_of_isGrounded hg _).introduced
      (fun _ hmem => nomatch hmem) (fun e he hreason => ?_) (fun e _ he r hnext => he.next hnext)
    cases hdot : e.1.dot with
    | zero =>
      have hroot := hreason.resolve_left (absurd hdot)
      have hstart := Automaton.Contains.root hg ⟨e, he, show e.1 = ⟨.root, 0⟩ by rw [← hroot, ← hdot]⟩
      exact (Automaton.target_ne_start ha hf hstart).elim
    | succ dot =>
      obtain ⟨hnext, e', he', hitem⟩ :=
        Automaton.Contains.before hg ⟨e, he, show e.1 = ⟨e.1.rule, dot + 1⟩ by rw [← hdot]⟩ hf
      intro ss trees hss
      rw [hdot] at hss
      have hdrop := drop_of_next hnext
      rw [hss] at hdrop
      obtain ⟨tree, rest, hyield⟩ := ih e' he' (.cons f.tree trees) (by rw [hitem]; exact hdrop)
      refine ⟨tree, rest, ?_⟩
      rw [hyield, Forest.yield, Stack.yield]
      simp only [List.append_assoc]

/-- A terminal that is shifted can come behind the lexemes of the stack. -/
theorem Valid.canFollow (ha : a.isSafe = true) (hg : a.isGrounded = true) (h : Valid a st) {j : Nat}
    (hshift : (a.state st.place).action? t = some (.shift j)) : CanFollow st.yield t := by
  obtain ⟨r, dot, ⟨e, he, hitem⟩, hnext⟩ := Automaton.contains_of_shift hg hshift
  obtain ⟨more⟩ := Forest.nonempty (r.rhs.drop (dot + 1))
  obtain ⟨tree, rest, hyield⟩ :=
    h.completes ha hg e he (.cons (.leaf ⟨t, "", ⟨1, 1⟩⟩) more) (by rw [hitem]; exact drop_of_next hnext)
  refine ⟨tree, ⟨t, "", ⟨1, 1⟩⟩, more.yield ++ rest, rfl, ?_⟩
  rw [hyield, Forest.yield, Tree.yield]
  simp only [List.append_assoc, List.cons_append, List.nil_append]

/-! ### Reactions on valid stacks -/

/-- The reductions that the terminal asks for lead from one stack to another. -/
abbrev Leads (a : Automaton) (t : Terminal) : Stack → Stack → Prop := Relation.ReflTransGen (Reduces a t)

theorem Leads.keeps (h : Leads a t st st') (hst : Valid a st) : Valid a st' ∧ st'.yield = st.yield := by
  induction h with
  | refl => exact ⟨hst, rfl⟩
  | tail _ hstep ih =>
    obtain ⟨hvalid, hyield⟩ := ih
    obtain ⟨r, -, -, -, hreduce⟩ := hstep
    obtain ⟨hvalid', hyield'⟩ := reduce?_keeps hreduce hvalid
    exact ⟨hvalid', hyield'.trans hyield⟩

/-- The symbols of an item that were recognised are on the stack, down to where its rule begins. -/
theorem exists_pushed (hg : a.isGrounded = true) {ss : List Symbol} {trees : Forest ss} {top : Stack} (hst : Valid a st)
    (h : a.Contains st.place r dot) (hss : r.rhs.drop dot = ss) (hpushed : Pushed trees st top) :
    ∃ (trees : Forest r.rhs) (below : Stack), Pushed trees below top ∧ Valid a below ∧ a.Contains below.place r 0 := by
  induction dot generalizing st ss with
  | zero =>
    obtain rfl : r.rhs = ss := hss
    exact ⟨trees, st, hpushed, hst, h⟩
  | succ dot ih =>
    cases hst with
    | nil => exact nomatch Automaton.Contains.start hg h
    | @cons f st hf hst =>
      obtain ⟨hnext, hbefore⟩ := h.before hg hf
      have hdrop := drop_of_next hnext
      rw [hss] at hdrop
      exact ih hst hbefore hdrop (.cons hpushed)

/-- On a valid stack the reduction that a terminal asks for is possible. -/
theorem exists_reduces (ha : a.isSafe = true) (hg : a.isGrounded = true) (hst : Valid a st) (hroot : r ≠ .root)
    (h : (a.state st.place).action? t = some (.reduce r)) : ∃ st', Reduces a t st st' := by
  obtain ⟨trees, below, hpushed, hbelow, hbegins⟩ :=
    exists_pushed hg hst (Automaton.contains_of_reduce hg h).1 List.drop_length .nil
  obtain ⟨r', dot', hcontains, hnext⟩ := hbegins.expected hg hroot
  obtain ⟨j, hj⟩ := hcontains.target ha hnext
  refine ⟨_, r, hroot, fun hempty => ?_, h, reduce?_of_pushed hpushed hj⟩
  -- Only the root expects what can be empty, and it stands at the beginning.
  have hstart : r'.rhs[dot']? = some (.nonterminal .start) := by rw [hnext, lhs_of_empty hempty]
  obtain rfl : r' = .root :=
    Decidable.byContradiction fun hne => (symbol_inner hne (List.mem_of_getElem? hstart)).2 rfl
  obtain rfl : dot' = 0 := by
    have hlt : dot' < 1 := (List.getElem?_eq_some_iff.mp hstart).1
    omega
  obtain rfl := hbelow.eq_nil_of_start ha (hcontains.root hg)
  have hlength := hpushed.length
  rw [hempty] at hlength
  exact List.length_eq_zero_iff.mp hlength

/-- How a reaction ends: behind some reductions the terminal is shifted, or the whole text is recognised, or there is
    nothing to do. -/
inductive Ends (a : Automaton) (t : Terminal) (st : Stack) : Reaction → Prop
  | shift {j : Nat} {st' : Stack} :
      Leads a t st st' → (a.state st'.place).action? t = some (.shift j) → Ends a t st (.shift j st')
  | accept {st' : Stack} :
      Leads a t st st' → (a.state st'.place).action? t = some (.reduce .root) → Ends a t st (.accept st')
  | stuck {st' : Stack} : Leads a t st st' → (a.state st'.place).action? t = none → Ends a t st (.stuck st')

theorem Ends.head {x : Reaction} (hstep : Reduces a t st st') (h : Ends a t st' x) : Ends a t st x := by
  cases h with
  | shift hleads haction => exact .shift (.head hstep hleads) haction
  | accept hleads haction => exact .accept (.head hstep hleads) haction
  | stuck hleads haction => exact .stuck (.head hstep hleads) haction

theorem react_ends (ha : a.isSafe = true) (hg : a.isGrounded = true) {n : Nat} (hst : Valid a st)
    (hn : st.potential < n + chainBound) : Ends a t st (react a t n st) := by
  induction n generalizing st with
  | zero =>
    have hleast := (potential_bounds st).1
    omega
  | succ n ih =>
    cases haction : (a.state st.place).action? t with
    | none =>
      simp only [react, haction]
      exact .stuck .refl haction
    | some action =>
      cases action with
      | shift j =>
        rw [react_shift haction]
        exact .shift .refl haction
      | reduce r =>
        by_cases hroot : r = .root
        · subst hroot
          rw [react_root haction]
          exact .accept .refl haction
        · obtain ⟨st', hstep⟩ := exists_reduces ha hg hst hroot haction
          have hlt := hstep.potential_lt
          have hvalid := (Leads.keeps (.single hstep) hst).1
          obtain ⟨r', hroot', hempty, haction', hreduce⟩ := hstep
          rw [react_of_reduce? haction' hroot' hreduce]
          exact (ih hvalid (by omega)).head ⟨r', hroot', hempty, haction', hreduce⟩

theorem reactTo_ends (ha : a.isSafe = true) (hg : a.isGrounded = true) (hst : Valid a st) (t : Terminal) :
    Ends a t st (st.reactTo a t) := by
  have hbound := (potential_bounds st).2
  refine react_ends ha hg hst ?_
  rw [Nat.mul_comm]
  omega

/-! ### Rows of lexemes -/

/-- Is the terminal shifted, after the reductions that it asks for? -/
def admits (a : Automaton) (st : Stack) (t : Terminal) : Bool :=
  match st.reactTo a t with
  | .shift .. => true
  | _ => false

/-- The stack behind the lexemes, if each of them is shifted. -/
def shiftAll (a : Automaton) : Stack → List Lexeme → Option Stack
  | st, [] => some st
  | st, l :: ls =>
    match st.reactTo a l.terminal with
    | .shift j st' => shiftAll a (⟨j, .terminal l.terminal, .leaf l⟩ :: st') ls
    | _ => none

theorem shiftAll_keeps (ha : a.isSafe = true) {ls : List Lexeme} (hst : Valid a st)
    (h : shiftAll a st ls = some st') : Valid a st' ∧ st'.yield = st.yield ++ ls := by
  induction ls generalizing st with
  | nil =>
    cases h
    exact ⟨hst, (List.append_nil _).symm⟩
  | cons l ls ih =>
    have hfollows := react_follows (t := l.terminal) ((st.length + 1) * chainBound) hst
    simp only [shiftAll, reactTo] at h
    split at h
    · next j st₁ hreact =>
      rw [hreact] at hfollows
      obtain ⟨hvalid, hyield, haction⟩ := hfollows
      obtain ⟨hvalid', hyield'⟩ := ih (.cons (Automaton.target_of_shift ha haction) hvalid) h
      refine ⟨hvalid', ?_⟩
      rw [hyield', Stack.yield, Tree.yield, hyield, List.append_assoc, List.singleton_append]
    · cases h

theorem canFollow_of_admits (ha : a.isSafe = true) (hg : a.isGrounded = true) (hst : Valid a st)
    (h : st.admits a t = true) : CanFollow st.yield t := by
  have hends := reactTo_ends ha hg hst t
  unfold admits at h
  split at h
  · next j st' hreact =>
    rw [hreact] at hends
    cases hends with
    | shift hleads haction =>
      obtain ⟨hvalid, hyield⟩ := hleads.keeps hst
      rw [← hyield]
      exact hvalid.canFollow ha hg haction
  · cases h

theorem admits_of_leads {j : Nat} (h : Leads a t st st') (hshift : (a.state st'.place).action? t = some (.shift j)) :
    st.admits a t = true := by
  obtain ⟨m, hreact⟩ := reactTo_reduces h
  rw [admits, hreact, react_shift hshift]

/-- Steps over lexemes with others behind them shift the former first. -/
theorem shiftAll_of_steps {ls us : List Lexeme} {f : Frame} (h : Steps a (st, ls ++ us) ([f], [])) :
    ∃ st', shiftAll a st ls = some st' ∧ Steps a (st', us) ([f], []) := by
  induction ls generalizing st with
  | nil => exact ⟨st, rfl, h⟩
  | cons l ls ih =>
    obtain ⟨st₁, j, hreduces, hshift, hsteps⟩ := shift_of_steps h
    obtain ⟨m, hreact⟩ := reactTo_reduces hreduces
    simp only [shiftAll, hreact, react_shift hshift]
    exact ih hsteps

end Stack

/-- A terminal can come behind lexemes if and only if the automaton shifts them and then it. -/
theorem canFollow_iff {ls : List Lexeme} {t : Terminal} :
    CanFollow ls t ↔ (Stack.shiftAll automaton [] ls).any (fun st => st.admits automaton t) = true := by
  rw [Option.any_eq_true]
  constructor
  · rintro ⟨tree, l, rest, rfl, hyield⟩
    obtain ⟨j, hsteps, -⟩ := tree.steps_start automaton_isSafe
    rw [hyield] at hsteps
    obtain ⟨st, hst, hsteps⟩ := Stack.shiftAll_of_steps hsteps
    obtain ⟨st', i, hleads, hshift, -⟩ := Stack.shift_of_steps hsteps
    exact ⟨st, hst, Stack.admits_of_leads hleads hshift⟩
  · rintro ⟨st, hst, hadmits⟩
    obtain ⟨hvalid, hyield⟩ := Stack.shiftAll_keeps automaton_isSafe .nil hst
    have hfollow := Stack.canFollow_of_admits automaton_isSafe automaton_isGrounded hvalid hadmits
    rwa [hyield] at hfollow

instance (ls : List Lexeme) (t : Terminal) : Decidable (CanFollow ls t) := decidable_of_iff _ canFollow_iff.symm

end Grammar
end TypedImp
