import TypedImp.Proofs.Execution.Joining
import TypedImp.Proofs.Syntax.WellFormed

/-! A loop with a header and its expansion: the first statement of the header, and then a loop whose body ends with the
    last statement of the header. Both do the same, over any number of rounds, if the header holds statements of the
    two kinds that the grammar allows, since these never return. A return in the body leaves both loops at once, in
    front of the step. Only the nesting differs, because the step has become a part of the body, and the word for the
    loop in the message about a condition that is no truth value. -/

namespace TypedImp

/-- What a loop with a header means. -/
def Stmt.expansion (init : Stmt) (cond : Expr) (step : Stmt) (body : List Stmt) : List Stmt :=
  [init, .whileLoop cond (body ++ [step])]

namespace Execution

/-! ### Statements of a header -/

section Exact
variable {b : Bounds} {n : Nat} {init step : Stmt} {cond : Expr} {body : List Stmt}

/-- No statement of a header returns. -/
theorem normal_of_header {s : Stmt} (hs : s.isInit = true ∨ s.isStep = true) {w w' : World} {flow : Flow}
    (h : execute b n s w = .ok flow w') : flow = .normal := by
  cases n with
  | zero => cases h
  | succ n =>
    cases s with
    | varDecl name ty init =>
      cases init with
      | none =>
        obtain ⟨_, _, -, h⟩ := State.bind_eq_ok h
        cases h
        rfl
      | some e =>
        obtain ⟨_, _, -, h⟩ := State.bind_eq_ok h
        obtain ⟨_, _, -, h⟩ := State.bind_eq_ok h
        obtain ⟨_, _, -, h⟩ := State.bind_eq_ok h
        cases h
        rfl
    | assign name value =>
      obtain ⟨_, _, -, h⟩ := State.bind_eq_ok h
      obtain ⟨_, _, -, h⟩ := State.bind_eq_ok h
      obtain ⟨_, _, -, h⟩ := State.bind_eq_ok h
      obtain ⟨_, _, -, h⟩ := State.bind_eq_ok h
      cases h
      rfl
    | expr e =>
      cases e with
      | call name args =>
        obtain ⟨_, _, -, h⟩ := State.bind_eq_ok h
        cases h
        rfl
      | _ =>
        obtain ⟨_, _, -, h⟩ := State.bind_eq_ok h
        cases h
        rfl
    | _ => exact (hs.elim nofun nofun)

/-- What follows a statement of a header. -/
theorem sequence_header {s : Stmt} (hs : s.isInit = true ∨ s.isStep = true) (ss : List Stmt) :
    sequence (execute b n) (s :: ss) = (do
      discard (execute b n s)
      sequence (execute b n) ss) := by
  funext w
  cases hrun : execute b n s w with
  | error e u => rw [sequence, State.bind_of_error hrun, State.bind_of_error (State.discard_of_error hrun)]
  | ok flow u =>
    obtain rfl := normal_of_header hs hrun
    rw [sequence, State.bind_of_ok hrun, State.bind_of_ok (State.discard_of_ok hrun)]

/-! ### The expansion -/

/-- A step at the end of the body, or behind it. -/
theorem repeatWhile_append (hstep : step.isStep = true) (condition : Run Bool) (rounds : Nat) :
    repeatWhile condition (executeBlock b n (body ++ [step])) (pure ()) rounds =
      repeatWhile condition (executeBlock b n body) (discard (execute b (n - 1) step)) rounds := by
  induction rounds with
  | zero => rfl
  | succ rounds ih =>
    rw [repeatWhile_succ, repeatWhile_succ, ih]
    congr 1
    funext holds
    cases n with
    | zero => rfl
    | succ n =>
      -- in both the step runs where the body has not returned
      rw [executeBlock, executeBlock, sequence_append_eq, sequence_header (.inr hstep), bind_assoc, Nat.add_sub_cancel]
      congr 2
      funext flow
      cases flow with
      | normal =>
        dsimp only
        rw [bind_assoc]
        rfl
      | returning v => rfl

theorem executeBlock_expansion (hinit : init.isInit = true) (hstep : step.isStep = true) :
    executeBlock b (n + 2) (init.expansion cond step body) = (do
      discard (execute b (n + 1) init)
      repeatWhile (evaluate b n cond >>= asCondition .whileLoop) (executeBlock b n body)
        (discard (execute b (n - 1) step)) b.rounds) := by
  rw [executeBlock, Stmt.expansion, sequence_header (.inl hinit)]
  congr 1
  funext u
  rw [sequence_singleton]
  exact repeatWhile_append hstep _ _

end Exact

/-! ### The word for the loop -/

/-- From `w` to `w'` the loop goes round so many times: its condition holds, its body does not return, and its step
    runs. -/
inductive GoesRound (b : Bounds) (n : Nat) (cond : Expr) (step : Stmt) (body : List Stmt) : Nat → World → World → Prop
  | start (w : World) : GoesRound b n cond step body 0 w w
  | round {k : Nat} {w w₁ w₂ w₃ w' : World} :
      (evaluate b n cond >>= asCondition .forLoop) w = .ok true w₁ → executeBlock b n body w₁ = .ok .normal w₂ →
      execute b n step w₂ = .ok .normal w₃ → GoesRound b n cond step body k w₃ w' →
      GoesRound b n cond step body (k + 1) w w'

/-- Within so many rounds from `w` the condition of the loop itself gives a value of the type `t`, which is no truth
    value. -/
inductive Refuses (b : Bounds) (n : Nat) (cond : Expr) (step : Stmt) (body : List Stmt) : Nat → World → Ty → Prop
  | now {rounds : Nat} {w w₁ : World} {v : Value} :
      evaluate b n cond w = .ok v w₁ → v.truth? = none → Refuses b n cond step body (rounds + 1) w v.ty
  | later {rounds : Nat} {w w₁ w₂ w₃ : World} {t : Ty} :
      (evaluate b n cond >>= asCondition .forLoop) w = .ok true w₁ → executeBlock b n body w₁ = .ok .normal w₂ →
      execute b n step w₂ = .ok .normal w₃ → Refuses b n cond step body rounds w₃ t →
      Refuses b n cond step body (rounds + 1) w t

/-- The loop with a header, run from `w`, is stopped by its own condition, which gives a value of the type `t`. -/
def HeaderRefuses (b : Bounds) (n : Nat) (init : Stmt) (cond : Expr) (step : Stmt) (body : List Stmt) (w : World)
    (t : Ty) : Prop :=
  ∃ w₀, execute b n init w = .ok .normal w₀ ∧ Refuses b n cond step body b.rounds w₀ t

/-- The second outcome is the first one, up to what has been traced. Only where the loop refuses its own condition, with
    a value of a type as `refuses` says, the first one says `for` and the second one `while`. -/
structure Outcome.Expands {α : Type} (refuses : Ty → Prop) (o o' : Outcome α) : Prop extends o.world.Like o'.world where
  refused : ∀ t, refuses t → o.answer = .error (.failed (.conditionNotBool .forLoop t)) ∧
    o'.answer = .error (.failed (.conditionNotBool .whileLoop t))
  same : (∀ t, ¬refuses t) → o'.answer = o.answer
  functions : o'.world.functions = o.world.functions

section Words
variable {α β : Type} {refuses : Ty → Prop}

theorem Outcome.Expands.trans_alike {o o' o'' : Outcome α} (h : o.Expands refuses o') (h' : o'.Alike o'') :
    o.Expands refuses o'' where
  store := h'.store.trans h.store
  input := h'.input.trans h.input
  output := h'.output.trans h.output
  refused t ht := ⟨(h.refused t ht).1, h'.answer.trans (h.refused t ht).2⟩
  same hnone := h'.answer.trans (h.same hnone)
  functions := h'.functions.trans h.functions

/-- An answer of the expansion that is not about a condition is the answer of the loop. -/
theorem Outcome.Expands.answer_eq {o o' : Outcome α} (h : o.Expands refuses o')
    (hother : ∀ t, o'.answer ≠ .error (.failed (.conditionNotBool .whileLoop t))) : o.answer = o'.answer :=
  (h.same fun t ht => hother t (h.refused t ht).2).symm

/-- What comes first runs alike; no condition is refused in it. -/
theorem EndLike.expands_bind {r r' : Run α} {k k' : α → Run β} {w w' : World} (h : EndLike r r' w w')
    (hfunctions : w'.functions = w.functions) (hstop : ∀ s u, r w = .error s u → ∀ t, ¬refuses t)
    (hk : ∀ a u u', r w = .ok a u → u.Like u' → u'.functions = u.functions →
      ((k a).run u).Expands refuses ((k' a).run u')) :
    ((r >>= k).run w).Expands refuses ((r' >>= k').run w') := by
  obtain ⟨answer, u, u', hu, hu', hlike, hf, hf'⟩ := h
  have hdefined : u'.functions = u.functions := hf'.trans (hfunctions.trans hf.symm)
  cases answer with
  | error s =>
    rw [Run.run_of_error (State.bind_of_error hu), Run.run_of_error (State.bind_of_error hu')]
    exact ⟨hlike, fun t ht => absurd ht (hstop s u hu t), fun _ => rfl, hdefined⟩
  | ok a =>
    rw [Run.run_congr (State.bind_of_ok hu), Run.run_congr (State.bind_of_ok hu')]
    exact hk a u u' hu hlike hdefined

/-- A truth value is one for every construct. -/
theorem asCondition_of_truth {v : Value} {holds : Bool} (h : v.truth? = some holds) (construct : Construct)
    (w : World) : ∃ events, asCondition construct v w = .ok holds { w with events := events } := by
  obtain ⟨events, hrecord⟩ := w.record_eq (.condition construct holds)
  unfold asCondition
  rw [h]
  exact ⟨events, congrArg (EStateM.Result.ok holds) hrecord⟩

end Words

section Loop
variable {b : Bounds} {n : Nat} {cond : Expr} {step : Stmt} {body : List Stmt} {rounds : Nat}

/-- A return in the body ends the loop, and the step and the condition do not run again. -/
theorem GoesRound.returns {k : Nat} {w w₁ w₂ w₃ : World} (h : GoesRound b n cond step body k w w₁)
    (hcond : (evaluate b n cond >>= asCondition .forLoop) w₁ = .ok true w₂) {v : Option Value}
    (hbody : executeBlock b n body w₂ = .ok (.returning v) w₃) (hrounds : k < rounds) :
    repeatWhile (evaluate b n cond >>= asCondition .forLoop) (executeBlock b n body) (discard (execute b n step)) rounds
      w = .ok (.returning v) w₃ := by
  obtain ⟨rounds, rfl⟩ := Nat.exists_eq_add_of_le' (Nat.zero_lt_of_lt hrounds)
  induction h generalizing rounds with
  | start w => simp only [repeatWhile, hcond, hbody]
  | @round k _ _ _ _ _ hw hnormal hstep _ ih =>
    have hpos := Nat.lt_of_le_of_lt (Nat.zero_le k) (Nat.lt_of_succ_lt_succ hrounds)
    obtain ⟨rounds, rfl⟩ := Nat.exists_eq_add_of_le' hpos
    simp only [repeatWhile, hw, hnormal, State.discard_of_ok hstep]
    exact ih hcond rounds (Nat.lt_of_succ_lt_succ hrounds)

/-- Where the condition holds, it can only be refused in a later round. -/
theorem refuses_succ {w w₁ : World} {t : Ty} (hcond : (evaluate b n cond >>= asCondition .forLoop) w = .ok true w₁) :
    Refuses b n cond step body (rounds + 1) w t ↔
      ∃ w₂ w₃, executeBlock b n body w₁ = .ok .normal w₂ ∧ execute b n step w₂ = .ok .normal w₃ ∧
        Refuses b n cond step body rounds w₃ t := by
  constructor
  · rintro (⟨heval, htruth⟩ | ⟨hcond', hbody, hstep, hlater⟩)
    · rw [State.bind_of_ok heval, asCondition, htruth] at hcond
      cases hcond
    · cases hcond.symm.trans hcond'
      exact ⟨_, _, hbody, hstep, hlater⟩
  · rintro ⟨w₂, w₃, hbody, hstep, hlater⟩
    exact .later hcond hbody hstep hlater

/-- What a loop does in a round behind its condition, and what follows the round. -/
def restOfRound (b : Bounds) (n : Nat) (step : Stmt) (body : List Stmt) (next : Run Flow) : Run Flow := do
  match ← executeBlock b n body with
  | .returning v => return .returning v
  | .normal =>
    discard (execute b n step)
    next

/-- The body and the step run alike, so that only what follows the round can be refused. -/
theorem restOfRound_expands (hstep : step.isStep = true) {w w₁ w₁' : World}
    (hcond : (evaluate b n cond >>= asCondition .forLoop) w = .ok true w₁) (hw₁ : w₁.Like w₁')
    (hf₁ : w₁'.functions = w₁.functions) {next next' : Run Flow}
    (hnext : ∀ w₃ w₃', w₃.Like w₃' → w₃'.functions = w₃.functions →
      (next.run w₃).Expands (Refuses b n cond step body rounds w₃) (next'.run w₃')) :
    ((restOfRound b n step body next).run w₁).Expands (Refuses b n cond step body (rounds + 1) w)
      ((restOfRound b n step body next').run w₁') := by
  have hself := followsWithin (S := fun _ => False) (Bounds.Reach.refl b) (.inl (Eq.refl n))
  refine ((hself.executeBlock body).endLike (hw₁.matches hf₁)).expands_bind hf₁ ?_ fun flow w₂ w₂' hbody hw₂ hf₂ => ?_
  · intro s u hu t ht
    obtain ⟨_, _, hbody, -⟩ := (refuses_succ hcond).mp ht
    cases hu.symm.trans hbody
  cases flow with
  | returning v =>
    refine ⟨hw₂, fun t ht => ?_, fun _ => rfl, hf₂⟩
    obtain ⟨_, _, hbody', -⟩ := (refuses_succ hcond).mp ht
    cases hbody.symm.trans hbody'
  | normal =>
    refine ((hself.execute step).discard.endLike (hw₂.matches hf₂)).expands_bind hf₂ ?_ fun _ w₃ w₃' hrun hw₃ hf₃ => ?_
    · intro s u hu t ht
      obtain ⟨_, _, hbody', hrun, -⟩ := (refuses_succ hcond).mp ht
      cases hbody.symm.trans hbody'
      cases hu.symm.trans (State.discard_of_ok hrun)
    · obtain ⟨flow, hrun⟩ := State.discard_eq_ok hrun
      obtain rfl := normal_of_header (.inr hstep) hrun
      have hrefuses : Refuses b n cond step body (rounds + 1) w = Refuses b n cond step body rounds w₃ := by
        funext t
        refine propext ((refuses_succ hcond).trans ⟨?_, fun ht => ⟨w₂, w₃, hbody, hrun, ht⟩⟩)
        rintro ⟨_, _, hbody', hrun', ht⟩
        cases hbody.symm.trans hbody'
        cases hrun.symm.trans hrun'
        exact ht
      rw [hrefuses]
      exact hnext w₃ w₃' hw₃ hf₃

/-- The same loop twice, called by the word for a loop with a header and by the one for a loop without. -/
theorem repeatWhile_expands (hstep : step.isStep = true) {w w' : World} (hw : w.Like w')
    (hf : w'.functions = w.functions) :
    Outcome.Expands (Refuses b n cond step body rounds w)
      (Run.run (repeatWhile (evaluate b n cond >>= asCondition .forLoop) (executeBlock b n body)
        (discard (execute b n step)) rounds) w)
      (Run.run (repeatWhile (evaluate b n cond >>= asCondition .whileLoop) (executeBlock b n body)
        (discard (execute b n step)) rounds) w') := by
  have hself := followsWithin (S := fun _ => False) (Bounds.Reach.refl b) (.inl (Eq.refl n))
  induction rounds generalizing w w' with
  | zero => exact ⟨hw, nofun, fun _ => rfl, hf⟩
  | succ rounds ih =>
    rw [repeatWhile_succ, repeatWhile_succ, bind_assoc, bind_assoc]
    refine ((hself.evaluate cond).endLike (hw.matches hf)).expands_bind hf ?_ fun v w₁ w₁' heval hw₁ hf₁ => ?_
    · rintro s u hu t (⟨heval, -⟩ | ⟨hcond, -⟩)
      · cases hu.symm.trans heval
      · cases (State.bind_of_error hu).symm.trans hcond
    cases htruth : v.truth? with
    | none =>
      -- only here the two loops differ
      have hrefuses : Refuses b n cond step body (rounds + 1) w v.ty := .now heval htruth
      simp only [asCondition, htruth]
      refine ⟨hw₁, ?_, fun hnone => absurd hrefuses (hnone v.ty), hf₁⟩
      rintro t (⟨heval', -⟩ | ⟨hcond, -⟩)
      · cases heval.symm.trans heval'
        exact ⟨rfl, rfl⟩
      · rw [State.bind_of_ok heval, asCondition, htruth] at hcond
        cases hcond
    | some holds =>
      obtain ⟨events, hu⟩ := asCondition_of_truth htruth .forLoop w₁
      obtain ⟨events', hu'⟩ := asCondition_of_truth htruth .whileLoop w₁'
      have hcond := (State.bind_of_ok heval).trans hu
      rw [Run.run_congr (State.bind_of_ok hu), Run.run_congr (State.bind_of_ok hu')]
      have hw₁ : World.Like { w₁ with events := events } { w₁' with events := events' } :=
        ⟨hw₁.store, hw₁.input, hw₁.output⟩
      cases holds with
      | false =>
        refine ⟨hw₁, ?_, fun _ => rfl, hf₁⟩
        rintro t (⟨heval', htruth'⟩ | ⟨hcond', -⟩)
        · cases heval.symm.trans heval'
          cases htruth.symm.trans htruth'
        · cases hcond.symm.trans hcond'
      | true => exact restOfRound_expands hstep hcond hw₁ hf₁ fun _ _ => ih

end Loop

/-! ### The expansion beside the loop -/

section Expansion
variable {b : Bounds} {n n' : Nat} {init step : Stmt} {cond : Expr} {body : List Stmt}

/-- The loop with a header, called by a word of its own. -/
def headed (construct : Construct) (b : Bounds) (n : Nat) (init : Stmt) (cond : Expr) (step : Stmt)
    (body : List Stmt) : Run Flow := do
  discard (execute b n init)
  repeatWhile (evaluate b n cond >>= asCondition construct) (executeBlock b n body) (discard (execute b n step))
    b.rounds

theorem execute_forLoop :
    execute b (n + 1) (.forLoop init cond step body) = headed .forLoop b n init cond step body := rfl

theorem headed_expands (hinit : init.isInit = true) (hstep : step.isStep = true) (b : Bounds) (n : Nat) (cond : Expr)
    (body : List Stmt) (w : World) :
    ((headed .forLoop b n init cond step body).run w).Expands (HeaderRefuses b n init cond step body w)
      ((headed .whileLoop b n init cond step body).run w) := by
  have hself := followsWithin (S := fun _ => False) (Bounds.Reach.refl b) (.inl (Eq.refl n))
  have hbegin := (hself.execute init).discard.endLike ((World.Like.refl w).matches rfl)
  refine hbegin.expands_bind rfl ?_ fun _ w₀ w₀' hrun hw₀ hf₀ => ?_
  · rintro s u hu t ⟨w₀, hrun, -⟩
    cases hu.symm.trans (State.discard_of_ok hrun)
  · obtain ⟨flow, hrun⟩ := State.discard_eq_ok hrun
    obtain rfl := normal_of_header (.inl hinit) hrun
    have hrefuses : HeaderRefuses b n init cond step body w = Refuses b n cond step body b.rounds w₀ := by
      funext t
      refine propext ⟨?_, fun ht => ⟨w₀, hrun, ht⟩⟩
      rintro ⟨_, hrun', ht⟩
      cases hrun.symm.trans hrun'
      exact ht
    rw [hrefuses]
    exact repeatWhile_expands hstep hw₀ hf₀

/-- Loops over the same condition, body and step with budgets that may be higher for the second one. -/
theorem loops_simulate (b : Bounds) (cond : Expr) (body : List Stmt) (step : Stmt) {i i' j j' k k' : Nat} (hi : i ≤ i')
    (hj : j ≤ j') (hk : k ≤ k') :
    Simulates (· = .failed .stackExhausted)
      (repeatWhile (evaluate b i cond >>= asCondition .whileLoop) (executeBlock b j body) (discard (execute b k step))
        b.rounds)
      (repeatWhile (evaluate b i' cond >>= asCondition .whileLoop) (executeBlock b j' body)
        (discard (execute b k' step)) b.rounds) :=
  have hwithin {m m' : Nat} (hm : m ≤ m') : SimulatesWithin (· = .failed .stackExhausted) b b m m' :=
    simulatesWithin (.refl b) (.inr ⟨hm, rfl⟩)
  .repeatWhile ((hwithin hi).condition cond .whileLoop) ((hwithin hj).executeBlock (.refl body))
    ((hwithin hk).execute (.refl step)).discard (.inl rfl)

/-- The loop and then its expansion, with a budget that is higher by the nesting of the step. -/
theorem headed_simulates (hinit : init.isInit = true) (hstep : step.isStep = true) (hn : n + 3 ≤ n') :
    Simulates (· = .failed .stackExhausted) (headed .whileLoop b n init cond step body)
      (executeBlock b n' (init.expansion cond step body)) := by
  obtain ⟨m', rfl⟩ := Nat.exists_eq_add_of_le' (Nat.le_of_add_left_le hn)
  rw [executeBlock_expansion hinit hstep]
  have hwithin : SimulatesWithin (· = .failed .stackExhausted) b b n (m' + 2) :=
    simulatesWithin (.refl b) (.inr ⟨by omega, rfl⟩)
  refine ((hwithin.execute (.refl init)).discard).bind fun _ => ?_
  exact loops_simulate b cond body step (by omega) (by omega) (by omega)

/-- The expansion and then the loop. -/
theorem simulates_headed (hinit : init.isInit = true) (hstep : step.isStep = true) (hn : n ≤ n' + 1) :
    Simulates (· = .failed .stackExhausted) (executeBlock b n (init.expansion cond step body))
      (headed .whileLoop b n' init cond step body) := by
  match n with
  | 0 => exact .stop rfl
  | 1 => exact .stop rfl
  | m + 2 =>
    rw [executeBlock_expansion hinit hstep]
    have hwithin : SimulatesWithin (· = .failed .stackExhausted) b b (m + 1) n' :=
      simulatesWithin (.refl b) (.inr ⟨by omega, rfl⟩)
    refine ((hwithin.execute (.refl init)).discard).bind fun _ => ?_
    exact loops_simulate b cond body step (by omega) (by omega) (by omega)

/-- A loop with a header does what its expansion does, in every world: it gives the same result or fails alike, and
    leaves the same variables, functions, input and output; and it goes on for ever where the expansion does. Only if
    it is stopped by its own condition the loop says `for` and the expansion `while`. The nesting is set aside: where
    the budget is enough for one of the two, it is enough for the other one with two more for the expansion. When the
    body returns after any number of rounds, the loop ends in the world that the body leaves, without its step and its
    condition. -/
theorem forLoop_expands (hinit : init.isInit = true) (hstep : step.isStep = true) (cond : Expr) (body : List Stmt)
    (b : Bounds) (w : World) :
    (∀ n n', n + 2 ≤ n' →
      ((execute b n (.forLoop init cond step body)).run w).answer ≠ .error (.failed .stackExhausted) →
      ((execute b n (.forLoop init cond step body)).run w).Expands (HeaderRefuses b (n - 1) init cond step body w)
        ((executeBlock b n' (init.expansion cond step body)).run w)) ∧
    (∀ n n', n ≤ n' →
      ((executeBlock b n (init.expansion cond step body)).run w).answer ≠ .error (.failed .stackExhausted) →
      ((execute b n' (.forLoop init cond step body)).run w).Expands (HeaderRefuses b (n' - 1) init cond step body w)
        ((executeBlock b n (init.expansion cond step body)).run w)) ∧
    ∀ n k v w₀ w₁ w₂ w₃, execute b n init w = .ok .normal w₀ → GoesRound b n cond step body k w₀ w₁ → k < b.rounds →
      (evaluate b n cond >>= asCondition .forLoop) w₁ = .ok true w₂ → executeBlock b n body w₂ = .ok (.returning v) w₃ →
      execute b (n + 1) (.forLoop init cond step body) w = .ok (.returning v) w₃ := by
  refine ⟨fun n n' hn hends => ?_, fun n n' hn hends => ?_, ?_⟩
  · cases n with
    | zero => exact absurd rfl hends
    | succ m =>
      rw [execute_forLoop] at hends ⊢
      have hwords := headed_expands hinit hstep b m cond body w
      rcases headed_simulates hinit hstep hn w w (.refl _ w) with h | ⟨s, u, hu, rfl⟩
      · exact hwords.trans_alike (h.alike rfl)
      · have hanswer := congrArg Outcome.answer (Run.run_of_error hu)
        refine absurd ((hwords.answer_eq fun t => ?_).trans hanswer) hends
        rw [hanswer]
        nofun
  · cases n' with
    | zero =>
      cases Nat.le_zero.mp hn
      exact absurd rfl hends
    | succ m' =>
      rw [execute_forLoop]
      have hwords := headed_expands hinit hstep b m' cond body w
      rcases simulates_headed hinit hstep hn w w (.refl _ w) with h | ⟨s, u, hu, rfl⟩
      · exact hwords.trans_alike (h.alike rfl).symm
      · exact absurd (congrArg Outcome.answer (Run.run_of_error hu)) hends
  · intro n k v w₀ w₁ w₂ w₃ hrun hrounds hk hcond hbody
    exact (State.bind_of_ok (State.discard_of_ok hrun)).trans (hrounds.returns hcond hbody hk)

/-- The world of a program with a global bound, and with a function that reads a line and adds one. -/
def readingWorld : World :=
  { World.start "a\nb\nc\n" false with
    store := ⟨[("limit", ⟨.int, some (.int 3)⟩), ("line", ⟨.string, none⟩)], []⟩
    functions := [("next", ⟨"next", [⟨"n", .int⟩], .int,
      [.varDecl "line" .string none, .input "line", .ret (some (.binary (.var "n") .add (.literal (.int 1))))]⟩)] }

/-- The parts of the loop `for (var i: int = 0; i < limit; i = next(i))`, with a body that returns in the second
    round. -/
def readingInit : Stmt := .varDecl "i" .int (some (.literal (.int 0)))

def readingCond : Expr := .binary (.var "i") .lt (.var "limit")

def readingStep : Stmt := .assign "i" (.call "next" [.var "i"])

def readingBody : List Stmt :=
  [.print (.var "i"), .ifThen (.binary (.var "i") .eq (.literal (.int 1))) [.ret (some (.var "i"))]]

/-- A body with a loop inside whose condition is no truth value. -/
def refusedInside : List Stmt := [.forLoop readingInit (.var "limit") readingStep []]

/-- One line has been read when the loop and its expansion return. With the bound itself for a condition they fail, each
    with its own word; but both with the word of the loop inside when it is that one's condition. -/
theorem readingLoop_expands :
    readingInit.isInit = true ∧ readingStep.isStep = true ∧
    ((execute ⟨9, 5⟩ 20 (.forLoop readingInit readingCond readingStep readingBody)).run readingWorld).Expands
      (HeaderRefuses ⟨9, 5⟩ 19 readingInit readingCond readingStep readingBody readingWorld)
      ((executeBlock ⟨9, 5⟩ 22 (readingInit.expansion readingCond readingStep readingBody)).run readingWorld) ∧
    (∃ w₃, execute ⟨9, 5⟩ 20 (.forLoop readingInit readingCond readingStep readingBody) readingWorld =
      .ok (.returning (some (.int 1))) w₃ ∧ w₃.input = "b\nc\n".toList ∧ w₃.output = "0\nline = 1\n") ∧
    ((execute ⟨9, 5⟩ 20 (.forLoop readingInit (.var "limit") readingStep readingBody)).run readingWorld).Expands
      (HeaderRefuses ⟨9, 5⟩ 19 readingInit (.var "limit") readingStep readingBody readingWorld)
      ((executeBlock ⟨9, 5⟩ 20 (readingInit.expansion (.var "limit") readingStep readingBody)).run readingWorld) ∧
    ((execute ⟨9, 5⟩ 20 (.forLoop readingInit (.var "limit") readingStep readingBody)).run readingWorld).answer =
      .error (.failed (.conditionNotBool .forLoop .int)) ∧
    ((executeBlock ⟨9, 5⟩ 20 (readingInit.expansion (.var "limit") readingStep readingBody)).run readingWorld).answer =
      .error (.failed (.conditionNotBool .whileLoop .int)) ∧
    (∀ t, ¬HeaderRefuses ⟨9, 5⟩ 19 readingInit readingCond readingStep refusedInside readingWorld t) ∧
    ((executeBlock ⟨9, 5⟩ 22 (readingInit.expansion readingCond readingStep refusedInside)).run readingWorld).answer =
      .error (.failed (.conditionNotBool .forLoop .int)) := by
  have hinit : readingInit.isInit = true := rfl
  have hstep : readingStep.isStep = true := rfl
  obtain ⟨hloop, -, hreturn⟩ := forLoop_expands hinit hstep readingCond readingBody ⟨9, 5⟩ readingWorld
  obtain ⟨-, hrefused, -⟩ := forLoop_expands hinit hstep (.var "limit") readingBody ⟨9, 5⟩ readingWorld
  obtain ⟨hinside, -, -⟩ := forLoop_expands hinit hstep readingCond refusedInside ⟨9, 5⟩ readingWorld
  -- the loop has gone round once when its body returns
  have hreturned := hreturn 19 1 _ _ _ _ _ rfl (.round rfl rfl rfl (.start _)) (by decide) rfl rfl
  refine ⟨hinit, hstep, hloop 20 22 (by decide) nofun, ⟨_, hreturned, rfl, rfl⟩, hrefused 20 20 (by decide) nofun, rfl,
    rfl, fun t ht => ?_, rfl⟩
  cases ((hinside 20 22 (by decide) nofun).refused t ht).2

end Expansion
end Execution
end TypedImp
