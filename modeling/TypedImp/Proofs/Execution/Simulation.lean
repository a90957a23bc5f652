import TypedImp.Proofs.Execution.Judgment
import TypedImp.Proofs.Execution.Step
import TypedImp.Proofs.Program.Trimming

/-! Two runs side by side. The second one may have higher bounds, may know functions that the first one lacks, and its
    statements and functions may have some of their blocks cut behind a return. Both read and change the same variables,
    the same input and the same output, step by step, unless the first one stops for the lack of what the second one
    has. -/

namespace TypedImp
namespace Execution
open Stmt (Cut)

variable {α β : Type} {S : Stop → Prop}

/-! ### Worlds and bounds -/

/-- Worlds with the same variables, the same input left and the same output. The events do not count. -/
structure World.Like (w w' : World) : Prop where
  store : w'.store = w.store
  input : w'.input = w.input
  output : w'.output = w.output

/-- The second number is the first one, or it is no less and `S` admits a stop for the lack of more. -/
def Reaches (S : Stop → Prop) (s : Stop) (n n' : Nat) : Prop := n' = n ∨ (n ≤ n' ∧ S s)

/-- The second bounds are the first ones, or `S` admits the stops at the first ones. -/
structure Bounds.Reach (S : Stop → Prop) (b b' : Bounds) : Prop where
  calls : b'.calls = b.calls ∨ (b.calls ≤ b'.calls ∧ ∀ limit x, S (.failed (.depthExceeded limit x)))
  rounds : Reaches S .outOfFuel b.rounds b'.rounds

section Bounds
variable {s : Stop} {n n' : Nat} {w w' : World}

theorem World.Like.refl (w : World) : w.Like w := ⟨rfl, rfl, rfl⟩

theorem World.Like.trans {u : World} (h : u.Like w) (h' : w.Like w') : u.Like w' :=
  ⟨h'.store.trans h.store, h'.input.trans h.input, h'.output.trans h.output⟩

theorem World.Like.symm (h : w.Like w') : w'.Like w := ⟨h.store.symm, h.input.symm, h.output.symm⟩

theorem Bounds.Reach.refl (b : Bounds) : b.Reach S b := ⟨.inl rfl, .inl rfl⟩

theorem Reaches.zero (h : Reaches S s 0 n') : n' = 0 ∨ S s := h.imp_right fun h => h.2

theorem Reaches.succ (h : Reaches S s (n + 1) n') : ∃ k, n' = k + 1 ∧ Reaches S s n k := by
  rcases h with rfl | ⟨hle, hs⟩
  · exact ⟨n, rfl, .inl rfl⟩
  · obtain ⟨k, rfl⟩ := Nat.exists_eq_add_of_le' (Nat.one_le_of_lt hle)
    exact ⟨k, rfl, .inr ⟨Nat.le_of_succ_le_succ hle, hs⟩⟩

end Bounds

/-! ### Runs and worlds that match -/

/-- Like worlds, of which the second one knows the same functions with blocks cut behind a return, and others only if
    the first run may stop, as `S` says, for their lack. -/
structure World.Matched (S : Stop → Prop) (w w' : World) : Prop extends w.Like w' where
  functions : ∀ x, Option.Rel Function.Trims (w.functions.get? x) (w'.functions.get? x) ∨
    (w.functions.get? x = none ∧ S (.failed (.undefinedFunction x)))

theorem World.Matched.refl (S : Stop → Prop) (w : World) : w.Matched S w :=
  ⟨.refl w, fun _ => .inl (Function.Trims.relates_self _)⟩

/-- From `w` and `w'` the runs give the same answer in like worlds, and define no functions. -/
def EndLike (r r' : Run α) (w w' : World) : Prop :=
  ∃ answer u u', r w = endIn answer u ∧ r' w' = endIn answer u' ∧ u.Like u' ∧
    u.functions = w.functions ∧ u'.functions = w'.functions

/-- From matched worlds the runs end alike, or the first one stops as `S` says, for the lack of something. -/
def Simulates (S : Stop → Prop) (r r' : Run α) : Prop :=
  ∀ w w', w.Matched S w' → EndLike r r' w w' ∨ ∃ s u, r w = .error s u ∧ S s

/-- The first run finds no function that the second one does not find, and makes no call that is too deep for it. -/
theorem World.Matched.callable {b b' : Bounds} (hb : b.Reach S b') {w w' : World}
    (hw : w.Matched S w') (x : String) (arity : Nat) :
    (∃ f f', callable b w.functions w.store.depth x arity = .ok f ∧
      callable b' w'.functions w'.store.depth x arity = .ok f' ∧ f.Trims f') ∨
    ∃ s, callable b w.functions w.store.depth x arity = .error s ∧
      (callable b' w'.functions w'.store.depth x arity = .error s ∨ S s) := by
  unfold Execution.callable
  rw [hw.store]
  rcases hw.functions x with hx | ⟨hx, hs⟩
  · cases hf : w.functions.get? x with
    | none =>
      rw [hf] at hx
      generalize w'.functions.get? x = o at hx
      cases hx
      exact .inr ⟨_, rfl, .inl rfl⟩
    | some f =>
      rw [hf] at hx
      generalize w'.functions.get? x = o at hx
      obtain ⟨f', rfl, htrims⟩ : ∃ f', o = some f' ∧ f.Trims f' := by
        cases hx with
        | some h => exact ⟨_, rfl, h⟩
      dsimp only
      rw [htrims.name, htrims.params]
      by_cases harity : arity = f.params.length
      · rw [if_neg (not_not_intro harity), if_neg (not_not_intro harity)]
        by_cases hdepth : b.calls ≤ w.store.depth
        · rw [if_pos hdepth]
          refine .inr ⟨_, rfl, ?_⟩
          rcases hb.calls with hcalls | ⟨-, hs⟩
          · rw [hcalls, if_pos hdepth]
            exact .inl rfl
          · exact .inr (hs _ _)
        · have hdepth' : ¬b'.calls ≤ w.store.depth := by
            rcases hb.calls with hcalls | ⟨hle, -⟩
            · rwa [hcalls]
            · exact fun h => hdepth (Int.le_trans hle h)
          rw [if_neg hdepth, if_neg hdepth']
          exact .inl ⟨f, f', rfl, rfl, htrims⟩
      · rw [if_pos harity, if_pos harity]
        exact .inr ⟨_, rfl, .inl rfl⟩
  · rw [hx]
    exact .inr ⟨_, rfl, .inr hs⟩

/-! ### Runs side by side -/

section Runs
variable {P : α → Prop} {r r' : Run α}

namespace Simulates

theorem silent (h : Silent r P) : Simulates S r r := by
  obtain ⟨answer, -, hr⟩ := h
  intro w w' hw
  obtain ⟨events, hu⟩ := hr w
  obtain ⟨events', hu'⟩ := hr w'
  exact .inl ⟨answer, _, _, hu, hu', ⟨hw.store, hw.input, hw.output⟩, rfl, rfl⟩

theorem pure (a : α) : Simulates S (pure a) (pure a) := silent (.pure (P := fun _ => True) trivial)

theorem fail (e : Error) : Simulates S (Run.fail e : Run α) (Run.fail e) := silent (.fail (P := fun _ => True) e)

/-- A stop for a lack may be anything in the second run. -/
theorem stop {s : Stop} (h : S s) : Simulates S (fun w => .error s w) r' := fun w _ _ => .inr ⟨s, w, rfl, h⟩

theorem bind {k k' : α → Run β} (h : Simulates S r r') (hk : ∀ a, Simulates S (k a) (k' a)) :
    Simulates S (r >>= k) (r' >>= k') := by
  intro w w' hw
  rcases h w w' hw with ⟨answer, u, u', hu, hu', hlike, hf, hf'⟩ | ⟨s, u, hu, hs⟩
  · cases answer with
    | error s => exact .inl ⟨.error s, u, u', State.bind_of_error hu, State.bind_of_error hu', hlike, hf, hf'⟩
    | ok a =>
      have hmatched : u.Matched S u' := ⟨hlike, hf ▸ hf' ▸ hw.functions⟩
      rcases hk a u u' hmatched with ⟨answer, v, v', hv, hv', hlike, hg, hg'⟩ | ⟨s, v, hv, hs⟩
      · exact .inl ⟨answer, v, v', (State.bind_of_ok hu).trans hv, (State.bind_of_ok hu').trans hv', hlike,
          hg.trans hf, hg'.trans hf'⟩
      · exact .inr ⟨s, v, (State.bind_of_ok hu).trans hv, hs⟩
  · exact .inr ⟨s, u, State.bind_of_error hu, hs⟩

theorem discard (h : Simulates S r r') : Simulates S (discard r) (discard r') := h.bind fun _ => .pure _

/-- Where nothing counts as a lack, both end alike. -/
theorem endLike {w w' : World} (h : Simulates (fun _ => False) r r') (hw : w.Matched (fun _ => False) w') :
    EndLike r r' w w' := by
  refine (h w w' hw).resolve_right ?_
  rintro ⟨_, _, -, hs⟩
  exact hs

/-! ### Steps -/

/-- A value is made one of a type, or refused. -/
theorem require (v : Value) (t : Ty) (otherwise : Ty → Error) :
    Simulates S (Run.require v t otherwise) (Run.require v t otherwise) :=
  silent (.require (P := fun _ => True) (fun _ _ => trivial) otherwise)

/-- A question to the store. -/
theorem ask (question : Store → Except StoreError α) : Simulates S (Run.ask question) (Run.ask question) := by
  intro w w' hw
  have hw' := Run.ask_eq question w'
  rw [hw.store] at hw'
  exact .inl ⟨_, _, _, Run.ask_eq question w, hw', hw.toLike, rfl, rfl⟩

/-- What is traced does not count. -/
theorem record (e : Event) : Simulates S (Run.record e) (Run.record e) := by
  intro w w' hw
  obtain ⟨events, hu⟩ := w.record_eq e
  obtain ⟨events', hu'⟩ := w'.record_eq e
  exact .inl ⟨.ok (), _, _, congrArg (EStateM.Result.ok ()) hu, congrArg (EStateM.Result.ok ()) hu',
    ⟨hw.store, hw.input, hw.output⟩, rfl, rfl⟩

theorem declareVariable (x : String) (t : Ty) (v : Option Value) :
    Simulates S (declareVariable x t v) (declareVariable x t v) := by
  intro w w' hw
  obtain ⟨events, hu⟩ := declareVariable_eq x t v w
  obtain ⟨events', hu'⟩ := declareVariable_eq x t v w'
  exact .inl ⟨.ok (), _, _, hu, hu', ⟨congrArg (·.declare x t v) hw.store, hw.input, hw.output⟩, rfl, rfl⟩

theorem assignVariable (x : String) (v : Value) : Simulates S (assignVariable x v) (assignVariable x v) := by
  intro w w' hw
  have hu := assignVariable_eq x v w
  have hu' := assignVariable_eq x v w'
  rw [hw.store] at hu'
  cases hs : w.store.set x v with
  | ok s =>
    rw [hs] at hu hu'
    exact .inl ⟨.ok (), _, _, hu, hu', ⟨rfl, hw.input, hw.output⟩, rfl, rfl⟩
  | error e =>
    rw [hs] at hu hu'
    exact .inl ⟨.error _, _, _, hu, hu', hw.toLike, rfl, rfl⟩

theorem printValue (v : Value) : Simulates S (printValue v) (printValue v) := by
  intro w w' hw
  have hu := printValue_eq v w
  have hu' := printValue_eq v w'
  cases hlong : v.isTooLong with
  | true =>
    rw [if_pos hlong] at hu hu'
    exact .inl ⟨.error _, _, _, hu, hu', hw.toLike, rfl, rfl⟩
  | false =>
    rw [if_neg (Bool.not_eq_true _ ▸ hlong)] at hu hu'
    exact .inl ⟨.ok (), _, _, hu, hu', ⟨hw.store, hw.input, congrArg (· ++ (v.text ++ "\n")) hw.output⟩, rfl, rfl⟩

/-- Both ask for the same variable, and take the same line. -/
theorem readVariable (x : String) : Simulates S (readVariable x) (readVariable x) := by
  intro w w' hw
  have hu := readVariable_eq x w
  have hu' := readVariable_eq x w'
  have hwritten : (w.write (x ++ " = ")).Like (w'.write (x ++ " = ")) :=
    ⟨hw.store, hw.input, congrArg (· ++ (x ++ " = ")) hw.output⟩
  rw [hw.store, hw.input] at hu'
  cases hx : w.store.lookup x with
  | error e =>
    rw [hx] at hu hu'
    exact .inl ⟨.error _, _, _, hu, hu', hw.toLike, rfl, rfl⟩
  | ok c =>
    simp only [hx] at hu hu'
    cases hline : World.nextLine? w.input with
    | none =>
      simp only [hline] at hu hu'
      exact .inl ⟨.error _, _, _, hu, hu', hwritten, rfl, rfl⟩
    | some l =>
      simp only [hline] at hu hu'
      cases hread : Value.read c.ty l.1 with
      | error e =>
        simp only [hread] at hu hu'
        exact .inl ⟨.error _, _, _, hu, hu', ⟨hwritten.store, rfl, hwritten.output⟩, rfl, rfl⟩
      | ok v =>
        simp only [hread] at hu hu'
        exact .inl ⟨.ok (), _, _, hu, hu', ⟨rfl, rfl, hwritten.output⟩, rfl, rfl⟩

theorem asCondition (construct : Construct) (v : Value) :
    Simulates S (asCondition construct v) (asCondition construct v) := by
  unfold Execution.asCondition
  cases v.truth? with
  | some holds => exact (record _).bind fun _ => .pure _
  | none => exact .fail _

/-! ### Calls, blocks and loops -/

/-- The same frame is pushed and dropped in both worlds. -/
theorem inFrame (frame : Frame) (h : Simulates S r r') : Simulates S (Run.inFrame frame r) (Run.inFrame frame r') := by
  intro w w' hw
  have hpush : World.Matched S { w with store := w.store.push frame } { w' with store := w'.store.push frame } :=
    ⟨⟨congrArg (·.push frame) hw.store, hw.input, hw.output⟩, hw.functions⟩
  rcases h _ _ hpush with ⟨answer, u, u', hu, hu', hlike, hf, hf'⟩ | ⟨s, u, hu, hs⟩
  · exact .inl ⟨answer, _, _, Run.inFrame_of_endIn hu, Run.inFrame_of_endIn hu',
      ⟨congrArg Store.dropFrame hlike.store, hlike.input, hlike.output⟩, hf, hf'⟩
  · exact .inr ⟨s, _, @Run.inFrame_of_endIn _ _ _ _ _ (.error s) hu, hs⟩

theorem resultOf (f : Function) (flow : Flow) : Simulates S (resultOf f flow) (resultOf f flow) := by
  unfold Execution.resultOf
  split
  · split
    · exact .fail _
    · exact .pure _
  · split
    · exact (require _ f.result _).bind fun u => .pure _
    · exact .fail _

theorem repeatWhile {condition condition' : Run Bool} {body body' : Run Flow} {step step' : Run Unit}
    (hc : Simulates S condition condition') (hb : Simulates S body body') (hs : Simulates S step step') {n n' : Nat}
    (hn : Reaches S .outOfFuel n n') :
    Simulates S (repeatWhile condition body step n) (repeatWhile condition' body' step' n') := by
  induction n generalizing n' with
  | zero =>
    rcases hn.zero with rfl | hfuel
    · exact .silent (.stop (P := fun _ => True) .outOfFuel)
    · exact .stop hfuel
  | succ n ih =>
    obtain ⟨k, rfl, hk⟩ := hn.succ
    rw [repeatWhile_succ, repeatWhile_succ]
    refine hc.bind fun holds => ?_
    split
    · refine hb.bind fun flow => ?_
      split
      · exact .pure _
      · exact hs.bind fun _ => ih hk
    · exact .pure _

theorem bindArguments {run run' : Expr → Run Value} (h : ∀ e, Simulates S (run e) (run' e)) (name : String)
    (index : Nat) (params : List Param) (args : List Expr) :
    Simulates S (bindArguments run name index params args) (bindArguments run' name index params args) := by
  induction params generalizing index args with
  | nil => exact .pure _
  | cons p params ih =>
    cases args with
    | nil => exact .pure _
    | cons e args =>
      refine (h e).bind fun v => (require v p.ty _).bind fun u => ?_
      exact (ih (index + 1) args).bind fun rest => .pure _

end Simulates
end Runs

/-! ### Expressions and statements -/

/-- What runs within two budgets, of which the second one reaches at least as far as the first. -/
structure SimulatesWithin (S : Stop → Prop) (b b' : Bounds) (n n' : Nat) : Prop where
  evaluate : ∀ e, Simulates S (evaluate b n e) (evaluate b' n' e)
  call : ∀ x args, Simulates S (call b n x args) (call b' n' x args)
  execute : ∀ {s s'}, s.Trims s' → Simulates S (execute b n s) (execute b' n' s')
  executeBlock : ∀ {ss ss'}, Cut Stmt.Trims ss ss' → Simulates S (executeBlock b n ss) (executeBlock b' n' ss')

section Nested
variable {b b' : Bounds} {n n' : Nat}

theorem SimulatesWithin.evaluate_succ (h : SimulatesWithin S b b' n n') (e : Expr) :
    Simulates S (Execution.evaluate b (n + 1) e) (Execution.evaluate b' (n' + 1) e) := by
  unfold Execution.evaluate
  cases e with
  | literal v => exact .pure v
  | var name => exact .ask _
  | unary op operand =>
    exact (h.evaluate operand).bind fun v => .silent (.operate (P := fun _ => True) fun _ _ => trivial)
  | binary left op right =>
    refine (h.evaluate left).bind fun l => ?_
    split
    · refine Simulates.bind (.silent (.asBool op l)) fun decided => ?_
      split
      · exact .pure l
      · exact (h.evaluate right).bind fun r => (Simulates.silent (.asBool op r)).discard.bind fun _ => .pure r
    · exact (h.evaluate right).bind fun r => .silent (.operate (P := fun _ => True) fun _ _ => trivial)
  | call name args =>
    refine (h.call name args).bind fun o => ?_
    split
    · exact .pure _
    · exact .fail _
  | stray node => exact .fail _
  | misnamed name node => exact .fail _

/-- Both find a function, and bind its parameters to the same arguments. -/
theorem SimulatesWithin.call_succ (h : SimulatesWithin S b b' n n') (hb : b.Reach S b') (x : String)
    (args : List Expr) : Simulates S (Execution.call b (n + 1) x args) (Execution.call b' (n' + 1) x args) := by
  rw [Execution.call_succ, Execution.call_succ]
  intro w w' hw
  have hu := callee_eq b x args.length w
  have hu' := callee_eq b' x args.length w'
  rcases hw.callable hb x args.length with ⟨f, f', hf, hf', htrims⟩ | ⟨s, hf, hf' | hs⟩
  · rw [hf] at hu
    rw [hf'] at hu'
    have hbody := h.executeBlock htrims.body
    obtain ⟨name, params, result, body'⟩ := f'
    obtain ⟨rfl, rfl, rfl, -⟩ := htrims
    rw [EndLike, State.bind_of_ok hu, State.bind_of_ok hu']
    refine Simulates.bind (.bindArguments h.evaluate f.name 1 f.params args) (fun entries => ?_) w w' hw
    refine Simulates.bind (.silent (.reportCall f.name _)) fun _ => ?_
    exact (Simulates.inFrame _ hbody).bind fun flow => .resultOf f flow
  · rw [hf] at hu
    rw [hf'] at hu'
    exact .inl ⟨.error s, _, _, State.bind_of_error hu, State.bind_of_error hu', hw.toLike, rfl, rfl⟩
  · rw [hf] at hu
    exact .inr ⟨s, w, State.bind_of_error hu, hs⟩

theorem SimulatesWithin.condition (h : SimulatesWithin S b b' n n') (cond : Expr) (construct : Construct) :
    Simulates S (Execution.evaluate b n cond >>= asCondition construct)
      (Execution.evaluate b' n' cond >>= asCondition construct) :=
  (h.evaluate cond).bind fun v => .asCondition construct v

theorem SimulatesWithin.execute_succ (h : SimulatesWithin S b b' n n') (hb : b.Reach S b') {s s' : Stmt}
    (hs : s.Trims s') : Simulates S (Execution.execute b (n + 1) s) (Execution.execute b' (n' + 1) s') := by
  unfold Execution.execute
  cases hs with
  | ifThen hbody =>
    refine (h.evaluate _).bind fun v => (Simulates.asCondition _ v).bind fun holds => ?_
    split
    · exact h.executeBlock hbody
    · exact .pure _
  | ifElse hyes hno =>
    refine (h.evaluate _).bind fun v => (Simulates.asCondition _ v).bind fun holds => ?_
    split
    · exact h.executeBlock hyes
    · exact h.executeBlock hno
  | whileLoop hbody => exact .repeatWhile (h.condition _ _) (h.executeBlock hbody) (.pure _) hb.rounds
  | forLoop hinit hstep hbody =>
    refine (h.execute hinit).discard.bind fun _ => ?_
    exact .repeatWhile (h.condition _ _) (h.executeBlock hbody) (h.execute hstep).discard hb.rounds
  | function hbody => exact .fail _
  | block hbody => exact h.executeBlock hbody
  | leaf hleaf =>
    cases s with
    | varDecl name ty init =>
      cases init with
      | none => exact (Simulates.declareVariable name ty none).bind fun _ => .pure _
      | some e =>
        refine (h.evaluate e).bind fun v => (Simulates.require v ty _).bind fun u => ?_
        exact (Simulates.declareVariable name ty (some u)).bind fun _ => .pure _
    | assign name value =>
      refine (Simulates.ask _).bind fun target => (h.evaluate value).bind fun v => ?_
      refine Simulates.bind (.silent (.widen (P := fun _ => True) fun _ _ => trivial)) fun u => ?_
      exact (Simulates.assignVariable name u).bind fun _ => .pure _
    | print e => exact (h.evaluate e).bind fun v => (Simulates.printValue v).bind fun _ => .pure _
    | input name => exact (Simulates.readVariable name).bind fun _ => .pure _
    | ret value =>
      cases value with
      | none => exact .pure _
      | some e => exact (h.evaluate e).bind fun v => .pure _
    | expr e =>
      cases e with
      | call name args => exact (h.call name args).discard.bind fun _ => .pure _
      | _ => exact (h.evaluate _).discard.bind fun _ => .pure _
    | stray node => exact .fail _
    | misnamed name init node =>
      cases init with
      | none => exact (Simulates.pure ()).bind fun _ => .fail (.misnamed name)
      | some d => exact (h.evaluate d.2).bind fun v => (Simulates.require v d.1 _).discard.bind fun _ => .fail _
    | notBlock node => exact .fail _
    | ifThen | ifElse | whileLoop | forLoop | function | block => cases hleaf

theorem returning_of_execute_ret {value : Option Expr} {flow : Flow} {w u : World}
    (h : execute b n (.ret value) w = .ok flow u) : ∃ v, flow = .returning v := by
  cases n with
  | zero => cases h
  | succ n =>
    cases value with
    | none =>
      cases h
      exact ⟨none, rfl⟩
    | some e =>
      obtain ⟨v, w₁, -, hv⟩ := State.bind_eq_ok h
      cases hv
      exact ⟨some v, rfl⟩

/-- Nothing follows a statement that returns. -/
theorem sequence_ret (b : Bounds) (n : Nat) (value : Option Expr) (ss : List Stmt) :
    sequence (execute b n) (.ret value :: ss) = sequence (execute b n) [.ret value] := by
  funext w
  cases hret : execute b n (.ret value) w with
  | error e u => exact (State.bind_of_error hret).trans (State.bind_of_error hret).symm
  | ok flow u =>
    obtain ⟨v, rfl⟩ := returning_of_execute_ret hret
    rw [sequence, sequence, State.bind_of_ok hret, State.bind_of_ok hret]

theorem SimulatesWithin.executeBlock_succ (h : SimulatesWithin S b b' n n') {ss ss' : List Stmt}
    (hss : Cut Stmt.Trims ss ss') :
    Simulates S (Execution.executeBlock b (n + 1) ss) (Execution.executeBlock b' (n' + 1) ss') := by
  show Simulates S (sequence (Execution.execute b n) ss) (sequence (Execution.execute b' n') ss')
  induction hss with
  | nil => exact .pure _
  | cons hs _ ih =>
    refine (h.execute hs).bind fun flow => ?_
    split
    · exact ih
    · exact .pure _
  | behind ss =>
    rw [sequence_ret]
    refine (h.execute (.leaf rfl)).bind fun flow => ?_
    split
    · exact .pure _
    · exact .pure _

/-- Within every budget that reaches as far. -/
theorem simulatesWithin (hb : b.Reach S b') (hn : Reaches S (.failed .stackExhausted) n n') :
    SimulatesWithin S b b' n n' := by
  induction n generalizing n' with
  | zero =>
    rcases hn.zero with rfl | hs
    · exact ⟨fun _ => .fail .stackExhausted, fun _ _ => .fail .stackExhausted, fun _ => .fail .stackExhausted,
        fun _ => .fail .stackExhausted⟩
    · exact ⟨fun _ => .stop hs, fun _ _ => .stop hs, fun _ => .stop hs, fun _ => .stop hs⟩
  | succ n ih =>
    obtain ⟨k, rfl, hk⟩ := hn.succ
    exact ⟨(ih hk).evaluate_succ, (ih hk).call_succ hb, (ih hk).execute_succ hb, (ih hk).executeBlock_succ⟩

end Nested

end Execution
end TypedImp
