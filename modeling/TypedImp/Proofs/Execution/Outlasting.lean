import TypedImp.Proofs.Execution.Lockstep
import TypedImp.Proofs.Execution.TypeSoundness

/-! The bounds of a run. A run that stops at none of its bounds does not depend on them: with a higher bound on
    calls, or with more rounds for its loops, it ends in the same way. Only a bound that is beyond what the machine
    can count changes it, because the machine refuses to begin. -/

namespace TypedImp
namespace Execution

variable {α : Type}

/-! ### Stops and outcomes -/

/-- The stops that come from the bounds of a run. -/
inductive Stop.IsBound : Stop → Prop
  | outOfFuel : IsBound .outOfFuel
  | stackExhausted : IsBound (.failed .stackExhausted)
  | depthExceeded {limit : Int} {name : String} : IsBound (.failed (.depthExceeded limit name))

/-- Outcomes that differ at most in what has been traced. -/
structure Outcome.Alike (o o' : Outcome α) : Prop where
  answer : o'.answer = o.answer
  store : o'.world.store = o.world.store
  functions : o'.world.functions = o.world.functions
  input : o'.world.input = o.world.input
  output : o'.world.output = o.world.output

namespace Outcome.Alike
variable {o o' o'' : Outcome α}

theorem refl (o : Outcome α) : o.Alike o := ⟨rfl, rfl, rfl, rfl, rfl⟩

theorem symm (h : o.Alike o') : o'.Alike o :=
  ⟨h.answer.symm, h.store.symm, h.functions.symm, h.input.symm, h.output.symm⟩

theorem trans (h : o.Alike o') (h' : o'.Alike o'') : o.Alike o'' :=
  ⟨h'.answer.trans h.answer, h'.store.trans h.store, h'.functions.trans h.functions, h'.input.trans h.input,
    h'.output.trans h.output⟩

end Outcome.Alike

theorem Run.run_congr {r r' : Run α} {w w' : World} (h : r w = r' w') : r.run w = r'.run w' := by
  unfold Run.run
  rw [h]

theorem Run.run_of_endIn {r : Run α} {w u : World} {answer : Except Stop α} (h : r w = endIn answer u) :
    r.run w = ⟨answer, u⟩ := by
  cases answer with
  | ok a => exact Run.run_of_ok h
  | error s => exact Run.run_of_error h

theorem EndLike.alike {r r' : Run α} {w w' : World} (h : EndLike r r' w w')
    (hfunctions : w'.functions = w.functions) : (r.run w).Alike (r'.run w') := by
  obtain ⟨answer, u, u', hu, hu', hlike, hf, hf'⟩ := h
  rw [Run.run_of_endIn hu, Run.run_of_endIn hu']
  exact ⟨rfl, hlike.store, hf'.trans (hfunctions.trans hf.symm), hlike.input, hlike.output⟩

/-! ### Bounds -/

section Bounds
variable {b b' : Bounds}

theorem Bounds.budget_mono (h : b.calls ≤ b'.calls) : b.budget ≤ b'.budget := by
  unfold Bounds.budget
  omega

/-- A lower bound on calls is granted where a higher one is. -/
theorem Bounds.isGranted_of_le (h : b.calls ≤ b'.calls) (hgranted : b'.isGranted = true) : b.isGranted = true := by
  unfold Bounds.isGranted at *
  have := Bounds.budget_mono h
  simp only [decide_eq_true_eq] at *
  omega

theorem Bounds.reach_of_le (hcalls : b.calls ≤ b'.calls) (hrounds : b.rounds ≤ b'.rounds) :
    b.Reach Stop.IsBound b' :=
  ⟨.inr ⟨hcalls, fun _ _ => .depthExceeded⟩, .inr ⟨hrounds, .outOfFuel⟩⟩

end Bounds

/-! ### Programs -/

/-- A program that stops at none of its bounds runs in the same way under all higher ones that the machine grants:
    it gives the same answer, and leaves the same variables, functions, input and output. -/
theorem runProgram_outlasts {b b' : Bounds} (hcalls : b.calls ≤ b'.calls) (hrounds : b.rounds ≤ b'.rounds)
    (hgranted : b.isGranted = true → b'.isGranted = true) (p : Program) (w : World)
    (hends : ∀ s, ((runProgram b p).run w).answer = .error s → ¬s.IsBound) :
    ((runProgram b p).run w).Alike ((runProgram b' p).run w) := by
  cases hb : b.isGranted with
  | false =>
    have hb' : b'.isGranted = false := by
      rw [← Bool.not_eq_true] at hb ⊢
      exact fun h => hb (Bounds.isGranted_of_le hcalls h)
    rw [run_runProgram_refused hb, run_runProgram_refused hb']
    exact .refl _
  | true =>
    rw [run_runProgram hb] at hends ⊢
    rw [run_runProgram (hgranted hb)]
    have hwithin := followsWithin (Bounds.reach_of_le hcalls hrounds)
      (.inr ⟨Bounds.budget_mono hcalls, .stackExhausted⟩)
    have hstart : World.Matches Stop.IsBound (p.functions.foldl World.define w) (p.functions.foldl World.define w) :=
      (World.Like.refl _).matches rfl
    rcases (hwithin.executeBlock p.actions).discard _ _ hstart with h | ⟨s, u, hu, hs⟩
    · exact h.alike rfl
    · exact absurd hs (hends s (by rw [Run.run_of_error hu]))

/-- Two calls are active at most, below a loop that goes round once. -/
def countdown : Program :=
  ⟨[.function "down" [⟨"n", .int⟩] .int
      [.ifThen (.binary (.var "n") .gt (.literal (.int 0)))
        [.ret (some (.call "down" [.binary (.var "n") .sub (.literal (.int 1))]))], .ret (some (.var "n"))],
    .varDecl "n" .int (some (.literal (.int 1))),
    .whileLoop (.binary (.var "n") .gt (.literal (.int 0)))
      [.assign "n" (.call "down" [.var "n"]), .print (.var "n")]]⟩

/-- With one call or one round less the program comes to a bound; with more of both nothing changes. -/
theorem countdown_outlasts :
    (∀ s, ((runProgram ⟨2, 2⟩ countdown).run (World.start "" false)).answer = .error s → ¬s.IsBound) ∧
    ((runProgram ⟨2, 2⟩ countdown).run (World.start "" false)).Alike
      ((runProgram ⟨1000, 50⟩ countdown).run (World.start "" false)) ∧
    ((runProgram ⟨2, 2⟩ countdown).run (World.start "" false)).world.output = "0\n" ∧
    ((runProgram ⟨1, 2⟩ countdown).run (World.start "" false)).answer =
      .error (.failed (.depthExceeded 1 "down")) ∧
    ((runProgram ⟨2, 1⟩ countdown).run (World.start "" false)).answer = .error .outOfFuel := by
  have hanswer : ((runProgram ⟨2, 2⟩ countdown).run (World.start "" false)).answer = .ok () := rfl
  have hends : ∀ s, ((runProgram ⟨2, 2⟩ countdown).run (World.start "" false)).answer = .error s → ¬s.IsBound := by
    rw [hanswer]
    exact nofun
  exact ⟨hends, runProgram_outlasts (by decide) (by decide) (fun _ => rfl) countdown (World.start "" false) hends,
    rfl, rfl, rfl⟩

/-- A bound that is too high for the machine changes a run that makes no call at all. -/
theorem higher_bound_not_alike :
    (1000 : Int) ≤ 1000000000 ∧
    ((runProgram ⟨1000, 1⟩ ⟨[.print (.literal (.int 1))]⟩).run (World.start "" false)).answer = .ok () ∧
    ((runProgram ⟨1000, 1⟩ ⟨[.print (.literal (.int 1))]⟩).run (World.start "" false)).world.output = "1\n" ∧
    ¬((runProgram ⟨1000, 1⟩ ⟨[.print (.literal (.int 1))]⟩).run (World.start "" false)).Alike
      ((runProgram ⟨1000000000, 1⟩ ⟨[.print (.literal (.int 1))]⟩).run (World.start "" false)) := by
  refine ⟨by decide, rfl, rfl, fun h => ?_⟩
  cases h.answer

end Execution
end TypedImp
