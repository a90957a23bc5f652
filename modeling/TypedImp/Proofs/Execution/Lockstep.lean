import TypedImp.Proofs.Execution.Simulation

/-! Two runs of the same in lockstep. The second one may have higher bounds, and may know functions that the first one
    lacks. Both read and change the same variables, the same input and the same output, step by step, unless the first
    one stops for the lack of what the second one has. -/

namespace TypedImp
namespace Execution

variable {α : Type} {S : Stop → Prop}

/-! ### Worlds -/

/-- Like worlds. A run may stop as `S` says for the lack of a function that only the second one knows. -/
structure World.Matches (S : Stop → Prop) (w w' : World) : Prop extends w.Like w' where
  functions : ∀ x, w'.functions.get? x = w.functions.get? x ∨
    (w.functions.get? x = none ∧ S (.failed (.undefinedFunction x)))

/-- Like worlds with the same functions. -/
theorem World.Like.matches {w w' : World} (h : w.Like w') (hfunctions : w'.functions = w.functions) : w.Matches S w' :=
  ⟨h, fun x => .inl (by rw [hfunctions])⟩

theorem World.Matches.matched {w w' : World} (h : w.Matches S w') : w.Matched S w' where
  toLike := h.toLike
  functions x := (h.functions x).imp_left fun hx => by
    rw [hx]
    exact Function.Trims.relates_self _

/-! ### Runs in lockstep -/

/-- From matching worlds the runs end alike, or the first one stops as `S` says. -/
def Follows (S : Stop → Prop) (r r' : Run α) : Prop :=
  ∀ w w', w.Matches S w' → EndLike r r' w w' ∨ ∃ s u, r w = .error s u ∧ S s

section Runs
variable {r r' : Run α}

theorem Simulates.follows (h : Simulates S r r') : Follows S r r' := fun w w' hw => h w w' hw.matched

/-- Where nothing counts as a lack, both end alike. -/
theorem Follows.endLike {w w' : World} (h : Follows (fun _ => False) r r') (hw : w.Matches (fun _ => False) w') :
    EndLike r r' w w' := by
  refine (h w w' hw).resolve_right ?_
  rintro ⟨_, _, -, hs⟩
  exact hs

theorem Follows.discard (h : Follows S r r') : Follows S (discard r) (discard r') := by
  intro w w' hw
  rcases h w w' hw with ⟨answer, u, u', hu, hu', hend⟩ | ⟨s, u, hu, hs⟩
  · cases answer with
    | ok a => exact .inl ⟨.ok .unit, u, u', State.discard_of_ok hu, State.discard_of_ok hu', hend⟩
    | error s => exact .inl ⟨.error s, u, u', State.discard_of_error hu, State.discard_of_error hu', hend⟩
  · exact .inr ⟨s, u, State.discard_of_error hu, hs⟩

end Runs

/-! ### Expressions and statements -/

/-- What runs within two budgets, of which the second one reaches at least as far as the first. -/
structure FollowsWithin (S : Stop → Prop) (b b' : Bounds) (n n' : Nat) : Prop where
  evaluate : ∀ e, Follows S (evaluate b n e) (evaluate b' n' e)
  call : ∀ x args, Follows S (call b n x args) (call b' n' x args)
  execute : ∀ s, Follows S (execute b n s) (execute b' n' s)
  executeBlock : ∀ ss, Follows S (executeBlock b n ss) (executeBlock b' n' ss)

/-- Within every budget that reaches as far. -/
theorem followsWithin {b b' : Bounds} {n n' : Nat} (hb : b.Reach S b')
    (hn : Reaches S (.failed .stackExhausted) n n') : FollowsWithin S b b' n n' :=
  have h := simulatesWithin hb hn
  ⟨fun e => (h.evaluate e).follows, fun x args => (h.call x args).follows, fun s => (h.execute (.refl s)).follows,
    fun ss => (h.executeBlock (.refl ss)).follows⟩

end Execution
end TypedImp
