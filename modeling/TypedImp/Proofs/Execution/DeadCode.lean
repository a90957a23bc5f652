import TypedImp.Proofs.Execution.Joining

/-! Nothing runs behind a return. A program whose blocks are cut behind a return, at any depth and in any of them, runs
    as before. A return passes through all the blocks, branches and loops around it up to the call, and none of them
    runs another statement, condition or step; so what stands behind it makes no difference, neither where it stands
    nor to any caller of the function. -/

namespace TypedImp
namespace Execution
open Stmt (Cut)

/-! ### Definitions -/

/-- Related functions are defined in related worlds. -/
theorem World.Matched.define {S : Stop → Prop} {w w' : World} (hw : w.Matched S w') {f f' : Function}
    (hf : f.Trims f') : (w.define f).Matched S (w'.define f') where
  toLike := ((w.like_define f).symm.trans hw.toLike).trans (w'.like_define f')
  functions x := by
    rw [functions_define, functions_define, hf.name]
    by_cases hx : x = f.name
    · subst hx
      rw [Assoc.get?_insert_self, Assoc.get?_insert_self]
      exact .inl (.some hf)
    · rw [Assoc.get?_insert_of_ne _ _ hx, Assoc.get?_insert_of_ne _ _ hx]
      exact hw.functions x

theorem World.Matched.foldl_define {S : Stop → Prop} {fs fs' : List Function} (hfs : List.Forall₂ Function.Trims fs fs')
    {w w' : World} (hw : w.Matched S w') : (fs.foldl World.define w).Matched S (fs'.foldl World.define w') := by
  induction hfs generalizing w w' with
  | nil => exact hw
  | cons hf _ ih => exact ih (hw.define hf)

/-! ### Programs -/

theorem EndLike.run {α : Type} {r r' : Run α} {w w' : World} (h : EndLike r r' w w') :
    (r'.run w').answer = (r.run w).answer ∧ (r.run w).world.Like (r'.run w').world := by
  obtain ⟨answer, u, u', hu, hu', hlike, -⟩ := h
  rw [Run.run_of_endIn hu, Run.run_of_endIn hu']
  exact ⟨rfl, hlike⟩

/-- A program with some of its blocks cut behind a return gives the same answer, and leaves the same variables, input
    and output; with every bound on calls and on the rounds of a loop, so it goes on for ever where the other does. -/
theorem trimmed_runs_alike {p q : Program} (h : p.Trims q) (b : Bounds) (w : World) :
    ((runProgram b q).run w).answer = ((runProgram b p).run w).answer ∧
    ((runProgram b p).run w).world.Like ((runProgram b q).run w).world := by
  have hdefined := (World.Matched.refl (fun _ => False) w).foldl_define h.functions
  cases hgranted : b.isGranted with
  | false =>
    rw [run_runProgram_refused hgranted, run_runProgram_refused hgranted]
    exact ⟨rfl, hdefined.toLike⟩
  | true =>
    rw [run_runProgram hgranted, run_runProgram hgranted]
    have hwithin := simulatesWithin (S := fun _ => False) (Bounds.Reach.refl b) (.inl (Eq.refl b.budget))
    exact ((hwithin.executeBlock h.actions).discard.endLike hdefined).run

/-- A search that returns out of a loop in a branch, with statements behind every return: a loop without an end, a
    call that nobody could make, and an output. -/
def search : Program :=
  ⟨[.function "root" [⟨"n", .int⟩] .int
      [.forLoop (.varDecl "i" .int (some (.literal (.int 0)))) (.literal (.bool true))
        (.assign "i" (.binary (.var "i") .add (.literal (.int 1))))
        [.ifThen (.binary (.binary (.var "i") .mul (.var "i")) .ge (.var "n"))
          [.ret (some (.var "i")), .whileLoop (.literal (.bool true)) []],
         .print (.var "i")],
       .ret (some (.call "none" [])), .print (.call "none" [])],
    .ifThen (.literal (.bool true)) [.print (.call "root" [.literal (.int 5)]), .ret none, .print (.literal (.int 0))],
    .print (.literal (.int 1))]⟩

/-- The three blocks are cut; the return in the branch ends the program. -/
theorem search_runs_alike :
    search.Trims search.trim ∧
    search.trim.body ≠ search.body ∧
    ((runProgram ⟨1000, 10⟩ search.trim).run (World.start "" false)).answer =
      ((runProgram ⟨1000, 10⟩ search).run (World.start "" false)).answer ∧
    ((runProgram ⟨1000, 10⟩ search.trim).run (World.start "" false)).world.output = "0\n1\n2\n3\n" := by
  have h := search.trims_trim
  have halike := trimmed_runs_alike h ⟨1000, 10⟩ (World.start "" false)
  exact ⟨h, nofun, halike.1, halike.2.output.trans rfl⟩

end Execution
end TypedImp
