import TypedImp.Proofs.Execution.Guard

/-! What an interpreter is asked to do. Tasks are carried out one after the other in the same world, also behind
    tasks that fail, and they are watched like the runs that they are made of. -/

namespace TypedImp
namespace Execution

inductive Task where
  | program (p : Program)
  | statement (s : Stmt)
  /-- A call by an expression that should be one. -/
  | call (e : Expr)
  | expression (e : Expr)

namespace Task

def literals : Task → List Value
  | program p => p.literals
  | statement s => s.literals
  | call e => e.literals
  | expression e => e.literals

/-- What carries out the task; the answer of a statement, a call or an expression does not go on. -/
def run (b : Bounds) : Task → Run Unit
  | program p => runProgram b p
  | statement s => discard (execute b b.budget s)
  | call e => discard (callOf b e)
  | expression e => discard (evaluate b b.budget e)

/-! ### Watched tasks -/

def watchedCall (b : Bounds) : Expr → Watched (Option Value)
  | .call name args => Watched.call b b.budget name args
  | e => Watched.step (callOf b e)

def watched (b : Bounds) : Task → Watched Unit
  | program p => do
    Watched.step (defineFunctions p.functions)
    if b.isGranted then discard (Watched.executeBlock b b.budget p.actions)
    else Watched.step (Run.fail .nestingRefused)
  | statement s => discard (Watched.execute b b.budget s)
  | call e => discard (watchedCall b e)
  | expression e => discard (Watched.evaluate b b.budget e)

theorem run_watchedCall (b : Bounds) (e : Expr) : (watchedCall b e).run = callOf b e := by
  cases e with
  | call name args => exact (Watched.runsWithin b b.budget).call name args
  | _ => rfl

/-- A watched task is the task itself. -/
theorem run_watched (b : Bounds) (t : Task) : (t.watched b).run = t.run b := by
  have hruns := Watched.runsWithin b b.budget
  cases t with
  | program p =>
    rw [watched, Watched.run_bind, run, runProgram]
    split
    · rw [Watched.run_discard, hruns.executeBlock]
      rfl
    · rfl
  | statement s => exact (Watched.run_discard _).trans (by rw [hruns.execute]; rfl)
  | call e => exact (Watched.run_discard _).trans (by rw [run_watchedCall]; rfl)
  | expression e => exact (Watched.run_discard _).trans (by rw [hruns.evaluate]; rfl)

/-- What is no call is not called, and nothing changes. -/
theorem callOf_eq_error (b : Bounds) {e : Expr} (he : ∀ name args, e ≠ .call name args) (w : World) :
    ∃ s, callOf b e w = .error s w := by
  cases e with
  | call name args => exact absurd rfl (he name args)
  | var name =>
    by_cases hname : w.functions.has name = true
    · exact ⟨.failed (.notACall "Identifier" "args"), (State.bind_of_ok rfl).trans (by rw [if_pos hname]; rfl)⟩
    · exact ⟨.failed (.undefinedFunction name), (State.bind_of_ok rfl).trans (by rw [if_neg hname]; rfl)⟩
  | _ => exact ⟨_, rfl⟩

/-! ### One after the other -/

/-- The world behind all of the tasks. -/
def runAll (b : Bounds) : List Task → World → World
  | [], w => w
  | t :: ts, w => runAll b ts ((t.run b).run w).world

/-- All that can be seen on the way. -/
def momentsOfAll (b : Bounds) : List Task → World → List Moment
  | [], _ => []
  | t :: ts, w => (t.watched b w).moments ++ momentsOfAll b ts ((t.run b).run w).world

/-- A guard that allows each of the tasks allows all of them. -/
theorem allows_all {b : Bounds} {G : Guard} {ts : List Task} (h : ∀ t ∈ ts, G.Allows (t.watched b) fun _ => True)
    {w : World} (hw : G.start w) : G.keeps w (runAll b ts w) ∧ ∀ m ∈ momentsOfAll b ts w, G.seen m := by
  induction ts generalizing w with
  | nil => exact ⟨G.refl hw, List.forall_mem_nil _⟩
  | cons t ts ih =>
    rw [List.forall_mem_cons] at h
    have ht := h.1 w hw
    have hkeeps : G.keeps w ((t.run b).run w).world := Course.world_eq (t.run_watched b) w ▸ ht.keeps
    obtain ⟨hkeeps', hseen⟩ := ih h.2 (G.next hw hkeeps)
    exact ⟨G.trans hkeeps hkeeps', List.forall_mem_append.mpr ⟨ht.seen, hseen⟩⟩

end Task
end Execution
end TypedImp
