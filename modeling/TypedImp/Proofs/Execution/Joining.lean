import TypedImp.Proofs.Execution.Outlasting
import TypedImp.Proofs.Execution.Shadowing

/-! Programs that are joined. The statements of one program and then those of another one, run as a single program,
    do what the two do one after the other in the same world, if the first one completes and no name is a function of
    both. The functions of the second program are there from the beginning; but a program that completes has
    called none that it does not define. -/

namespace TypedImp

/-- The statements of one program, and then those of the other. -/
instance : Append Program := ⟨fun p q => ⟨p.body ++ q.body⟩⟩

theorem Program.functions_append (p q : Program) : (p ++ q).functions = p.functions ++ q.functions :=
  List.filterMap_append

theorem Program.actions_append (p q : Program) : (p ++ q).actions = p.actions ++ q.actions := List.filter_append ..

namespace Execution

/-! ### Definitions -/

theorem World.like_define (w : World) (f : Function) : w.Like (w.define f) := by
  obtain ⟨events, h⟩ := World.record_eq { w with functions := w.functions.insert f.name f } (.defineFunction f.name)
  unfold World.define
  rw [h]
  exact ⟨rfl, rfl, rfl⟩

/-- Definitions change nothing but the functions. -/
theorem World.like_foldl_define (fs : List Function) (w : World) : w.Like (fs.foldl World.define w) := by
  induction fs generalizing w with
  | nil => exact .refl w
  | cons f fs ih => exact (w.like_define f).trans (ih _)

/-- The functions that are known depend on those that were known before, and on nothing else of the world. -/
theorem functions_foldl_define (fs : List Function) (w : World) :
    (fs.foldl World.define w).functions = fs.foldl (fun known f => Assoc.insert known f.name f) w.functions := by
  induction fs generalizing w with
  | nil => rfl
  | cons f fs ih => rw [List.foldl_cons, List.foldl_cons, ih, functions_define]

theorem get?_foldl_define {fs : List Function} {x : String} (h : ∀ f ∈ fs, f.name ≠ x) (w : World) :
    (fs.foldl World.define w).functions.get? x = w.functions.get? x := by
  induction fs generalizing w with
  | nil => rfl
  | cons f fs ih =>
    rw [List.forall_mem_cons] at h
    rw [List.foldl_cons, ih h.2, functions_define, Assoc.get?_insert_of_ne _ _ h.1.symm]

/-- A world that knows the functions of a second program, too, has nothing that a run misses which calls only functions
    of the first one. -/
theorem matches_define {fs gs : List Function} (hnames : ∀ f ∈ fs, ∀ g ∈ gs, g.name ≠ f.name) {w : World}
    (hw : w.functions = []) :
    World.Matches (fun s => ∃ x, s = .failed (.undefinedFunction x)) (fs.foldl World.define w)
      ((fs ++ gs).foldl World.define w) := by
  rw [List.foldl_append]
  refine ⟨World.like_foldl_define gs _, fun x => ?_⟩
  by_cases hx : ∃ g ∈ gs, g.name = x
  · obtain ⟨g, hg, rfl⟩ := hx
    refine .inr ⟨?_, g.name, rfl⟩
    rw [get?_foldl_define (fun f hf => (hnames f hf g hg).symm), hw]
    rfl
  · exact .inl (get?_foldl_define (fun g hg hgx => hx ⟨g, hg, hgx⟩) _)

/-! ### Completed programs -/

/-- From `w` the program completes in `w'`: the machine grants its nesting, and all of its statements end without a
    return. -/
structure Completes (b : Bounds) (p : Program) (w w' : World) : Prop where
  granted : b.isGranted = true
  actions : executeBlock b b.budget p.actions (p.functions.foldl World.define w) = .ok .normal w'

theorem Completes.run {b : Bounds} {p : Program} {w w' : World} (h : Completes b p w w') :
    (runProgram b p).run w = ⟨.ok (), w'⟩ :=
  (run_runProgram h.granted p w).trans (Run.run_of_ok (State.discard_of_ok h.actions))

theorem sequence_append_of_ok {run : Stmt → Run Flow} {ss : List Stmt} {w w' : World}
    (h : sequence run ss w = .ok .normal w') (ts : List Stmt) : sequence run (ss ++ ts) w = sequence run ts w' := by
  rw [sequence_append_eq, State.bind_of_ok h]

theorem executeBlock_append_of_ok {b : Bounds} {n : Nat} {ss : List Stmt} {w w' : World}
    (h : executeBlock b n ss w = .ok .normal w') (ts : List Stmt) :
    executeBlock b n (ss ++ ts) w = executeBlock b n ts w' := by
  cases n with
  | zero => cases h
  | succ n => exact sequence_append_of_ok h ts

/-! ### Joined programs -/

/-- A program that completes in a fresh world, joined with another one that declares no function by one of its names,
    runs as the two do one after the other. -/
theorem runProgram_append {b : Bounds} {p q : Program} {input : String} {tracing : Bool} {w₁ : World}
    (h : Completes b p (World.start input tracing) w₁)
    (hnames : ∀ f ∈ p.functions, ∀ g ∈ q.functions, g.name ≠ f.name) :
    (runProgram b p).run (World.start input tracing) = ⟨.ok (), w₁⟩ ∧
    ((runProgram b q).run w₁).Alike ((runProgram b (p ++ q)).run (World.start input tracing)) := by
  refine ⟨h.run, ?_⟩
  have hmatches := matches_define hnames (w := World.start input tracing) rfl
  rcases (followsWithin (.refl b) (.inl rfl)).executeBlock p.actions _ _ hmatches with
    ⟨answer, u, u', hu, hu', hlike, hf, hf'⟩ | ⟨s, u, hu, -⟩
  · rw [h.actions] at hu
    cases answer with
    | error s => cases hu
    | ok flow =>
      cases hu
      -- both are now in front of the second program, the joined one with its functions already defined
      have hsecond : (q.functions.foldl World.define w₁).Like u' :=
        (World.like_foldl_define q.functions w₁).symm.trans hlike
      have hfunctions : u'.functions = (q.functions.foldl World.define w₁).functions := by
        rw [hf', functions_foldl_define, functions_foldl_define, List.foldl_append, hf, functions_foldl_define]
      have hjoined : (runProgram b (p ++ q)).run (World.start input tracing) =
          (discard (executeBlock b b.budget q.actions) : Run Unit).run u' := by
        rw [run_runProgram h.granted, Program.functions_append, Program.actions_append]
        exact Run.run_congr (State.discard_congr (executeBlock_append_of_ok hu' q.actions))
      have hwithin := followsWithin (S := fun _ => False) (Bounds.Reach.refl b) (.inl (Eq.refl b.budget))
      have hend := (hwithin.executeBlock q.actions).discard.endLike (hsecond.matches hfunctions)
      rw [run_runProgram h.granted, hjoined]
      exact hend.alike hfunctions
  · rw [h.actions] at hu
    cases hu

/-- A program that reads a text and adds a mark to it. -/
def firstSteps : Program :=
  ⟨[.function "mark" [⟨"s", .string⟩] .string [.ret (some (.binary (.var "s") .add (.literal (.string "!"))))],
    .varDecl "x" .string none, .input "x", .assign "x" (.call "mark" [.var "x"])]⟩

/-- A program with a function that calls one of the first program. -/
def moreSteps : Program :=
  ⟨[.expr (.call "again" []),
    .function "again" [] .void [.print (.call "mark" [.literal (.string "b")])],
    .input "x", .input "x"]⟩

/-- The world between the two programs. -/
def halfway : World :=
  { store := ⟨[("x", ⟨.string, some (.string "a!")⟩)], []⟩
    functions := firstSteps.functions.map fun f => (f.name, f)
    input := ['b']
    output := "x = "
    tracing := false
    events := [] }

/-- The joined programs read both lines and fail where no third one is left, as the second program does. -/
theorem steps_append :
    Completes ⟨1000, 10⟩ firstSteps (World.start "a\nb" false) halfway ∧
    (∀ f ∈ firstSteps.functions, ∀ g ∈ moreSteps.functions, g.name ≠ f.name) ∧
    ((runProgram ⟨1000, 10⟩ moreSteps).run halfway).Alike
      ((runProgram ⟨1000, 10⟩ (firstSteps ++ moreSteps)).run (World.start "a\nb" false)) ∧
    ((runProgram ⟨1000, 10⟩ moreSteps).run halfway).answer = .error (.failed .endOfInput) ∧
    ((runProgram ⟨1000, 10⟩ moreSteps).run halfway).world.output = "x = b!\nx = x = " := by
  have hcompletes : Completes ⟨1000, 10⟩ firstSteps (World.start "a\nb" false) halfway := ⟨rfl, rfl⟩
  have hnames : ∀ f ∈ firstSteps.functions, ∀ g ∈ moreSteps.functions, g.name ≠ f.name := by
    simp [firstSteps, moreSteps, Program.functions, Stmt.function?]
  exact ⟨hcompletes, hnames, (runProgram_append hcompletes hnames).2, rfl, rfl⟩

end Execution
end TypedImp
