import TypedImp.Proofs.Store.Operation

/-! Frames one inside the other. Between a push and the pop that matches it, whatever is asked of a store in whatever
    order, the frames outside are out of reach, and of the globals only values change. -/

namespace TypedImp
namespace Store
variable {s t : Store}

/-! ### Frames above others -/

/-- How many frames lie above a frame behind the operation, if so many have lain above it before. An operation that
    would pop the frame itself has no such number. -/
def Operation.level : Operation → Nat → Option Nat
  | push _, n => some (n + 1)
  | pop, 0 => none
  | pop, n + 1 => some n
  | _, n => some n

/-- The same behind all of the operations. -/
def levelAll (ops : List Operation) (n : Nat) : Option Nat := ops.foldlM (fun n op => op.level n) n

/-- Every pop matches one of the pushes before it, and every push one of the pops behind it. -/
def Balanced (ops : List Operation) : Prop := levelAll ops 0 = some 0

instance : DecidablePred Balanced := fun ops => inferInstanceAs (Decidable (levelAll ops 0 = some 0))

/-- In `t` there lie a frame and `n` others above the frames of `s`. -/
def Above (s : Store) (n : Nat) (t : Store) : Prop := ∃ above, above.length = n + 1 ∧ t.frames = above ++ s.frames

namespace Above
variable {n m : Nat}

theorem frames_ne_nil (h : Above s n t) : t.frames ≠ [] := by
  obtain ⟨above, hlength, hframes⟩ := h
  rw [hframes]
  exact List.append_ne_nil_of_left_ne_nil (List.ne_nil_of_length_eq_add_one hlength) _

theorem congr (h : Above s n t) {u : Store} (hu : u.frames = t.frames) : Above s n u := by
  obtain ⟨above, hlength, hframes⟩ := h
  exact ⟨above, hlength, hu.trans hframes⟩

theorem mapCurrent (h : Above s n t) (f : Frame → Frame) : Above s n (t.mapCurrent f) := by
  obtain ⟨globals, frames⟩ := t
  obtain ⟨above, hlength, rfl⟩ := h
  cases above with
  | nil => cases hlength
  | cons frame above => exact ⟨f frame :: above, hlength, rfl⟩

theorem push (h : Above s n t) (frame : Frame) : Above s (n + 1) (t.push frame) := by
  obtain ⟨above, hlength, hframes⟩ := h
  exact ⟨frame :: above, congrArg (· + 1) hlength, congrArg (frame :: ·) hframes⟩

theorem dropFrame (h : Above s (n + 1) t) : Above s n t.dropFrame := by
  obtain ⟨above, hlength, hframes⟩ := h
  cases above with
  | nil => cases hlength
  | cons frame above => exact ⟨above, Nat.succ.inj hlength, congrArg List.tail hframes⟩

theorem set (h : Above s n t) (x : String) (o : Option Value) : Above s n ((Operation.set x o).after t) := by
  rcases Operation.run_set_cases x o t with ⟨e, hrun⟩ | ⟨v, u, -, hs, hrun⟩
  · rwa [Operation.after_of_error hrun]
  · rw [Operation.after_of_ok hrun]
    obtain ⟨b, -, ⟨-, rfl⟩ | ⟨-, rfl⟩⟩ := set_eq_ok hs
    · exact h.mapCurrent _
    · exact h.congr rfl

/-- An operation that does not pop the last frame above leaves those of `s` where they are. -/
theorem after (h : Above s n t) {op : Operation} (hop : op.level n = some m) : Above s m (op.after t) := by
  cases op with
  | push frame =>
    cases hop
    exact h.push frame
  | pop =>
    rw [Operation.after_pop]
    cases n with
    | zero => cases hop
    | succ n =>
      cases hop
      exact h.dropFrame
  | declare x ty v =>
    cases hop
    exact h.mapCurrent _
  | set x o =>
    cases hop
    exact h.set x o
  | get | lookup | assignable =>
    cases hop
    simpa using h

/-- The run of such operations does so, too, and on its way there is always a frame above. -/
theorem afterAll {ops : List Operation} (h : Above s n t) (hops : levelAll ops n = some m) :
    Above s m (t.afterAll ops) ∧ ∀ step ∈ t.steps ops, step.store.frames ≠ [] := by
  induction ops generalizing n t with
  | nil =>
    cases hops
    exact ⟨h, List.forall_mem_nil _⟩
  | cons op ops ih =>
    rw [levelAll, List.foldlM_cons] at hops
    obtain ⟨k, hop, hops⟩ := Option.bind_eq_some_iff.mp hops
    obtain ⟨hlast, hsteps⟩ := ih (h.after hop) hops
    exact ⟨hlast, List.forall_mem_cons.mpr ⟨h.frames_ne_nil, hsteps⟩⟩

end Above

/-! ### Between a push and its pop -/

/-- The operations between a push and a pop. -/
def enclose (frame : Frame) (ops : List Operation) : List Operation := .push frame :: (ops ++ [.pop])

section Enclosed
variable {ops : List Operation}

theorem afterAll_enclose (s : Store) (frame : Frame) (ops : List Operation) :
    s.afterAll (enclose frame ops) = ((s.push frame).afterAll ops).dropFrame :=
  (afterAll_append (s.push frame) ops [.pop]).trans (Operation.after_pop _)

theorem above_push (s : Store) (frame : Frame) : Above s 0 (s.push frame) := ⟨[frame], rfl, rfl⟩

theorem frames_enclosed (s : Store) (frame : Frame) (h : Balanced ops) :
    (s.afterAll (enclose frame ops)).frames = s.frames := by
  obtain ⟨above, hlength, hframes⟩ := ((above_push s frame).afterAll h).1
  -- The one frame above is what has become of the frame that was pushed, and the pop drops it.
  obtain ⟨last, rfl⟩ := List.length_eq_one_iff.mp hlength
  rw [afterAll_enclose]
  exact congrArg List.tail hframes

/-- Every step but the push is made while a call is active. -/
theorem active_enclosed (s : Store) (frame : Frame) (h : Balanced ops) {step : Step}
    (hstep : step ∈ s.steps (enclose frame ops)) : step.operation = .push frame ∨ step.store.frames ≠ [] := by
  obtain ⟨hlast, hsteps⟩ := (above_push s frame).afterAll h
  rw [enclose, steps, Operation.after_push, steps_of_append, List.mem_cons, List.mem_append] at hstep
  rcases hstep with rfl | hstep | hstep
  · exact .inl rfl
  · exact .inr (hsteps step hstep)
  · rw [List.mem_singleton.mp hstep]
    exact .inr hlast.frames_ne_nil

/-- What happens between a push and the pop that matches it stays there. Behind the pop the frames are the same as in
    front of the push. The globals have the same names and types, and the value of one has changed only if an assignment
    to it was made while the innermost frame did not bind its name; it is the value of the last of these assignments. No
    pop fails on the way, and what does fail leaves the store as it was. -/
theorem enclosed_stays_inside (s : Store) (frame : Frame) {ops : List Operation} (h : Balanced ops) :
    (s.afterAll (enclose frame ops)).frames = s.frames ∧
      Frame.Assigned (lastGiven? (s.steps (enclose frame ops))) s.globals (s.afterAll (enclose frame ops)).globals ∧
      ∀ step ∈ s.steps (enclose frame ops), ∀ e t, step.operation.run step.store = .error e t →
        t = step.store ∧ step.operation ≠ .pop := by
  refine ⟨frames_enclosed s frame h, globals_afterAll fun step hstep => ?_, fun step hstep e t hrun => ⟨?_, ?_⟩⟩
  · rintro ⟨hidle, x, ty, v, hdeclare⟩
    rcases active_enclosed s frame h hstep with hpush | hactive
    · cases hpush.symm.trans hdeclare
    · exact hactive hidle
  · exact Operation.eq_of_run_error hrun
  · intro hpop
    rcases active_enclosed s frame h hstep with hpush | hactive
    · cases hpush.symm.trans hpop
    · rw [hpop, Operation.run_pop hactive] at hrun
      cases hrun

/-- Two globals, and a call that is active. -/
def tally : Store :=
  ⟨[("count", ⟨.int, some (.int 0)⟩), ("done", ⟨.bool, none⟩)], [[("x", ⟨.int, some (.int 7)⟩)]]⟩

/-- Assignments to a global, in the end hidden behind a declaration, in two frames, and steps that fail. -/
def tallying : List Operation :=
  [.set "count" (some (.int 1)), .push [], .set "x" (some (.int 8)), .set "count" (some (.int 2)),
    .declare "count" .string none, .set "count" (some (.string "three")), .pop, .get "count", .set "done" (some (.int 4))]

/-- The step that asks for the variable of the call outside. -/
def straying : Step :=
  ⟨⟨[("count", ⟨.int, some (.int 1)⟩), ("done", ⟨.bool, none⟩)], [[], [], [("x", ⟨.int, some (.int 7)⟩)]]⟩,
    .set "x" (some (.int 8))⟩

/-- The global has got the value of the second assignment, since the third one was made to the variable that hides it. The
    variable of the call outside cannot be reached. -/
theorem tally_stays_inside :
    Balanced tallying ∧
      (tally.afterAll (enclose [] tallying)).frames = tally.frames ∧
      Frame.Assigned (lastGiven? (tally.steps (enclose [] tallying))) tally.globals
        (tally.afterAll (enclose [] tallying)).globals ∧
      straying ∈ tally.steps (enclose [] tallying) ∧
      straying.operation.run straying.store = .error (.undeclared "x") straying.store ∧
      (∀ step ∈ tally.steps (enclose [] tallying), ∀ e t, step.operation.run step.store = .error e t →
        t = step.store ∧ step.operation ≠ .pop) ∧
      tally.afterAll (enclose [] tallying) =
        ⟨[("count", ⟨.int, some (.int 2)⟩), ("done", ⟨.bool, none⟩)], [[("x", ⟨.int, some (.int 7)⟩)]]⟩ := by
  have hbalanced : Balanced tallying := by decide
  obtain ⟨hframes, hglobals, hfailed⟩ := enclosed_stays_inside tally [] hbalanced
  have hmem : straying ∈ tally.steps (enclose [] tallying) := .tail _ (.tail _ (.tail _ (.head _)))
  exact ⟨hbalanced, hframes, hglobals, hmem, rfl, hfailed, rfl⟩

end Enclosed

end Store
end TypedImp
