import TypedImp.Proofs.Execution.Guard

/-! What runs leave alone. An expression and a call leave the frames and the functions as they were, and of the
    globals they change values only; a statement may change the innermost frame too, or the globals where no
    call is active. This holds also where the run fails, and while it goes on there are never more calls active
    than allowed. -/

namespace TypedImp

/-- The names that a frame binds, in their order, with the types that they are declared with. -/
def Frame.shape (f : Frame) : List (String × Ty) := f.map fun e => (e.1, e.2.ty)

/-- A bound name keeps its place. -/
theorem Frame.shape_insert {f : Frame} {x : String} {c : Binding} (hx : f.get? x = some c) (v : Option Value) :
    Frame.shape (Assoc.insert f x ⟨c.ty, v⟩) = f.shape := by
  induction f with
  | nil => cases hx
  | cons e f ih =>
    obtain ⟨y, a⟩ := e
    by_cases hyx : y = x
    · have ha : a = c := by simpa [Assoc.get?, List.lookup_cons, hyx] using hx
      simp [Frame.shape, Assoc.insert, hyx, ha]
    · have hx : Assoc.get? f x = some c := by
        simpa [Assoc.get?, List.lookup_cons, beq_false_of_ne (Ne.symm hyx)] using hx
      simpa [Frame.shape, Assoc.insert, hyx] using ih hx

namespace Execution

variable {b : Bounds} {d n : Nat} {u v w : World}

/-! ### Two worlds -/

/-- From `w` to `w'` only the values of globals change, beside input, output and events. -/
structure Isolated (w w' : World) : Prop where
  frames : w'.store.frames = w.store.frames
  functions : w'.functions = w.functions
  globals : w'.store.globals.shape = w.store.globals.shape

/-- From `w` to `w'` the innermost frame may change, too, or the globals in place of it. -/
structure IsolatedBelow (w w' : World) : Prop where
  depth : w'.store.depth = w.store.depth
  callers : w'.store.frames.tail = w.store.frames.tail
  functions : w'.functions = w.functions
  globals : w.store.frames ≠ [] → w'.store.globals.shape = w.store.globals.shape

namespace Isolated

theorem refl (w : World) : Isolated w w := ⟨rfl, rfl, rfl⟩

theorem trans (h : Isolated u v) (h' : Isolated v w) : Isolated u w :=
  ⟨h'.frames.trans h.frames, h'.functions.trans h.functions, h'.globals.trans h.globals⟩

theorem depth (h : Isolated u v) : v.store.depth = u.store.depth := congrArg List.length h.frames

theorem below (h : Isolated u v) : IsolatedBelow u v :=
  ⟨h.depth, congrArg List.tail h.frames, h.functions, fun _ => h.globals⟩

end Isolated

namespace IsolatedBelow

theorem refl (w : World) : IsolatedBelow w w := (Isolated.refl w).below

theorem frames_ne_nil (h : IsolatedBelow u v) (hu : u.store.frames ≠ []) : v.store.frames ≠ [] := by
  have hdepth := h.depth
  unfold Store.depth at hdepth
  rwa [← List.length_pos_iff, hdepth, List.length_pos_iff]

theorem trans (h : IsolatedBelow u v) (h' : IsolatedBelow v w) : IsolatedBelow u w where
  depth := h'.depth.trans h.depth
  callers := h'.callers.trans h.callers
  functions := h'.functions.trans h.functions
  globals hu := (h'.globals (h.frames_ne_nil hu)).trans (h.globals hu)

/-- A binding of the active call, or of the globals where none is active. -/
theorem declare (w : World) (x : String) (t : Ty) (o : Option Value) :
    IsolatedBelow w { w with store := w.store.declare x t o } := by
  obtain ⟨⟨globals, frames⟩, functions, input, output, tracing, events⟩ := w
  cases frames with
  | nil => exact ⟨rfl, rfl, rfl, fun h => absurd rfl h⟩
  | cons frame frames => exact ⟨rfl, rfl, rfl, fun _ => rfl⟩

theorem set {x : String} {a : Value} {s : Store} (h : w.store.set x a = .ok s) :
    IsolatedBelow w { w with store := s } := by
  obtain ⟨c, -, ⟨-, rfl⟩ | ⟨hget, rfl⟩⟩ := Store.set_eq_ok h
  · exact declare w x c.ty (some a)
  · exact ⟨rfl, rfl, rfl, fun _ => Frame.shape_insert hget _⟩

/-- A call whose frame is dropped. -/
theorem dropFrame {frame : Frame} (h : IsolatedBelow { w with store := w.store.push frame } u) :
    Isolated w { u with store := u.store.dropFrame } where
  frames := h.callers
  functions := h.functions
  globals := h.globals (List.cons_ne_nil _ _)

end IsolatedBelow

/-! ### Guarded runs -/

/-- So many calls are active and no more than allowed; a run keeps their number and whatever else `keeps` says. -/
def depthGuard (b : Bounds) (d : Nat) (keeps : World → World → Prop) (refl : ∀ w, keeps w w)
    (trans : ∀ {u v w}, keeps u v → keeps v w → keeps u w)
    (depth : ∀ {u v}, keeps u v → v.store.depth = u.store.depth) : Guard where
  start w := w.store.depth = d ∧ (d : Int) ≤ b.calls
  seen m := (m.world.store.depth : Int) ≤ b.calls
  keeps := keeps
  refl _ := refl _
  trans := trans
  next h hkeeps := ⟨(depth hkeeps).trans h.1, h.2⟩

def expressionGuard (b : Bounds) (d : Nat) : Guard := depthGuard b d Isolated .refl .trans fun h => h.depth

def statementGuard (b : Bounds) (d : Nat) : Guard := depthGuard b d IsolatedBelow .refl .trans fun h => h.depth

section Steps
variable {α : Type} {P : α → Prop} {r : Watched α}

theorem expressionGuard.seen (h : (expressionGuard b d).start w) (hw : Isolated w v) (values : List Value) :
    (expressionGuard b d).seen ⟨v, values⟩ := by
  show (v.store.depth : Int) ≤ b.calls
  rw [hw.depth, h.1]
  exact h.2

theorem statementGuard.seen (h : (statementGuard b d).start w) (hw : IsolatedBelow w v) (values : List Value) :
    (statementGuard b d).seen ⟨v, values⟩ := by
  show (v.store.depth : Int) ≤ b.calls
  rw [hw.depth, h.1]
  exact h.2

theorem statementGuard.allows (h : (expressionGuard b d).Allows r P) : (statementGuard b d).Allows r P :=
  fun w hw => { h w hw with keeps := (h w hw).keeps.below }

theorem expressionGuard.silent {r : Run α} (h : Silent r P) : (expressionGuard b d).Allows (Watched.step r) P :=
  Guard.allows_silent h fun _ hw _ => ⟨⟨rfl, rfl, rfl⟩, expressionGuard.seen hw ⟨rfl, rfl, rfl⟩ []⟩

/-- A call that is made has room for one frame more. -/
theorem expressionGuard.callee (x : String) (arity : Nat) :
    (expressionGuard b d).Allows (Watched.step (Watched.callee b x arity)) fun _ => (d : Int) < b.calls := by
  intro w hw
  refine Guard.holds_endIn (callee_eq b x arity w) (.refl w) (expressionGuard.seen hw (.refl w) []) fun f hf => ?_
  exact hw.1 ▸ (callable_eq_ok hf).2.2

/-- The body of a call runs in a frame that is gone when it has ended. -/
theorem expressionGuard.inFrame {frame : Frame} (hd : (d : Int) < b.calls)
    (h : (statementGuard b (d + 1)).Allows r P) : (expressionGuard b d).Allows (r.inFrame frame) P := by
  refine h.inFrame (fun w hw => ?_) (fun _ hm => hm) fun w u hw hkeeps => ?_
  · have hdepth : ({ w with store := w.store.push frame } : World).store.depth = d + 1 := congrArg (· + 1) hw.1
    have hcalls : ((d + 1 : Nat) : Int) ≤ b.calls := by omega
    exact ⟨⟨hdepth, hcalls⟩, statementGuard.seen ⟨hdepth, hcalls⟩ (.refl _) []⟩
  · exact ⟨hkeeps.dropFrame, expressionGuard.seen hw hkeeps.dropFrame []⟩

/-- A step of a statement that ends in a world which the guard allows. -/
theorem statementGuard.endIn {r : Run α} {a : Except Stop α} (hw : (statementGuard b d).start w)
    (h : r w = Execution.endIn a v) (hv : IsolatedBelow w v) :
    (statementGuard b d).Holds w (Watched.step r w) fun _ => True :=
  Guard.holds_endIn h hv (statementGuard.seen hw hv []) fun _ _ => trivial

theorem statementGuard.declare (x : String) (t : Ty) (o : Option Value) :
    (statementGuard b d).Allows (Watched.step (declareVariable x t o)) fun _ => True := by
  intro w hw
  obtain ⟨events, h⟩ := declareVariable_eq x t o w
  have hdeclare := IsolatedBelow.declare w x t o
  exact statementGuard.endIn (a := .ok ()) hw h ⟨hdeclare.depth, hdeclare.callers, hdeclare.functions, hdeclare.globals⟩

theorem statementGuard.assign (x : String) (a : Value) :
    (statementGuard b d).Allows (Watched.step (assignVariable x a)) fun _ => True := by
  intro w hw
  have h := assignVariable_eq x a w
  cases hs : w.store.set x a with
  | ok s =>
    rw [hs] at h
    exact statementGuard.endIn (a := .ok ()) hw h (.set hs)
  | error e =>
    rw [hs] at h
    exact statementGuard.endIn (a := .error _) hw h (.refl w)

theorem statementGuard.print (a : Value) :
    (statementGuard b d).Allows (Watched.step (printValue a)) fun _ => True := by
  intro w hw
  have h := printValue_eq a w
  split at h
  · exact statementGuard.endIn (a := .error _) hw h (.refl w)
  · exact statementGuard.endIn (a := .ok ()) hw h ⟨rfl, rfl, rfl, fun _ => rfl⟩

/-- The name of the variable is written, the line is taken from the input, and the value goes to the variable. -/
theorem statementGuard.input (x : String) :
    (statementGuard b d).Allows (Watched.step (readVariable x)) fun _ => True := by
  intro w hw
  have h := readVariable_eq x w
  cases hx : w.store.lookup x with
  | error e =>
    rw [hx] at h
    exact statementGuard.endIn (a := .error _) hw h (.refl w)
  | ok c =>
    simp only [hx] at h
    cases hline : World.nextLine? w.input with
    | none =>
      simp only [hline] at h
      exact statementGuard.endIn (a := .error _) hw h ⟨rfl, rfl, rfl, fun _ => rfl⟩
    | some l =>
      simp only [hline] at h
      cases hread : Value.read c.ty l.1 with
      | error e =>
        simp only [hread] at h
        exact statementGuard.endIn (a := .error _) hw h ⟨rfl, rfl, rfl, fun _ => rfl⟩
      | ok a =>
        simp only [hread] at h
        have hdeclare := IsolatedBelow.declare w x c.ty (some a)
        exact statementGuard.endIn (a := .ok ()) hw h
          ⟨hdeclare.depth, hdeclare.callers, hdeclare.functions, hdeclare.globals⟩

end Steps

def isolation (b : Bounds) : Judgment b where
  value _ := True
  room d := (d : Int) < b.calls
  expr d r P := (expressionGuard b d).Allows r P
  stmt d r P := (statementGuard b d).Allows r P
  value_unary _ _ := trivial
  value_binary _ _ _ := trivial
  value_widen _ _ := trivial
  expr_pure ha := Guard.allows_pure ha
  expr_silent h := expressionGuard.silent h
  expr_bind h hk := h.bind hk
  expr_giving h _ := h.giving fun _ hw _ _ => expressionGuard.seen hw (.refl _) _
  expr_get _ w hw :=
    Guard.holds_endIn (Run.ask_eq _ w) (.refl w) (expressionGuard.seen hw (.refl w) []) fun _ _ => trivial
  expr_callee x arity w hw :=
    { expressionGuard.callee x arity w hw with
      answer := fun f w' hf => ⟨(expressionGuard.callee x arity w hw).answer f w' hf, fun _ _ => trivial⟩ }
  expr_inFrame hd _ h := expressionGuard.inFrame hd h
  stmt_expr h := statementGuard.allows h
  stmt_bind h hk := h.bind hk
  stmt_target x w hw := statementGuard.endIn hw (targetType_eq x w) (.refl w)
  stmt_declare x t o _ := statementGuard.declare x t o
  stmt_assign x a _ := statementGuard.assign x a
  stmt_print a := statementGuard.print a
  stmt_input x := statementGuard.input x

/-! ### All runs -/

/-- From `w` the run leaves what `keeps` says, whether it ends or stops, and at none of the moments at which it is
    watched are more calls active than allowed. -/
structure Disciplined {α : Type} (b : Bounds) (keeps : World → World → Prop) (w : World) (r : Run α)
    (watched : Watched α) : Prop where
  same : watched.run = r
  keeps : keeps w (r.run w).world
  depth : ∀ m ∈ (watched w).moments, (m.world.store.depth : Int) ≤ b.calls

/-- What holds of a guarded run, read off the run itself. -/
theorem disciplined_of_holds {α : Type} {G : Guard} {r : Run α} {watched : Watched α} {P : α → Prop}
    (h : G.Holds w (watched w) P) (hrun : watched.run = r)
    (hseen : ∀ m, G.seen m → (m.world.store.depth : Int) ≤ b.calls) : Disciplined b G.keeps w r watched where
  same := hrun
  keeps := Course.world_eq hrun w ▸ h.keeps
  depth m hm := hseen m (h.seen m hm)

/-- Whatever an expression, a call, a statement or a block does, it leaves the frames of the callers alone. -/
theorem runs_isolated (b : Bounds) (n : Nat) {w : World} (hw : (w.store.depth : Int) ≤ b.calls) :
    (∀ e, Disciplined b Isolated w (evaluate b n e) (Watched.evaluate b n e)) ∧
    (∀ x args, Disciplined b Isolated w (call b n x args) (Watched.call b n x args)) ∧
    (∀ s, Disciplined b IsolatedBelow w (execute b n s) (Watched.execute b n s)) ∧
    (∀ ss, Disciplined b IsolatedBelow w (executeBlock b n ss) (Watched.executeBlock b n ss)) := by
  have hholds := (isolation b).holdsWithin n
  have hruns := Watched.runsWithin b n
  refine ⟨fun e => ?_, fun x args => ?_, fun s => ?_, fun ss => ?_⟩
  · have h := hholds.evaluate w.store.depth e (fun _ _ => trivial) w ⟨rfl, hw⟩
    exact disciplined_of_holds h (hruns.evaluate e) fun _ hm => hm
  · have h := hholds.call w.store.depth x args (fun _ _ => trivial) w ⟨rfl, hw⟩
    exact disciplined_of_holds h (hruns.call x args) fun _ hm => hm
  · have h := hholds.execute w.store.depth s (fun _ _ => trivial) w ⟨rfl, hw⟩
    exact disciplined_of_holds h (hruns.execute s) fun _ hm => hm
  · have h := hholds.executeBlock w.store.depth ss (fun _ _ => trivial) w ⟨rfl, hw⟩
    exact disciplined_of_holds h (hruns.executeBlock ss) fun _ hm => hm

/-- A function that assigns a global and calls itself until the calls nest too deep. -/
def descending : World :=
  { store := ⟨[("count", ⟨.int, some (.int 0)⟩)], [[("x", ⟨.int, some (.int 7)⟩)]]⟩
    functions := [("f", ⟨"f", [], .void, [.assign "count" (.literal (.int 1)), .expr (.call "f" [])]⟩)]
    input := []
    output := ""
    tracing := false
    events := [] }

/-- The failure leaves the frame of the caller and the names of the globals, but not their values. -/
theorem descending_isolated :
    (descending.store.depth : Int) ≤ 3 ∧
    Disciplined ⟨3, 10⟩ Isolated descending (evaluate ⟨3, 10⟩ 20 (.call "f" []))
      (Watched.evaluate ⟨3, 10⟩ 20 (.call "f" [])) ∧
    (evaluate ⟨3, 10⟩ 20 (.call "f" [])).run descending =
      ⟨.error (.failed (.depthExceeded 3 "f")),
        { descending with store := ⟨[("count", ⟨.int, some (.int 1)⟩)], descending.store.frames⟩ }⟩ :=
  ⟨by decide, (runs_isolated ⟨3, 10⟩ 20 (by decide)).1 _, rfl⟩

end Execution
end TypedImp
