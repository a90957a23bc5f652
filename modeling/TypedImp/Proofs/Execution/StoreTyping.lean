import TypedImp.Proofs.Execution.Task
import TypedImp.Proofs.Syntax.Literals

/-! What the variables hold. Whatever an interpreter is asked to do with programs that are read from texts, checked
    or not, and also behind failures: at every moment each variable has no value yet or a proper value of the
    type that it is declared with, and every value that is computed is proper. -/

namespace TypedImp
namespace Execution

/-! ### Sound worlds -/

/-- The variables hold proper values of their types, and the functions hold the literals of such values. -/
structure World.Sound (w : World) : Prop where
  globals : FrameAll Value.Proper w.store.globals
  frames : ∀ f ∈ w.store.frames, FrameAll Value.Proper f
  functions : ∀ e ∈ w.functions, ∀ v ∈ Stmt.literalsAll e.2.body, v.Proper

theorem FrameAll.insert {P : Value → Prop} {f : Frame} (h : FrameAll P f) (x : String) {c : Binding}
    (hc : ∀ v ∈ c.value, P v ∧ v.ty = c.ty) : FrameAll P (Assoc.insert f x c) := by
  intro e he
  rcases Assoc.mem_insert he with rfl | he
  · exact hc
  · exact h e he

theorem FrameAll.get? {P : Value → Prop} {f : Frame} (h : FrameAll P f) {x : String} {c : Binding}
    (hx : f.get? x = some c) : ∀ v ∈ c.value, P v ∧ v.ty = c.ty := h (x, c) (Assoc.mem_of_get? hx)

namespace World.Sound
variable {w w' : World}

theorem start (input : String) (tracing : Bool) : (World.start input tracing).Sound :=
  ⟨List.forall_mem_nil _, List.forall_mem_nil _, List.forall_mem_nil _⟩

/-- Input, output and events do not count. -/
theorem congr (h : w.Sound) (hstore : w'.store = w.store) (hfunctions : w'.functions = w.functions) : w'.Sound where
  globals := hstore ▸ h.globals
  frames := hstore ▸ h.frames
  functions := hfunctions ▸ h.functions

theorem current (h : w.Sound) : FrameAll Value.Proper w.store.current := by
  unfold Store.current
  cases hframes : w.store.frames with
  | nil => exact h.globals
  | cons f fs => exact h.frames f (hframes ▸ List.mem_cons_self)

/-- A declaration without a value, or with a proper one of its type. -/
theorem declare (h : w.Sound) (x : String) {t : Ty} {o : Option Value} (ho : ∀ v ∈ o, v.Proper ∧ v.ty = t) :
    ({ w with store := w.store.declare x t o } : World).Sound := by
  obtain ⟨⟨globals, frames⟩, functions, input, output, tracing, events⟩ := w
  cases frames with
  | nil => exact ⟨h.globals.insert x ho, h.frames, h.functions⟩
  | cons f fs =>
    obtain ⟨hf, hfs⟩ := List.forall_mem_cons.mp h.frames
    exact ⟨h.globals, List.forall_mem_cons.mpr ⟨hf.insert x ho, hfs⟩, h.functions⟩

/-- An assignment takes only values of the variable's type. -/
theorem set (h : w.Sound) {x : String} {v : Value} (hv : v.Proper) {s : Store} (hs : w.store.set x v = .ok s) :
    ({ w with store := s } : World).Sound := by
  obtain ⟨c, hty, ⟨-, rfl⟩ | ⟨-, rfl⟩⟩ := Store.set_eq_ok hs
  · exact h.declare x fun u hu => Option.mem_some.mp hu ▸ ⟨hv, hty⟩
  · exact ⟨h.globals.insert x fun u hu => Option.mem_some.mp hu ▸ ⟨hv, hty⟩, h.frames, h.functions⟩

/-- What a variable holds is proper. -/
theorem get (h : w.Sound) {x : String} {v : Value} (hx : w.store.get x = .ok v) : v.Proper := by
  unfold Store.get Store.lookup at hx
  cases hc : w.store.current.get? x with
  | none => simp [hc, bind, Except.bind] at hx
  | some c =>
    cases hv : c.value with
    | none => simp [hc, hv, bind, Except.bind] at hx
    | some u =>
      simp only [hc, hv, bind, Except.bind, Except.ok.injEq] at hx
      exact hx ▸ (h.current.get? hc u hv).1

theorem function (h : w.Sound) {x : String} {f : Function} (hx : w.functions.get? x = some f) :
    ∀ v ∈ Stmt.literalsAll f.body, v.Proper := h.functions (x, f) (Assoc.mem_of_get? hx)

theorem push (h : w.Sound) {frame : Frame} (hframe : FrameAll Value.Proper frame) :
    ({ w with store := w.store.push frame } : World).Sound :=
  ⟨h.globals, List.forall_mem_cons.mpr ⟨hframe, h.frames⟩, h.functions⟩

theorem dropFrame (h : w.Sound) : ({ w with store := w.store.dropFrame } : World).Sound :=
  ⟨h.globals, fun f hf => h.frames f (List.mem_of_mem_tail hf), h.functions⟩

theorem define (h : w.Sound) {f : Function} (hf : ∀ v ∈ Stmt.literalsAll f.body, v.Proper) : (w.define f).Sound := by
  have hinsert : ({ w with functions := w.functions.insert f.name f } : World).Sound := by
    refine ⟨h.globals, h.frames, fun e he => ?_⟩
    rcases Assoc.mem_insert he with rfl | he
    · exact hf
    · exact h.functions e he
  obtain ⟨events, h⟩ := World.record_eq { w with functions := w.functions.insert f.name f } (.defineFunction f.name)
  unfold World.define
  rw [h]
  exact hinsert.congr rfl rfl

end World.Sound

/-! ### Guarded runs -/

/-- All worlds are sound, and all values are proper. -/
def soundGuard : Guard where
  start := World.Sound
  seen m := m.world.Sound ∧ ∀ v ∈ m.values, v.Proper
  keeps _ w := w.Sound
  refl h := h
  trans _ h := h
  next _ h := h

section Steps
variable {α : Type} {P : α → Prop} {r : Run α} {u w : World}

theorem soundGuard.endIn {a : Except Stop α} (h : r w = Execution.endIn a u) (hu : u.Sound)
    (ha : ∀ b, a = .ok b → P b) : soundGuard.Holds w (Watched.step r w) P :=
  Guard.holds_endIn h hu ⟨hu, List.forall_mem_nil _⟩ ha

theorem soundGuard.silent (h : Silent r P) : soundGuard.Allows (Watched.step r) P :=
  Guard.allows_silent h fun _ hw _ => ⟨hw.congr rfl rfl, hw.congr rfl rfl, List.forall_mem_nil _⟩

theorem soundGuard.declare (x : String) {t : Ty} {o : Option Value} (ho : ∀ v ∈ o, v.Proper ∧ v.ty = t) :
    soundGuard.Allows (Watched.step (declareVariable x t o)) fun _ => True := by
  intro w hw
  obtain ⟨events, h⟩ := declareVariable_eq x t o w
  exact soundGuard.endIn (a := .ok ()) h ((hw.declare x ho).congr rfl rfl) fun _ _ => trivial

theorem soundGuard.assign (x : String) {v : Value} (hv : v.Proper) :
    soundGuard.Allows (Watched.step (assignVariable x v)) fun _ => True := by
  intro w hw
  have h := assignVariable_eq x v w
  cases hs : w.store.set x v with
  | ok s =>
    rw [hs] at h
    exact soundGuard.endIn (a := .ok ()) h (hw.set hv hs) fun _ _ => trivial
  | error e =>
    rw [hs] at h
    exact soundGuard.endIn (a := .error _) h hw fun _ _ => trivial

theorem soundGuard.print (v : Value) : soundGuard.Allows (Watched.step (printValue v)) fun _ => True := by
  intro w hw
  have h := printValue_eq v w
  split at h
  · exact soundGuard.endIn (a := .error _) h hw fun _ _ => trivial
  · exact soundGuard.endIn (a := .ok ()) h (hw.congr rfl rfl) fun _ _ => trivial

/-- The value that a line holds is of the type that the variable is declared with. -/
theorem soundGuard.input (x : String) : soundGuard.Allows (Watched.step (readVariable x)) fun _ => True := by
  intro w hw
  have h := readVariable_eq x w
  cases hx : w.store.lookup x with
  | error e =>
    rw [hx] at h
    exact soundGuard.endIn (a := .error _) h hw fun _ _ => trivial
  | ok c =>
    simp only [hx] at h
    cases hline : World.nextLine? w.input with
    | none =>
      simp only [hline] at h
      exact soundGuard.endIn (a := .error _) h (hw.congr rfl rfl) fun _ _ => trivial
    | some l =>
      simp only [hline] at h
      cases hread : Value.read c.ty l.1 with
      | error e =>
        simp only [hread] at h
        exact soundGuard.endIn (a := .error _) h (hw.congr rfl rfl) fun _ _ => trivial
      | ok v =>
        simp only [hread] at h
        have hdeclare := hw.declare x (t := c.ty) (o := some v) fun u hu =>
          Option.mem_some.mp hu ▸ Value.proper_read hread
        exact soundGuard.endIn (a := .ok ()) h (hdeclare.congr rfl rfl) fun _ _ => trivial

end Steps

def soundness (b : Bounds) : Judgment b where
  value := Value.Proper
  room _ := True
  expr _ r P := soundGuard.Allows r P
  stmt _ r P := soundGuard.Allows r P
  value_unary hv h := hv.unary h
  value_binary hv hw h := hv.binary hw h
  value_widen hv h := hv.widen h
  expr_pure ha := Guard.allows_pure ha
  expr_silent h := soundGuard.silent h
  expr_bind h hk := h.bind hk
  expr_giving h hvalues := h.giving fun _ hw a ha => ⟨hw, hvalues a ha⟩
  expr_get x w hw := soundGuard.endIn (Run.ask_eq _ w) hw fun v hv => by
    cases hx : w.store.get x with
    | ok u =>
      rw [hx] at hv
      cases hv
      exact hw.get hx
    | error e =>
      rw [hx] at hv
      cases hv
  expr_callee x arity w hw := soundGuard.endIn (callee_eq b x arity w) hw fun f hf =>
    ⟨trivial, hw.function (callable_eq_ok hf).1⟩
  expr_inFrame _ hframe h := h.inFrame (fun _ hw => ⟨hw.push hframe, hw.push hframe, List.forall_mem_nil _⟩)
    (fun _ hm => hm) fun _ _ _ hw => ⟨hw.dropFrame, hw.dropFrame, List.forall_mem_nil _⟩
  stmt_expr h := h
  stmt_bind h hk := h.bind hk
  stmt_target x w hw := soundGuard.endIn (targetType_eq x w) hw fun _ _ => trivial
  stmt_declare x _ _ ho := soundGuard.declare x ho
  stmt_assign x _ hv := soundGuard.assign x hv
  stmt_print v := soundGuard.print v
  stmt_input x := soundGuard.input x

/-! ### Tasks -/

/-- The literals of what is run stand in texts that are programs. -/
def Task.FromTexts (t : Task) : Prop :=
  ∀ v ∈ t.literals, ∃ text p, Program.parse text = .ok p ∧ v ∈ p.literals

theorem Task.FromTexts.proper {t : Task} (h : t.FromTexts) : ∀ v ∈ t.literals, v.Proper := by
  intro v hv
  obtain ⟨text, p, hp, hv⟩ := h v hv
  exact Syntax.literals_proper hp v hv

theorem soundGuard.define {fs : List Function} (h : ∀ f ∈ fs, ∀ v ∈ Stmt.literalsAll f.body, v.Proper) :
    soundGuard.Allows (Watched.step (defineFunctions fs)) fun _ => True := by
  have hfold : ∀ w : World, w.Sound → (fs.foldl World.define w).Sound := by
    induction fs with
    | nil => exact fun _ hw => hw
    | cons f fs ih =>
      rw [List.forall_mem_cons] at h
      exact fun w hw => ih h.2 _ (hw.define h.1)
  exact fun w hw => soundGuard.endIn (a := .ok ()) rfl (hfold w hw) fun _ _ => trivial

theorem soundGuard.task (b : Bounds) {t : Task} (h : ∀ v ∈ t.literals, v.Proper) :
    soundGuard.Allows (t.watched b) fun _ => True := by
  have hholds := (soundness b).holdsWithin b.budget
  have hdiscard : ∀ {α : Type} {P : α → Prop} {r : Watched α}, soundGuard.Allows r P →
      soundGuard.Allows (discard r) fun _ => True := fun hr => hr.bind fun _ _ => Guard.allows_pure trivial
  have hnocall : ∀ e : Expr, (∀ name args, e ≠ .call name args) →
      soundGuard.Allows (Watched.step (callOf b e)) fun _ => True := by
    intro e he w hw
    obtain ⟨s, hs⟩ := Task.callOf_eq_error b he w
    exact soundGuard.endIn (a := .error s) hs hw fun _ _ => trivial
  cases t with
  | program p =>
    refine (soundGuard.define fun f hf v hv => h v (Program.literals_functions hf hv)).bind fun _ _ => ?_
    split
    · exact hdiscard (hholds.executeBlock 0 p.actions fun v hv => h v (Program.literals_actions hv))
    · exact fun w hw => soundGuard.endIn (a := .error _) rfl hw fun _ _ => trivial
  | statement s => exact hdiscard (hholds.execute 0 s h)
  | call e =>
    cases e with
    | call name args => exact hdiscard (hholds.call 0 name args h)
    | _ => exact hdiscard (hnocall _ fun _ _ => Expr.noConfusion)
  | expression e => exact hdiscard (hholds.evaluate 0 e h)

/-- From the start on, at every moment of tasks with programs from texts the world is sound and what has been
    computed is proper; so is the world behind them, which is the one that the tasks leave when nobody watches. -/
theorem tasks_sound (b : Bounds) {ts : List Task} (h : ∀ t ∈ ts, t.FromTexts) (input : String) (tracing : Bool) :
    (∀ t ∈ ts, (t.watched b).run = t.run b) ∧
    (∀ m ∈ Task.momentsOfAll b ts (World.start input tracing), m.world.Sound ∧ ∀ v ∈ m.values, v.Proper) ∧
    (Task.runAll b ts (World.start input tracing)).Sound := by
  have hts : ∀ t ∈ ts, soundGuard.Allows (t.watched b) fun _ => True := fun t ht => soundGuard.task b (h t ht).proper
  obtain ⟨hlast, hseen⟩ := Task.allows_all hts (.start input tracing)
  exact ⟨fun t _ => t.run_watched b, hseen, hlast⟩

/-- An addition that is out of range, a character that is read in a call, and an assignment that is refused. -/
def overflowText : String :=
  "var n: int = 9223372036854775807 + 1; func f(c: char): void \x7b input(c); n = c; \x7d f('a');"

def overflowProgram : Program :=
  ⟨[.varDecl "n" .int (some (.binary (.literal (.int 9223372036854775807)) .add (.literal (.int 1)))),
    .function "f" [⟨"c", .char⟩] .void [.input "c", .assign "n" (.var "c")],
    .expr (.call "f" [.literal (.char "a")])]⟩

theorem tokenize_overflowText : tokenize overflowText =
    [⟨.varWord, "var", ⟨1, 1⟩⟩, ⟨.ident, "n", ⟨1, 5⟩⟩, ⟨.colon, ":", ⟨1, 6⟩⟩, ⟨.ident, "int", ⟨1, 8⟩⟩,
      ⟨.assign, "=", ⟨1, 12⟩⟩, ⟨.integer, "9223372036854775807", ⟨1, 14⟩⟩, ⟨.plus, "+", ⟨1, 34⟩⟩,
      ⟨.integer, "1", ⟨1, 36⟩⟩, ⟨.semicolon, ";", ⟨1, 37⟩⟩, ⟨.funcWord, "func", ⟨1, 39⟩⟩, ⟨.ident, "f", ⟨1, 44⟩⟩,
      ⟨.lparen, "(", ⟨1, 45⟩⟩, ⟨.ident, "c", ⟨1, 46⟩⟩, ⟨.colon, ":", ⟨1, 47⟩⟩, ⟨.ident, "char", ⟨1, 49⟩⟩,
      ⟨.rparen, ")", ⟨1, 53⟩⟩, ⟨.colon, ":", ⟨1, 54⟩⟩, ⟨.ident, "void", ⟨1, 56⟩⟩, ⟨.lbrace, "\x7b", ⟨1, 61⟩⟩,
      ⟨.inputWord, "input", ⟨1, 63⟩⟩, ⟨.lparen, "(", ⟨1, 68⟩⟩, ⟨.ident, "c", ⟨1, 69⟩⟩, ⟨.rparen, ")", ⟨1, 70⟩⟩,
      ⟨.semicolon, ";", ⟨1, 71⟩⟩, ⟨.ident, "n", ⟨1, 73⟩⟩, ⟨.assign, "=", ⟨1, 75⟩⟩, ⟨.ident, "c", ⟨1, 77⟩⟩,
      ⟨.semicolon, ";", ⟨1, 78⟩⟩, ⟨.rbrace, "\x7d", ⟨1, 80⟩⟩, ⟨.ident, "f", ⟨1, 82⟩⟩, ⟨.lparen, "(", ⟨1, 83⟩⟩,
      ⟨.char, "a", ⟨1, 84⟩⟩, ⟨.rparen, ")", ⟨1, 87⟩⟩, ⟨.semicolon, ";", ⟨1, 88⟩⟩, ⟨.eof, "", ⟨1, 89⟩⟩] := by
  rw [tokenize_eq_tokensWithin]
  decide +kernel

theorem parse_overflowText : Program.parse overflowText = .ok overflowProgram := by
  rw [Program.parse, tokenize_overflowText]
  rfl

/-- The program fails in a call; the other tasks go on with the globals as the failure has left them. -/
def overflowTasks : List Task := [.program overflowProgram, .statement (.input "n"), .expression (.var "n")]

theorem fromTexts_overflowTasks : ∀ t ∈ overflowTasks, t.FromTexts := by
  simp only [overflowTasks, List.forall_mem_cons]
  exact ⟨fun v hv => ⟨overflowText, overflowProgram, parse_overflowText, hv⟩, List.forall_mem_nil _,
    List.forall_mem_nil _, List.forall_mem_nil _⟩

theorem overflow_tasks_sound :
    (∀ t ∈ overflowTasks, t.FromTexts) ∧
    (∀ m ∈ Task.momentsOfAll ⟨1000, 1000⟩ overflowTasks (World.start "xyz\n12" false),
      m.world.Sound ∧ ∀ v ∈ m.values, v.Proper) ∧
    (Task.runAll ⟨1000, 1000⟩ [.program overflowProgram] (World.start "xyz\n12" false)).store =
      ⟨[("n", ⟨.int, some (.int (-9223372036854775808))⟩)], []⟩ ∧
    (Task.runAll ⟨1000, 1000⟩ overflowTasks (World.start "xyz\n12" false)).store =
      ⟨[("n", ⟨.int, some (.int 12)⟩)], []⟩ :=
  ⟨fromTexts_overflowTasks, (tasks_sound ⟨1000, 1000⟩ fromTexts_overflowTasks "xyz\n12" false).2.1, rfl, rfl⟩

end Execution
end TypedImp
