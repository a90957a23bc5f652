import TypedImp.Execution.Interpreter
import TypedImp.Proofs.State
import TypedImp.Proofs.Typing.Rules

/-! What a run does to the types of the variables. Blocks and the headers of loops have no scope of their
    own while a program runs: their declarations bind their names in the frame of the active call, or in the
    globals where no call is active, and the bindings stay. So a statement keeps the name of every variable,
    and it changes the type of one only to a type with which the statement itself declares that name. -/

namespace TypedImp

/-! ### Frames -/

/-- From `f` to `g` no name is lost, and a name has the type that it had or one with which `D` declares it. -/
structure Frame.Retyped (D : List (String × Ty)) (f g : Frame) : Prop where
  kept : ∀ x, f.has x = true → g.has x = true
  typed : ∀ x b, g.get? x = some b → (∃ a, f.get? x = some a ∧ a.ty = b.ty) ∨ (x, b.ty) ∈ D

namespace Frame.Retyped
variable {D D' : List (String × Ty)} {f g h : Frame}

theorem refl (D : List (String × Ty)) (f : Frame) : Frame.Retyped D f f where
  kept _ hx := hx
  typed _ b hb := .inl ⟨b, hb, rfl⟩

theorem trans (h₁ : Frame.Retyped D f g) (h₂ : Frame.Retyped D g h) : Frame.Retyped D f h where
  kept x hx := h₂.kept x (h₁.kept x hx)
  typed x c hc := by
    rcases h₂.typed x c hc with ⟨b, hb, hbc⟩ | hD
    · rw [← hbc]
      exact h₁.typed x b hb
    · exact .inr hD

theorem mono (hD : D ⊆ D') (h : Frame.Retyped D f g) : Frame.Retyped D' f g where
  kept := h.kept
  typed x b hb := (h.typed x b hb).imp_right fun hx => hD hx

/-- A variable stays bound, with its type or a declared one. -/
theorem get? (h : Frame.Retyped D f g) {x : String} {a : Binding} (ha : f.get? x = some a) :
    ∃ b, g.get? x = some b ∧ (b.ty = a.ty ∨ (x, b.ty) ∈ D) := by
  have hg : g.has x = true := h.kept x (by rw [Assoc.has, ha]; rfl)
  obtain ⟨b, hb⟩ := Option.isSome_iff_exists.mp hg
  refine ⟨b, hb, (h.typed x b hb).imp_left ?_⟩
  rintro ⟨a', ha', hty⟩
  rw [ha] at ha'
  cases ha'
  exact hty.symm

/-- A binding with the type of the one before, or with a declared type. -/
theorem insert (f : Frame) (x : String) (b : Binding)
    (hb : (∃ a, f.get? x = some a ∧ a.ty = b.ty) ∨ (x, b.ty) ∈ D) : Frame.Retyped D f (Assoc.insert f x b) where
  kept y hy := by
    by_cases hyx : y = x
    · rw [hyx, Assoc.has, Assoc.get?_insert_self]
      rfl
    · rwa [Assoc.has, Assoc.get?_insert_of_ne f b hyx]
  typed y c hc := by
    by_cases hyx : y = x
    · subst hyx
      rw [Assoc.get?_insert_self] at hc
      cases hc
      exact hb
    · rw [Assoc.get?_insert_of_ne f b hyx] at hc
      exact .inl ⟨c, hc, rfl⟩

end Frame.Retyped

/-! ### Stores -/

namespace Store

/-- An assignment changes a binding of the active call, or else a global one. -/
theorem assignable_eq_ok {s : Store} {x : String} {b : Binding} (h : s.assignable x = .ok b) :
    (s.isLocal x = true ∧ s.current.get? x = some b) ∨ (s.isLocal x = false ∧ s.globals.get? x = some b) := by
  unfold assignable at h
  obtain ⟨globals, frames⟩ := s
  split at h
  · next c hc =>
    cases h
    cases frames with
    | nil => exact .inr ⟨rfl, hc⟩
    | cons frame frames =>
      rcases Option.or_eq_some_iff.mp hc with hf | ⟨hf, hg⟩
      · refine .inl ⟨?_, hf⟩
        show (Assoc.get? frame x).isSome = true
        rw [show Assoc.get? frame x = some b from hf]
        rfl
      · refine .inr ⟨?_, hg⟩
        show (Assoc.get? frame x).isSome = false
        rw [show Assoc.get? frame x = none from hf]
        rfl
  · cases h

/-- An assignment that is made gives the value to the variable that it found. -/
theorem set_target {s t : Store} {x : String} {v : Value} (h : s.set x v = .ok t) :
    ∃ b, v.ty = b.ty ∧
      ((s.isLocal x = true ∧ s.current.get? x = some b ∧ t = s.mapCurrent fun frame => frame.insert x ⟨b.ty, some v⟩) ∨
        (s.isLocal x = false ∧ s.globals.get? x = some b ∧
          t = { s with globals := s.globals.insert x ⟨b.ty, some v⟩ })) := by
  unfold set at h
  cases hb : s.assignable x with
  | error e =>
    rw [hb] at h
    cases h
  | ok b =>
    rw [hb] at h
    simp only [bind, Except.bind] at h
    split at h
    · cases h
    · next hty =>
      refine ⟨b, Decidable.of_not_not hty, ?_⟩
      rcases assignable_eq_ok hb with ⟨hlocal, hget⟩ | ⟨hlocal, hget⟩
      · rw [if_pos hlocal] at h
        exact .inl ⟨hlocal, hget, (Except.ok.inj h).symm⟩
      · rw [hlocal] at h
        exact .inr ⟨hlocal, hget, (Except.ok.inj h).symm⟩

theorem set_eq_ok {s t : Store} {x : String} {v : Value} (h : s.set x v = .ok t) :
    ∃ b, v.ty = b.ty ∧
      ((s.current.get? x = some b ∧ t = s.mapCurrent fun frame => frame.insert x ⟨b.ty, some v⟩) ∨
        (s.globals.get? x = some b ∧ t = { s with globals := s.globals.insert x ⟨b.ty, some v⟩ })) := by
  obtain ⟨b, hty, ⟨-, hset⟩ | ⟨-, hset⟩⟩ := set_target h
  · exact ⟨b, hty, .inl hset⟩
  · exact ⟨b, hty, .inr hset⟩

end Store

/-- From `s` to `t` only the bindings that can be read may change their types, as `D` says. The frames
    around the innermost one do not change, and where they hide the globals these keep their types. -/
structure Store.Retyped (D : List (String × Ty)) (s t : Store) : Prop where
  current : Frame.Retyped D s.current t.current
  outer : t.frames.tail = s.frames.tail
  depth : t.depth = s.depth
  globals : s.frames ≠ [] → Frame.Retyped [] s.globals t.globals

namespace Store.Retyped
variable {D D' : List (String × Ty)} {s t u : Store}

theorem refl (D : List (String × Ty)) (s : Store) : Store.Retyped D s s :=
  ⟨.refl D _, rfl, rfl, fun _ => .refl [] _⟩

theorem frames_ne_nil (h : Store.Retyped D s t) : t.frames ≠ [] ↔ s.frames ≠ [] := by
  have hdepth := h.depth
  unfold Store.depth at hdepth
  rw [← List.length_pos_iff, ← List.length_pos_iff, hdepth]

theorem trans (h₁ : Store.Retyped D s t) (h₂ : Store.Retyped D t u) : Store.Retyped D s u where
  current := h₁.current.trans h₂.current
  outer := h₂.outer.trans h₁.outer
  depth := h₂.depth.trans h₁.depth
  globals hs := (h₁.globals hs).trans (h₂.globals (h₁.frames_ne_nil.mpr hs))

theorem mono (hD : D ⊆ D') (h : Store.Retyped D s t) : Store.Retyped D' s t :=
  { h with current := h.current.mono hD }

/-- A change of one binding that can be read. -/
theorem mapCurrent (s : Store) (x : String) (b : Binding)
    (hb : (∃ a, s.current.get? x = some a ∧ a.ty = b.ty) ∨ (x, b.ty) ∈ D) :
    Store.Retyped D s (s.mapCurrent fun frame => frame.insert x b) := by
  obtain ⟨globals, frames⟩ := s
  cases frames with
  | nil => exact ⟨Frame.Retyped.insert globals x b hb, rfl, rfl, fun h => absurd rfl h⟩
  | cons frame frames => exact ⟨Frame.Retyped.insert frame x b hb, rfl, rfl, fun _ => .refl [] _⟩

theorem declare (s : Store) (x : String) (ty : Ty) (v : Option Value) :
    Store.Retyped [(x, ty)] s (s.declare x ty v) :=
  mapCurrent s x ⟨ty, v⟩ (.inr (List.mem_singleton.mpr rfl))

/-- A new value for a variable that can be read. -/
theorem redeclare {x : String} {a : Binding} (ha : s.lookup x = .ok a) (v : Option Value) :
    Store.Retyped [] s (s.declare x a.ty v) := by
  refine mapCurrent s x ⟨a.ty, v⟩ (.inl ⟨a, ?_, rfl⟩)
  unfold Store.lookup at ha
  split at ha
  · next b hb => exact (Except.ok.inj ha) ▸ hb
  · cases ha

theorem set {x : String} {v : Value} (h : s.set x v = .ok t) : Store.Retyped [] s t := by
  obtain ⟨b, -, ⟨hb, rfl⟩ | ⟨hb, rfl⟩⟩ := Store.set_eq_ok h
  · exact mapCurrent s x _ (.inl ⟨b, hb, rfl⟩)
  · refine ⟨?_, rfl, rfl, fun _ => Frame.Retyped.insert s.globals x _ (.inl ⟨b, hb, rfl⟩)⟩
    obtain ⟨globals, frames⟩ := s
    cases frames with
    | nil => exact Frame.Retyped.insert globals x _ (.inl ⟨b, hb, rfl⟩)
    | cons frame frames => exact .refl [] frame

/-- What happens in a frame of its own leaves no trace in the types outside. -/
theorem dropFrame {frame : Frame} (h : Store.Retyped D (s.push frame) t) : Store.Retyped [] s t.dropFrame := by
  obtain ⟨globals, frames⟩ := t
  have houter : frames.tail = s.frames := h.outer
  have hglobals := h.globals (List.cons_ne_nil _ _)
  refine ⟨?_, ?_, ?_, fun _ => hglobals⟩
  · show Frame.Retyped [] (s.frames.headD s.globals) (frames.tail.headD globals)
    rw [houter]
    cases s.frames with
    | nil => exact hglobals
    | cons f fs => exact .refl [] f
  · show frames.tail.tail = s.frames.tail
    rw [houter]
  · show frames.tail.length = s.frames.length
    rw [houter]

end Store.Retyped

/-! ### Runs -/

namespace Execution

namespace Run
variable {α : Type} {r : Run α} {w w' : World}

theorem run_of_ok {a : α} (h : r w = .ok a w') : r.run w = ⟨.ok a, w'⟩ := by
  rw [run, h]

theorem run_of_error {e : Stop} (h : r w = .error e w') : r.run w = ⟨.error e, w'⟩ := by
  rw [run, h]

theorem ask_of_ok {question : Store → Except StoreError α} {a : α} (h : question w.store = .ok a) :
    ask question w = .ok a w := by
  have hget : (get : Run World) w = .ok w w := rfl
  rw [ask, State.bind_of_ok hget, h]
  rfl

theorem ask_of_error {question : Store → Except StoreError α} {e : StoreError}
    (h : question w.store = .error e) : ask question w = .error (.failed (.store e)) w := by
  have hget : (get : Run World) w = .ok w w := rfl
  rw [ask, State.bind_of_ok hget, h]
  rfl

end Run

/-- A loop with a round left, as one run. -/
theorem repeatWhile_succ (condition : Run Bool) (body : Run Flow) (step : Run Unit) (rounds : Nat) :
    repeatWhile condition body step (rounds + 1) = (do
      if ← condition then
        match ← body with
        | .returning v => return .returning v
        | .normal =>
          step
          repeatWhile condition body step rounds
      else return .normal : Run Flow) := by
  funext w
  rw [repeatWhile]
  cases hw : condition w with
  | error e w₁ => rw [State.bind_of_error hw]
  | ok holds w₁ =>
    rw [State.bind_of_ok hw]
    cases holds with
    | false => rfl
    | true =>
      dsimp only
      rw [if_pos rfl]
      cases hbody : body w₁ with
      | error e w₂ => rw [State.bind_of_error hbody]
      | ok flow w₂ =>
        rw [State.bind_of_ok hbody]
        cases flow with
        | returning v => rfl
        | normal =>
          dsimp only
          cases hstep : step w₂ with
          | error e w₃ => exact (State.bind_of_error hstep).symm
          | ok u w₃ =>
            have hnext := State.bind_of_ok (k := fun _ => repeatWhile condition body step rounds) hstep
            exact hnext.symm

theorem World.store_readLine? {w w' : World} {line : String} (h : w.readLine? = some (line, w')) :
    w'.store = w.store := by
  unfold World.readLine? at h
  split at h
  · cases h
  · cases h
    rfl

theorem World.store_record (w : World) (e : Event) : (w.record e).store = w.store := by
  unfold World.record
  split
  · rfl
  · rfl

/-- Whether the run ends or stops, it changes the types of variables only as `D` says. -/
def Retypes {α : Type} (D : List (String × Ty)) (r : Run α) : Prop :=
  ∀ w, Store.Retyped D w.store (r.run w).world.store

namespace Retypes
variable {α β : Type} {D D' : List (String × Ty)} {r : Run α}

theorem mono (hD : D ⊆ D') (h : Retypes D r) : Retypes D' r := fun w => (h w).mono hD

/-- A run that declares nothing. -/
theorem weaken (D : List (String × Ty)) (h : Retypes [] r) : Retypes D r := h.mono (List.nil_subset D)

theorem pure (a : α) : Retypes D (pure a : Run α) := fun w => .refl D w.store

theorem fail (e : Error) : Retypes D (Run.fail e : Run α) := fun w => .refl D w.store

theorem bind {k : α → Run β} (h : Retypes D r) (hk : ∀ a, Retypes D (k a)) : Retypes D (r >>= k) := by
  intro w
  have hr := h w
  cases hw : r w with
  | ok a w' =>
    rw [Run.run_of_ok hw] at hr
    have hrun : (r >>= k).run w = (k a).run w' := by rw [Run.run, State.bind_of_ok hw, Run.run]
    rw [hrun]
    exact hr.trans (hk a w')
  | error e w' =>
    rw [Run.run_of_error hw] at hr
    rwa [Run.run_of_error (State.bind_of_error hw)]

theorem discard (h : Retypes D r) : Retypes D (discard r) := h.bind fun _ => .pure _

theorem map {f : α → β} (h : Retypes D r) : Retypes D (f <$> r) := h.bind fun _ => .pure _

theorem look : Retypes D (get : Run World) := fun w => .refl D w.store

theorem change {f : World → World} (h : ∀ w, Store.Retyped D w.store (f w).store) :
    Retypes D (modify f : Run Unit) := h

theorem record (e : Event) : Retypes D (Run.record e) := by
  intro w
  show Store.Retyped D w.store (w.record e).store
  rw [World.store_record]
  exact .refl D w.store

theorem ask (question : Store → Except StoreError α) : Retypes D (Run.ask question) := by
  refine look.bind fun w => ?_
  split
  · exact .pure _
  · exact .fail _

theorem operate (v : Except OperationError Value) : Retypes D (Run.operate v) := by
  unfold Run.operate
  split
  · exact .pure _
  · exact .fail _

theorem widen (v : Value) (ty : Ty) : Retypes D (Run.widen v ty) := by
  unfold Run.widen
  split
  · exact .pure _
  · exact .fail _

theorem require (v : Value) (ty : Ty) (otherwise : Ty → Error) : Retypes D (Run.require v ty otherwise) := by
  refine (widen v ty).bind fun v => ?_
  split
  · exact .pure _
  · exact .fail _

/-- A run in a frame of its own. -/
theorem inFrame {frame : Frame} (h : Retypes D r) : Retypes [] (Run.inFrame frame r) := by
  intro w
  have hr := h { w with store := w.store.push frame }
  cases hw : r { w with store := w.store.push frame } with
  | ok a w' =>
    rw [Run.run_of_ok hw] at hr
    have hrun : (Run.inFrame frame r).run w = ⟨.ok a, { w' with store := w'.store.dropFrame }⟩ := by
      rw [Run.run, Run.inFrame, hw]
    rw [hrun]
    exact hr.dropFrame
  | error e w' =>
    rw [Run.run_of_error hw] at hr
    have hrun : (Run.inFrame frame r).run w = ⟨.error e, { w' with store := w'.store.dropFrame }⟩ := by
      rw [Run.run, Run.inFrame, hw]
    rw [hrun]
    exact hr.dropFrame

/-! ### Steps -/

theorem declareVariable (name : String) (ty : Ty) (v : Option Value) :
    Retypes [(name, ty)] (declareVariable name ty v) :=
  bind (change fun w => .declare w.store name ty v) fun _ => record _

theorem printValue (v : Value) : Retypes D (printValue v) := by
  unfold Execution.printValue
  split
  · exact fail _
  · exact change fun w => .refl D w.store

theorem assignVariable (name : String) (v : Value) : Retypes [] (assignVariable name v) := by
  intro w
  unfold Execution.assignVariable
  cases h : w.store.set name v with
  | ok s =>
    rw [Run.run, State.bind_of_ok (Run.ask_of_ok h)]
    exact .set h
  | error e =>
    rw [Run.run, State.bind_of_error (Run.ask_of_error h)]
    exact .refl [] w.store

/-- A value that is read does not change the type of its variable. -/
theorem readVariable (name : String) : Retypes [] (readVariable name) := by
  intro w
  unfold Execution.readVariable
  cases h : w.store.lookup name with
  | error e =>
    rw [Run.run, State.bind_of_error (Run.ask_of_error h)]
    exact .refl [] w.store
  | ok b =>
    let w₁ := w.write (name ++ " = ")
    have hwrite : (modify fun w => w.write (name ++ " = ") : Run Unit) w = .ok () w₁ := rfl
    have hget : (get : Run World) w₁ = .ok w₁ w₁ := rfl
    rw [Run.run, State.bind_of_ok (Run.ask_of_ok h), State.bind_of_ok hwrite, State.bind_of_ok hget]
    cases hline : w₁.readLine? with
    | none => exact .refl [] w.store
    | some line =>
      obtain ⟨text, w₂⟩ := line
      have hset : (set w₂ : Run PUnit) w₁ = .ok () w₂ := rfl
      have hstore : w₂.store = w₁.store := World.store_readLine? hline
      dsimp only
      rw [State.bind_of_ok hset]
      cases Value.read b.ty text with
      | error e => 
        show Store.Retyped [] w.store w₂.store
        rw [hstore]
        exact .refl [] w.store
      | ok v =>
        show Store.Retyped [] w.store (w₂.store.declare name b.ty (some v))
        rw [hstore]
        exact .redeclare h (some v)

theorem asCondition (construct : Construct) (v : Value) : Retypes D (asCondition construct v) := by
  unfold Execution.asCondition
  split
  · exact (record _).bind fun _ => .pure _
  · exact .fail _

theorem asBool (op : BinaryOp) (v : Value) : Retypes D (asBool op v) := by
  unfold Execution.asBool
  split
  · exact .pure _
  · exact .fail _

theorem sequence {run : Stmt → Run Flow} (h : ∀ s, Retypes s.declarations (run s)) (ss : List Stmt) :
    Retypes (Stmt.declarationsAll ss) (sequence run ss) := by
  induction ss with
  | nil => exact pure _
  | cons s ss ih =>
    refine ((h s).mono (List.subset_append_left _ _)).bind fun flow => ?_
    split
    · exact ih.mono (List.subset_append_right _ _)
    · exact pure _

theorem repeatWhile {condition : Run Bool} {body : Run Flow} {step : Run Unit} (hc : Retypes D condition)
    (hb : Retypes D body) (hs : Retypes D step) (rounds : Nat) :
    Retypes D (repeatWhile condition body step rounds) := by
  induction rounds with
  | zero => exact fun w => .refl D w.store
  | succ rounds ih =>
    rw [repeatWhile_succ]
    refine hc.bind fun holds => ?_
    split
    · refine hb.bind fun flow => ?_
      split
      · exact pure _
      · exact hs.bind fun _ => ih
    · exact pure _

theorem bindArguments {run : Expr → Run Value} (h : ∀ e, Retypes D (run e)) (name : String) (index : Nat)
    (params : List Param) (args : List Expr) : Retypes D (bindArguments run name index params args) := by
  induction params generalizing index args with
  | nil => exact pure _
  | cons p params ih =>
    cases args with
    | nil => exact pure _
    | cons e args =>
      exact (h e).bind fun v => (require _ _ _).bind fun v => (ih _ _).bind fun _ => pure _

theorem requireTexts (index : Nat) (vs : List Value) : Retypes D (requireTexts index vs) := by
  induction vs generalizing index with
  | nil => exact pure _
  | cons v vs ih =>
    unfold Execution.requireTexts
    split
    · exact fail _
    · exact ih _

theorem resultOf (f : Function) (flow : Flow) : Retypes D (resultOf f flow) := by
  unfold Execution.resultOf
  split
  · split
    · exact fail _
    · exact pure _
  · split
    · exact (require _ _ _).map
    · exact fail _

end Retypes

/-! ### Expressions and statements -/

section Nested
variable {b : Bounds} {n : Nat}

/-- What an expression, a call, a statement and a block do within a budget. -/
structure RetypesWithin (b : Bounds) (n : Nat) : Prop where
  evaluate : ∀ e, Retypes [] (evaluate b n e)
  call : ∀ name args, Retypes [] (call b n name args)
  execute : ∀ s, Retypes s.declarations (execute b n s)
  executeBlock : ∀ ss, Retypes (Stmt.declarationsAll ss) (executeBlock b n ss)

theorem RetypesWithin.evaluate_succ (h : RetypesWithin b n) (e : Expr) :
    Retypes [] (Execution.evaluate b (n + 1) e) := by
  unfold Execution.evaluate
  cases e with
  | literal v => exact .pure _
  | var name => exact .ask _
  | unary op operand => exact (h.evaluate operand).bind fun v => .operate _
  | binary left op right =>
    refine (h.evaluate left).bind fun l => ?_
    split
    · refine (Retypes.asBool op l).bind fun decided => ?_
      split
      · exact .pure _
      · exact (h.evaluate right).bind fun r => (Retypes.asBool op r).discard.bind fun _ => .pure _
    · exact (h.evaluate right).bind fun r => .operate _
  | call name args =>
    refine (h.call name args).bind fun result => ?_
    split
    · exact .pure _
    · exact .fail _
  | stray node => exact .fail _
  | misnamed name node => exact .fail _

/-- The declarations of a called function stay in its own frame. -/
theorem RetypesWithin.call_succ (h : RetypesWithin b n) (name : String) (args : List Expr) :
    Retypes [] (Execution.call b (n + 1) name args) := by
  unfold Execution.call
  refine Retypes.look.bind fun w => ?_
  split
  · exact .fail _
  · next f _ =>
    split
    · exact .fail _
    · split
      · exact .fail _
      · refine (Retypes.bindArguments h.evaluate _ _ _ _).bind fun frame => ?_
        refine ((Retypes.requireTexts _ _).bind fun _ => .record _).bind fun _ => ?_
        exact (h.executeBlock f.body).inFrame.bind fun flow => .resultOf f flow

theorem RetypesWithin.condition (h : RetypesWithin b n) (D : List (String × Ty)) (construct : Construct)
    (cond : Expr) : Retypes D (Execution.evaluate b n cond >>= asCondition construct) :=
  ((h.evaluate cond).weaken D).bind fun v => .asCondition construct v

theorem RetypesWithin.execute_succ (h : RetypesWithin b n) (s : Stmt) :
    Retypes s.declarations (Execution.execute b (n + 1) s) := by
  unfold Execution.execute
  cases s with
  | varDecl name ty init =>
    cases init with
    | none => exact (Retypes.declareVariable name ty none).bind fun _ => .pure _
    | some e =>
      refine ((h.evaluate e).weaken _).bind fun v => (Retypes.require _ _ _).bind fun v => ?_
      exact (Retypes.declareVariable name ty (some v)).bind fun _ => .pure _
  | assign name value =>
    refine (Retypes.ask _).bind fun target => (h.evaluate value).bind fun v => (Retypes.widen _ _).bind fun v => ?_
    exact (Retypes.assignVariable name v).bind fun _ => .pure _
  | print e =>
    exact (h.evaluate e).bind fun v => (Retypes.printValue v).bind fun _ => .pure _
  | input name => exact (Retypes.readVariable name).bind fun _ => .pure _
  | ifThen cond body =>
    refine ((h.evaluate cond).weaken _).bind fun v => (Retypes.asCondition _ v).bind fun holds => ?_
    split
    · exact h.executeBlock body
    · exact .pure _
  | ifElse cond yes no =>
    refine ((h.evaluate cond).weaken _).bind fun v => (Retypes.asCondition _ v).bind fun holds => ?_
    split
    · exact (h.executeBlock yes).mono (List.subset_append_left _ _)
    · exact (h.executeBlock no).mono (List.subset_append_right _ _)
  | whileLoop cond body => exact .repeatWhile (h.condition _ _ cond) (h.executeBlock body) (.pure ()) _
  | forLoop init cond step body =>
    refine ((h.execute init).mono (List.subset_append_left _ _)).discard.bind fun _ => ?_
    have hrest : step.declarations ++ Stmt.declarationsAll body ⊆ (Stmt.forLoop init cond step body).declarations :=
      List.subset_append_right _ _
    refine .repeatWhile (h.condition _ _ cond) ((h.executeBlock body).mono ?_) ((h.execute step).mono ?_).discard _
    · exact List.Subset.trans (List.subset_append_right _ _) hrest
    · exact List.Subset.trans (List.subset_append_left _ _) hrest
  | function name params result body => exact .fail _
  | ret value =>
    cases value with
    | none => exact .pure _
    | some e => exact (h.evaluate e).bind fun _ => .pure _
  | expr e =>
    cases e with
    | call name args => exact (h.call name args).discard.bind fun _ => .pure _
    | _ => exact (h.evaluate _).discard.bind fun _ => .pure _
  | block body => exact h.executeBlock body
  | stray node => exact .fail _
  | misnamed name init node =>
    cases init with
    | none => exact (Retypes.pure ()).bind fun _ => .fail _
    | some d => exact (h.evaluate d.2).bind fun v => (Retypes.require _ _ _).discard.bind fun _ => .fail _
  | notBlock node => exact .fail _

theorem retypesWithin (b : Bounds) (n : Nat) : RetypesWithin b n := by
  induction n with
  | zero => exact ⟨fun _ => .fail _, fun _ _ => .fail _, fun _ => .fail _, fun _ => .fail _⟩
  | succ n ih =>
    exact ⟨ih.evaluate_succ, ih.call_succ, ih.execute_succ, fun ss => .sequence ih.execute ss⟩

end Nested
end Execution
end TypedImp
