import TypedImp.Proofs.Execution.Judgment

/-! Calls do not see the values of the globals. Two worlds that are alike but for these values are changed in
    lockstep while a call is active: assignments go to the globals, but nothing is read from them. -/

namespace TypedImp

/-! ### Alike stores -/

/-- A call is active in both stores, with the same frames, and their globals are declared alike. -/
structure Store.Alike (s t : Store) : Prop where
  active : s.frames ≠ []
  frames : t.frames = s.frames
  globals : ∀ x, (t.globals.get? x).map (·.ty) = (s.globals.get? x).map (·.ty)

/-- On the way from `s` and `t` to `s'` and `t'` each global has got the same binding or has kept its own. -/
def Store.Level (s t s' t' : Store) : Prop :=
  ∀ x, t'.globals.get? x = s'.globals.get? x ∨
    (s'.globals.get? x = s.globals.get? x ∧ t'.globals.get? x = t.globals.get? x)

namespace Store
variable {s t s' t' s'' t'' : Store}

theorem Level.refl (s t : Store) : Level s t s t := fun _ => .inr ⟨rfl, rfl⟩

theorem Level.trans (h : Level s t s' t') (h' : Level s' t' s'' t'') : Level s t s'' t'' := by
  intro x
  rcases h' x with h' | ⟨hs, ht⟩
  · exact .inl h'
  · rcases h x with h | ⟨hs', ht'⟩
    · exact .inl (ht.trans (h.trans hs.symm))
    · exact .inr ⟨hs.trans hs', ht.trans ht'⟩

/-- Stores with the same innermost frame. -/
theorem Alike.cons (h : Alike s t) : ∃ frame frames, s.frames = frame :: frames ∧ t.frames = frame :: frames := by
  obtain ⟨frame, frames, hs⟩ := List.exists_cons_of_ne_nil h.active
  exact ⟨frame, frames, hs, h.frames.trans hs⟩

theorem Alike.current (h : Alike s t) : t.current = s.current := by
  obtain ⟨frame, frames, hs, ht⟩ := h.cons
  rw [Store.current, Store.current, hs, ht]
  rfl

theorem Alike.lookup (h : Alike s t) (x : String) : t.lookup x = s.lookup x := by
  rw [Store.lookup, Store.lookup, h.current]

theorem Alike.get (h : Alike s t) (x : String) : t.get x = s.get x := by
  rw [Store.get, Store.get, h.lookup]

/-- The variable that an assignment would change is found in the same place, with the same type. -/
theorem Alike.assignable (h : Alike s t) (x : String) :
    (t.assignable x).map (·.ty) = (s.assignable x).map (·.ty) := by
  obtain ⟨frame, frames, hs, ht⟩ := h.cons
  unfold Store.assignable
  rw [hs, ht]
  cases hlocal : frame.get? x with
  | some c => simp only [List.head?_cons, Option.bind_some, hlocal, Option.some_or]
  | none =>
    simp only [List.head?_cons, Option.bind_some, hlocal, Option.none_or]
    have hglobal := h.globals x
    cases hs : s.globals.get? x with
    | none =>
      rw [hs, Option.map_none, Option.map_eq_none_iff] at hglobal
      rw [hglobal]
    | some c =>
      rw [hs, Option.map_some, Option.map_eq_some_iff] at hglobal
      obtain ⟨c', hc', hty⟩ := hglobal
      rw [hc']
      exact congrArg Except.ok hty

/-- A declaration changes the innermost frame of both. -/
theorem Alike.declare (h : Alike s t) (x : String) (ty : Ty) (v : Option Value) :
    Alike (s.declare x ty v) (t.declare x ty v) ∧ (s.declare x ty v).depth = s.depth ∧
      Level s t (s.declare x ty v) (t.declare x ty v) := by
  obtain ⟨frame, frames, hs, ht⟩ := h.cons
  obtain ⟨globals, _⟩ := s
  obtain ⟨globals', _⟩ := t
  cases hs
  cases ht
  exact ⟨⟨List.cons_ne_nil _ _, rfl, h.globals⟩, rfl, fun _ => .inr ⟨rfl, rfl⟩⟩

/-- An assignment to a global gives it the same value in both. -/
theorem Alike.insert (h : Alike s t) (x : String) (c : Binding) :
    Alike { s with globals := s.globals.insert x c } { t with globals := t.globals.insert x c } ∧
      Level s t { s with globals := s.globals.insert x c } { t with globals := t.globals.insert x c } := by
  refine ⟨⟨h.active, h.frames, fun y => ?_⟩, fun y => ?_⟩
  · by_cases hyx : y = x
    · rw [hyx, Assoc.get?_insert_self, Assoc.get?_insert_self]
    · rw [Assoc.get?_insert_of_ne _ _ hyx, Assoc.get?_insert_of_ne _ _ hyx]
      exact h.globals y
  · by_cases hyx : y = x
    · exact .inl (by rw [hyx, Assoc.get?_insert_self, Assoc.get?_insert_self])
    · exact .inr ⟨Assoc.get?_insert_of_ne _ _ hyx, Assoc.get?_insert_of_ne _ _ hyx⟩

/-- An assignment fails in both stores for the same reason, or it is made in both. -/
theorem Alike.set (h : Alike s t) (x : String) (v : Value) :
    (∃ e, s.set x v = .error e ∧ t.set x v = .error e) ∨
      ∃ s' t', s.set x v = .ok s' ∧ t.set x v = .ok t' ∧ Alike s' t' ∧ s'.depth = s.depth ∧ Level s t s' t' := by
  have htarget := h.assignable x
  have hlocal : t.isLocal x = s.isLocal x := by rw [isLocal, isLocal, h.frames]
  unfold Store.set
  cases hs : s.assignable x with
  | error e =>
    cases ht : t.assignable x with
    | error e' =>
      rw [hs, ht] at htarget
      exact .inl ⟨e, rfl, congrArg Except.error (Except.error.inj htarget)⟩
    | ok c =>
      rw [hs, ht] at htarget
      cases htarget
  | ok c =>
    cases ht : t.assignable x with
    | error e' =>
      rw [hs, ht] at htarget
      cases htarget
    | ok c' =>
      rw [hs, ht] at htarget
      have hty : c'.ty = c.ty := Except.ok.inj htarget
      simp only [bind, Except.bind, hty, hlocal]
      split
      · exact .inl ⟨_, rfl, rfl⟩
      · split
        · obtain ⟨halike, hdepth, hlevel⟩ := h.declare x c.ty (some v)
          exact .inr ⟨_, _, rfl, rfl, halike, hdepth, hlevel⟩
        · obtain ⟨halike, hlevel⟩ := h.insert x ⟨c.ty, some v⟩
          exact .inr ⟨_, _, rfl, rfl, halike, rfl, hlevel⟩

end Store

namespace Execution

/-! ### Alike worlds -/

/-- Worlds in which the same calls are active, with the same input left. What has been written before does not
    count, and neither do the events. -/
structure World.Alike (u w : World) : Prop where
  store : u.store.Alike w.store
  functions : w.functions = u.functions
  input : w.input = u.input

/-- On the way from `u` and `w` to `u'` and `w'` the same text is written and each global has got the same binding
    or has kept its own. -/
structure World.Level (u w u' w' : World) : Prop where
  store : u.store.Level w.store u'.store w'.store
  output : ∃ text, u'.output = u.output ++ text ∧ w'.output = w.output ++ text

theorem World.Level.refl (u w : World) : World.Level u w u w where
  store := .refl u.store w.store
  output := ⟨"", by simp, by simp⟩

theorem World.Level.trans {u w u' w' u'' w'' : World} (h : World.Level u w u' w') (h' : World.Level u' w' u'' w'') :
    World.Level u w u'' w'' where
  store := h.store.trans h'.store
  output := by
    obtain ⟨text, hu, hw⟩ := h.output
    obtain ⟨text', hu', hw'⟩ := h'.output
    exact ⟨text ++ text', by rw [hu', hu, String.append_assoc], by rw [hw', hw, String.append_assoc]⟩

section Runs
variable {α β : Type} {d : Nat} {P : α → Prop} {Q : β → Prop} {u w u' w' : World}

/-- From `u` and `w` the run ends or stops alike in alike worlds, in which as many calls are active as before. -/
def EndsAlike (r : Run α) (P : α → Prop) (u w : World) : Prop :=
  ∃ answer u' w', r u = endIn answer u' ∧ r w = endIn answer w' ∧ u'.Alike w' ∧
    u'.store.depth = u.store.depth ∧ World.Level u w u' w' ∧ ∀ a, answer = .ok a → P a

/-- The run treats alike worlds alike in which `d` calls are active. -/
def Uniform (d : Nat) (r : Run α) (P : α → Prop) : Prop :=
  ∀ u w, u.Alike w → u.store.depth = d → EndsAlike r P u w

/-- A step that changes nothing. -/
theorem EndsAlike.still {r : Run α} {o : Except Stop α} (h : u.Alike w) (hu : r u = endIn o u)
    (hw : r w = endIn o w) (ha : ∀ a, o = .ok a → P a) : EndsAlike r P u w :=
  ⟨o, u, w, hu, hw, h, rfl, .refl u w, ha⟩

namespace Uniform

theorem silent {r : Run α} (h : Silent r P) : Uniform d r P := by
  obtain ⟨answer, hP, hr⟩ := h
  intro u w hw _
  obtain ⟨e, hu'⟩ := hr u
  obtain ⟨e', hw'⟩ := hr w
  exact ⟨answer, _, _, hu', hw', ⟨hw.store, hw.functions, hw.input⟩, rfl,
    ⟨.refl u.store w.store, (World.Level.refl u w).output⟩, hP⟩

theorem mono {r : Run α} {P' : α → Prop} (h : Uniform d r P) (hP : ∀ a, P a → P' a) : Uniform d r P' := by
  intro u w hw hd
  obtain ⟨answer, u', w', hu', hw', halike, hdepth, hlevel, ha⟩ := h u w hw hd
  exact ⟨answer, u', w', hu', hw', halike, hdepth, hlevel, fun a h => hP a (ha a h)⟩

theorem bind {r : Run α} {k : α → Run β} (h : Uniform d r P) (hk : ∀ a, P a → Uniform d (k a) Q) :
    Uniform d (r >>= k) Q := by
  intro u w hw hd
  obtain ⟨answer, u', w', hu', hw', halike, hdepth, hlevel, ha⟩ := h u w hw hd
  cases answer with
  | error e =>
    exact ⟨.error e, u', w', State.bind_of_error hu', State.bind_of_error hw', halike, hdepth, hlevel,
      fun _ hb => (nomatch hb)⟩
  | ok a =>
    obtain ⟨answer, u'', w'', hu'', hw'', halike', hdepth', hlevel', hb⟩ :=
      hk a (ha a rfl) u' w' halike (hdepth.trans hd)
    exact ⟨answer, u'', w'', (State.bind_of_ok hu').trans hu'', (State.bind_of_ok hw').trans hw'', halike',
      hdepth'.trans hdepth, hlevel.trans hlevel', hb⟩

/-- A question that alike stores answer alike. -/
theorem ask {r : Run α} (question : Store → Except StoreError α)
    (hr : ∀ w, r w = endIn ((question w.store).mapError fun e => .failed (.store e)) w)
    (h : ∀ {s t : Store}, s.Alike t → question t = question s) : Uniform d r fun _ => True := fun u w hw _ =>
  .still hw (hr u) ((hr w).trans (by rw [h hw.store])) fun _ _ => trivial

theorem callee (b : Bounds) (x : String) (arity : Nat) : Uniform d (Watched.callee b x arity) fun _ => True := by
  intro u w hw _
  have hdepth : w.store.depth = u.store.depth := congrArg List.length hw.store.frames
  refine .still hw (callee_eq b x arity u) ?_ fun _ _ => trivial
  rw [callee_eq, hw.functions, hdepth]

/-- A frame is pushed and dropped in both worlds. -/
theorem inFrame {frame : Frame} {r : Run α} (h : Uniform (d + 1) r P) : Uniform d (Run.inFrame frame r) P := by
  intro u w hw hd
  have hpush : World.Alike { u with store := u.store.push frame } { w with store := w.store.push frame } :=
    ⟨⟨List.cons_ne_nil _ _, congrArg (frame :: ·) hw.store.frames, hw.store.globals⟩, hw.functions, hw.input⟩
  obtain ⟨answer, u', w', hu', hw', halike, hdepth, hlevel, ha⟩ := h _ _ hpush (congrArg (· + 1) hd)
  have hdrop : u'.store.dropFrame.depth = u.store.depth := by
    have hdepth : u'.store.frames.length = u.store.frames.length + 1 := hdepth
    show u'.store.frames.tail.length = u.store.frames.length
    rw [List.length_tail, hdepth]
    rfl
  have hactive : u'.store.dropFrame.frames ≠ [] := by
    have hpos : 0 < u.store.depth := List.length_pos_iff.mpr hw.store.active
    rw [← hdrop] at hpos
    exact List.length_pos_iff.mp hpos
  exact ⟨answer, _, _, Run.inFrame_of_endIn hu', Run.inFrame_of_endIn hw',
    ⟨⟨hactive, congrArg List.tail halike.store.frames, halike.store.globals⟩, halike.functions, halike.input⟩,
    hdrop, ⟨hlevel.store, hlevel.output⟩, ha⟩

theorem declare (x : String) (t : Ty) (v : Option Value) : Uniform d (declareVariable x t v) fun _ => True := by
  intro u w hw _
  obtain ⟨e, hu'⟩ := declareVariable_eq x t v u
  obtain ⟨e', hw'⟩ := declareVariable_eq x t v w
  obtain ⟨halike, hdepth, hlevel⟩ := hw.store.declare x t v
  exact ⟨.ok (), _, _, hu', hw', ⟨halike, hw.functions, hw.input⟩, hdepth, ⟨hlevel, (World.Level.refl u w).output⟩,
    fun _ _ => trivial⟩

theorem assign (x : String) (v : Value) : Uniform d (assignVariable x v) fun _ => True := by
  intro u w hw _
  have hu' := assignVariable_eq x v u
  have hw' := assignVariable_eq x v w
  rcases hw.store.set x v with ⟨e, hs, ht⟩ | ⟨s, t, hs, ht, halike, hdepth, hlevel⟩
  · rw [hs] at hu'
    rw [ht] at hw'
    exact .still (o := .error _) hw hu' hw' fun _ ha => (nomatch ha)
  · rw [hs] at hu'
    rw [ht] at hw'
    exact ⟨.ok (), _, _, hu', hw', ⟨halike, hw.functions, hw.input⟩, hdepth,
      ⟨hlevel, (World.Level.refl u w).output⟩, fun _ _ => trivial⟩

theorem print (v : Value) : Uniform d (printValue v) fun _ => True := by
  intro u w hw _
  have hu' := printValue_eq v u
  have hw' := printValue_eq v w
  cases hlong : v.isTooLong with
  | true =>
    rw [if_pos hlong] at hu' hw'
    exact .still (o := .error _) hw hu' hw' fun _ ha => (nomatch ha)
  | false =>
    rw [if_neg (Bool.not_eq_true _ ▸ hlong)] at hu' hw'
    exact ⟨.ok (), _, _, hu', hw', ⟨hw.store, hw.functions, hw.input⟩, rfl,
      ⟨.refl u.store w.store, ⟨_, rfl, rfl⟩⟩, fun _ _ => trivial⟩

/-- Both worlds ask for the same variable of the same type, and take the same line. -/
theorem input (x : String) : Uniform d (readVariable x) fun _ => True := by
  intro u w hw _
  have hu' := readVariable_eq x u
  have hw' := readVariable_eq x w
  rw [hw.store.lookup, hw.input] at hw'
  cases hx : u.store.lookup x with
  | error e =>
    rw [hx] at hu' hw'
    exact .still (o := .error _) hw hu' hw' fun _ ha => (nomatch ha)
  | ok c =>
    simp only [hx] at hu' hw'
    have hwritten : ∃ text, (u.write (x ++ " = ")).output = u.output ++ text ∧
        (w.write (x ++ " = ")).output = w.output ++ text := ⟨_, rfl, rfl⟩
    cases hline : World.nextLine? u.input with
    | none =>
      simp only [hline] at hu' hw'
      exact ⟨.error _, _, _, hu', hw', ⟨hw.store, hw.functions, hw.input⟩, rfl, ⟨.refl u.store w.store, hwritten⟩,
        fun _ ha => (nomatch ha)⟩
    | some l =>
      simp only [hline] at hu' hw'
      cases hread : Value.read c.ty l.1 with
      | error e =>
        simp only [hread] at hu' hw'
        exact ⟨.error _, _, _, hu', hw', ⟨hw.store, hw.functions, rfl⟩, rfl, ⟨.refl u.store w.store, hwritten⟩,
          fun _ ha => (nomatch ha)⟩
      | ok v =>
        simp only [hread] at hu' hw'
        obtain ⟨halike, hdepth, hlevel⟩ := hw.store.declare x c.ty (some v)
        exact ⟨.ok (), _, _, hu', hw', ⟨halike, hw.functions, rfl⟩, hdepth, ⟨hlevel, hwritten⟩, fun _ _ => trivial⟩

end Uniform
end Runs

/-! ### All runs -/

def uniformity (b : Bounds) : Judgment b where
  value _ := True
  room _ := True
  expr d r P := Uniform d r.run P
  stmt d r P := Uniform d r.run P
  value_unary _ _ := trivial
  value_binary _ _ _ := trivial
  value_widen _ _ := trivial
  expr_pure ha := .silent (.pure ha)
  expr_silent h := .silent h
  expr_bind h hk := Watched.run_bind _ _ ▸ h.bind hk
  expr_giving {_ _ _ r values} h _ := by rwa [Watched.run_giving values r]
  expr_get x := show Uniform _ (Run.ask fun s => s.get x) _ from .ask _ (Run.ask_eq _) fun h => h.get x
  expr_callee x arity := (Uniform.callee b x arity).mono fun _ _ => ⟨trivial, fun _ _ => trivial⟩
  expr_inFrame _ _ h := h.inFrame
  stmt_expr h := h
  stmt_bind h hk := Watched.run_bind _ _ ▸ h.bind hk
  stmt_target x := show Uniform _ (Watched.targetType x) _ from .ask _ (targetType_eq x) fun h => h.assignable x
  stmt_declare x t o _ := .declare x t o
  stmt_assign x v _ := .assign x v
  stmt_print v := .print v
  stmt_input x := .input x

/-- From `u` and `w` the run has the same answer, output and frames, leaves the same input, and gives each global
    the same binding or none but its own. -/
structure Indistinct {α : Type} (r : Run α) (u w : World) : Prop where
  answer : (r.run w).answer = (r.run u).answer
  frames : (r.run w).world.store.frames = (r.run u).world.store.frames
  input : (r.run w).world.input = (r.run u).world.input
  output : ∃ text, (r.run u).world.output = u.output ++ text ∧ (r.run w).world.output = w.output ++ text
  globals : u.store.Level w.store (r.run u).world.store (r.run w).world.store

theorem EndsAlike.indistinct {α : Type} {r : Run α} {P : α → Prop} {u w : World} (h : EndsAlike r P u w) :
    Indistinct r u w := by
  obtain ⟨answer, u', w', hu, hw, halike, -, hlevel, -⟩ := h
  have hrun : ∀ {v v' : World}, r v = endIn answer v' → r.run v = ⟨answer, v'⟩ := fun {v v'} hv => by
    cases answer with
    | ok a => exact Run.run_of_ok hv
    | error e => exact Run.run_of_error hv
  have hu := hrun hu
  have hw := hrun hw
  exact ⟨by rw [hu, hw], by rw [hu, hw]; exact halike.store.frames, by rw [hu, hw]; exact halike.input,
    by rw [hu, hw]; exact hlevel.output, by rw [hu, hw]; exact hlevel.store⟩

/-- While a call is active, nothing that runs can tell apart worlds that differ in the values of their globals. -/
theorem runs_indistinct (b : Bounds) (n : Nat) {u w : World} (h : u.Alike w) :
    (∀ e, Indistinct (evaluate b n e) u w) ∧ (∀ x args, Indistinct (call b n x args) u w) ∧
    (∀ s, Indistinct (execute b n s) u w) ∧ (∀ ss, Indistinct (executeBlock b n ss) u w) := by
  have hholds := (uniformity b).holdsWithin n
  have hruns := Watched.runsWithin b n
  refine ⟨fun e => ?_, fun x args => ?_, fun s => ?_, fun ss => ?_⟩
  · exact hruns.evaluate e ▸ (hholds.evaluate u.store.depth e (fun _ _ => trivial) u w h rfl).indistinct
  · exact hruns.call x args ▸ (hholds.call u.store.depth x args (fun _ _ => trivial) u w h rfl).indistinct
  · exact hruns.execute s ▸ (hholds.execute u.store.depth s (fun _ _ => trivial) u w h rfl).indistinct
  · exact hruns.executeBlock ss ▸ (hholds.executeBlock u.store.depth ss (fun _ _ => trivial) u w h rfl).indistinct

/-- A call is active, and one of two globals is about to be assigned. -/
def counting (a c : Int) : World :=
  { store := ⟨[("kept", ⟨.int, some (.int a)⟩), ("count", ⟨.int, some (.int c)⟩)], [[("x", ⟨.int, none⟩)]]⟩
    functions := []
    input := ['5', '\n', '6']
    output := ""
    tracing := false
    events := [] }

def counting.body : List Stmt :=
  [.input "x", .assign "count" (.var "x"), .print (.var "x"), .print (.var "count"), .assign "kept" (.var "x")]

/-- The input goes to a global from the frame; the global cannot be read, so the last assignment is not reached. -/
theorem counting_indistinct :
    (counting 1 2).Alike (counting 3 4) ∧
    Indistinct (executeBlock ⟨1000, 10⟩ 20 counting.body) (counting 1 2) (counting 3 4) ∧
    (executeBlock ⟨1000, 10⟩ 20 counting.body).run (counting 3 4) =
      ⟨.error (.failed (.store (.undefined "count"))),
        { counting 3 5 with
          store := ⟨(counting 3 5).store.globals, [[("x", ⟨.int, some (.int 5)⟩)]]⟩
          input := ['6']
          output := "x = 5\n" }⟩ := by
  have halike : (counting 1 2).Alike (counting 3 4) := by
    refine ⟨⟨List.cons_ne_nil _ _, rfl, fun x => ?_⟩, rfl, rfl⟩
    simp only [counting, Assoc.get?, List.lookup_cons]
    split
    · rfl
    · split
      · rfl
      · rfl
  exact ⟨halike, (runs_indistinct ⟨1000, 10⟩ 20 halike).2.2.2 counting.body, rfl⟩

end Execution
end TypedImp
