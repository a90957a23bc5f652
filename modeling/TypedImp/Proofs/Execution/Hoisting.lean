import TypedImp.Proofs.Execution.Joining
import TypedImp.Proofs.Typing.Weakening

/-! Functions that stand further behind. All functions of a program are declared before anything is checked, and
    defined before anything is run. So a function can be moved behind the statements that follow it: its body sees
    more of the top level there, which hides nothing of what it saw, and nothing else sees a difference. -/

namespace TypedImp

/-! ### Maps that are built in another order -/

namespace Assoc
variable {α : Type}

/-- The same name has the same value in both. -/
def Same (m m' : Assoc α) : Prop := ∀ x, m'.get? x = m.get? x

theorem Same.insert {m m' : Assoc α} (h : m.Same m') (x : String) (a : α) : (m.insert x a).Same (m'.insert x a) := by
  intro y
  by_cases hyx : y = x
  · rw [hyx, get?_insert_self, get?_insert_self]
  · rw [get?_insert_of_ne _ _ hyx, get?_insert_of_ne _ _ hyx, h y]

theorem same_insert_comm (m : Assoc α) {x y : String} (hxy : x ≠ y) (a b : α) :
    Same ((m.insert x a).insert y b) ((m.insert y b).insert x a) := by
  intro z
  by_cases hzx : z = x
  · subst hzx
    rw [get?_insert_self, get?_insert_of_ne _ _ hxy, get?_insert_self]
  · rw [get?_insert_of_ne _ _ hzx]
    by_cases hzy : z = y
    · rw [hzy, get?_insert_self, get?_insert_self]
    · rw [get?_insert_of_ne _ _ hzy, get?_insert_of_ne _ _ hzy, get?_insert_of_ne _ _ hzx]

theorem Same.foldl_insert {m m' : Assoc α} (h : m.Same m') (es : List (String × α)) :
    Same (es.foldl (fun m e => m.insert e.1 e.2) m) (es.foldl (fun m e => m.insert e.1 e.2) m') := by
  induction es generalizing m m' with
  | nil => exact h
  | cons e es ih => exact ih (h.insert e.1 e.2)

/-- The order of entries with different names does not matter. -/
theorem same_foldl_insert {es es' : List (String × α)} (h : es.Perm es') (hnodup : (es.map Prod.fst).Nodup)
    (m : Assoc α) :
    Same (es.foldl (fun m e => m.insert e.1 e.2) m) (es'.foldl (fun m e => m.insert e.1 e.2) m) := by
  induction h generalizing m with
  | nil => exact fun _ => rfl
  | cons e _ ih =>
    rw [List.map_cons, List.nodup_cons] at hnodup
    exact ih hnodup.2 _
  | swap e e' es =>
    have hne : e'.1 ≠ e.1 := by
      rintro heq
      rw [List.map_cons, List.map_cons, List.nodup_cons, heq] at hnodup
      exact hnodup.1 List.mem_cons_self
    exact (same_insert_comm m hne e'.2 e.2).foldl_insert es
  | trans hfirst _ ih ih' =>
    intro x
    exact (ih' ((hfirst.map Prod.fst).nodup hnodup) m x).trans (ih hnodup m x)

end Assoc

/-! ### Functions moved to later places -/

namespace Program

/-- In the second program one function of the first one stands behind some of the statements that follow it. -/
def Postpones (p q : Program) : Prop :=
  ∃ pre s mid post, s.function?.isSome = true ∧ p.body = pre ++ s :: (mid ++ post) ∧ q.body = pre ++ (mid ++ s :: post)

variable {p q : Program}

/-- Both programs have the same functions. -/
theorem Postpones.functions (h : p.Postpones q) : p.functions.Perm q.functions := by
  obtain ⟨pre, s, mid, post, -, hp, hq⟩ := h
  rw [Program.functions, Program.functions, hp, hq]
  exact (List.Perm.append_left pre List.perm_middle.symm).filterMap _

/-- The other statements are in the same order. -/
theorem Postpones.actions (h : p.Postpones q) : q.actions = p.actions := by
  obtain ⟨pre, s, mid, post, hs, hp, hq⟩ := h
  have hnone : s.function?.isNone = false := Option.isNone_eq_false_iff.mpr hs
  rw [Program.actions, Program.actions, hp, hq]
  simp [List.filter_append, hnone]

end Program

/-! ### Checks -/

namespace Typing
open Checker

theorem Context.declareAll_top (ds : List (String × Symbol)) (top : Assoc Symbol) :
    Context.declareAll ⟨[], top⟩ ds = ⟨[], ds.foldl (fun m d => m.insert d.1 d.2) top⟩ := by
  induction ds generalizing top with
  | nil => rfl
  | cons d ds ih => exact ih _

/-- Programs with the same functions begin in contexts that show the same. -/
theorem suits_context {p q : Program} (h : p.functions.Perm q.functions)
    (hnodup : (p.functions.map Function.name).Nodup) :
    p.context.Suits q.context := by
  have hsame := Assoc.same_foldl_insert (h.map fun f => (f.name, Symbol.function f.params f.result))
    (by simpa [Function.comp_def] using hnodup) []
  rw [Program.context, Program.context, Context.declareAll_top, Context.declareAll_top]
  exact ⟨⟨rfl, fun x symbol hx => (hsame x).trans hx⟩, fun _ x hx => (hsame x).trans hx⟩

theorem check_eq_ok {p : Program} : (check p).answer = .ok () ↔ ∃ a, checkProgram p Arena.start = .ok () a := by
  unfold check Checker.run
  split
  · next u a ha => exact ⟨fun _ => ⟨a, ha⟩, fun _ => rfl⟩
  · next e a ha =>
    constructor
    · exact nofun
    · rintro ⟨a', ha'⟩
      exact nomatch ha.symm.trans ha'

/-- The functions of a program that is accepted have different names. -/
theorem functions_nodup {p : Program} (h : (check p).answer = .ok ()) : (p.functions.map Function.name).Nodup := by
  obtain ⟨a, ha⟩ := check_eq_ok.mp h
  obtain ⟨_, a₁, hdeclare, -⟩ := State.bind_eq_ok ha
  exact (declareFunctions_stands stands_start hdeclare).2.1

theorem check_postponed {p q : Program} (h : p.Postpones q) (hp : (check p).answer = .ok ()) :
    (check q).answer = .ok () := by
  have hnodup := functions_nodup hp
  obtain ⟨a, ha⟩ := check_eq_ok.mp hp
  obtain ⟨_, a₁, hdeclare, hbody⟩ := State.bind_eq_ok ha
  obtain ⟨hstands, -⟩ := declareFunctions_stands stands_start hdeclare
  have hfresh : (Context.mk [] []).AllFresh (q.functions.map Function.name) :=
    ⟨(h.functions.map Function.name).nodup hnodup, fun _ _ => rfl⟩
  obtain ⟨b₁, hdeclare', hstands'⟩ := declareFunctions_of_fresh stands_start hfresh
  have hcontext := suits_context h.functions hnodup
  obtain ⟨pre, s, mid, post, hs, hbody₁, hbody₂⟩ := h
  rw [hbody₁] at hbody
  obtain ⟨a₂, hpre, hrest⟩ := checkStatements_append_eq_ok.mp hbody
  obtain ⟨ds, b₂, hpre', ha₂, hb₂, -⟩ := Transfers.checkStatements pre hcontext hstands hstands' hpre
  have hinner : (p.context.declareAll ds).inner = [] :=
    Context.inner_declareAll_nil (Context.inner_declareAll_nil rfl _) ds
  obtain ⟨b', hrest'⟩ := checkStatements_postponed hs hinner (hcontext.declareAll ds) ha₂ hb₂ hrest
  refine check_eq_ok.mpr ⟨b', ?_⟩
  rw [checkProgram, State.bind_of_ok hdeclare', hbody₂]
  exact checkStatements_append_eq_ok.mpr ⟨b₂, hpre', hrest'⟩

end Typing

/-! ### Runs -/

namespace Execution

/-- Outcomes that differ at most in what has been traced and in the order in which the functions have been defined. -/
structure Outcome.Resembles {α : Type} (o o' : Outcome α) : Prop where
  answer : o'.answer = o.answer
  store : o'.world.store = o.world.store
  functions : o.world.functions.Same o'.world.functions
  input : o'.world.input = o.world.input
  output : o'.world.output = o.world.output

theorem EndLike.resembles {α : Type} {r r' : Run α} {w w' : World} (h : EndLike r r' w w')
    (hfunctions : w.functions.Same w'.functions) : (r.run w).Resembles (r'.run w') := by
  obtain ⟨answer, u, u', hu, hu', hlike, hf, hf'⟩ := h
  rw [Run.run_of_endIn hu, Run.run_of_endIn hu']
  exact ⟨rfl, hlike.store, fun x => by rw [hf, hf', hfunctions x], hlike.input, hlike.output⟩

/-- Functions with different names may be defined in any order. -/
theorem same_foldl_define {fs gs : List Function} (h : fs.Perm gs) (hnodup : (fs.map Function.name).Nodup) (w : World) :
    (fs.foldl World.define w).functions.Same (gs.foldl World.define w).functions := by
  have hsame := Assoc.same_foldl_insert (h.map fun f => (f.name, f)) (by simpa [Function.comp_def] using hnodup)
    w.functions
  rw [functions_foldl_define, functions_foldl_define]
  simpa only [List.foldl_map] using hsame

/-- Programs with the same functions and the same other statements in the same order run alike. -/
theorem runProgram_resembles {p q : Program} (hfunctions : p.functions.Perm q.functions)
    (hactions : q.actions = p.actions) (hnodup : (p.functions.map Function.name).Nodup) (b : Bounds) (w : World) :
    ((runProgram b p).run w).Resembles ((runProgram b q).run w) := by
  have hsame := same_foldl_define hfunctions hnodup w
  have hlike : (p.functions.foldl World.define w).Like (q.functions.foldl World.define w) :=
    (World.like_foldl_define p.functions w).symm.trans (World.like_foldl_define q.functions w)
  cases hgranted : b.isGranted with
  | false =>
    rw [run_runProgram_refused hgranted, run_runProgram_refused hgranted]
    exact ⟨rfl, hlike.store, hsame, hlike.input, hlike.output⟩
  | true =>
    rw [run_runProgram hgranted, run_runProgram hgranted, hactions]
    have hwithin := followsWithin (S := fun _ => False) (Bounds.Reach.refl b) (.inl (Eq.refl b.budget))
    exact ((hwithin.executeBlock p.actions).discard.endLike ⟨hlike, fun x => .inl (hsame x)⟩).resembles hsame

/-- A program that is accepted is still accepted when one of its functions is moved to any later place at the top level,
    and runs as before: with the same answer, the same variables and functions, and the same input and output. -/
theorem postponed_runs_alike {p q : Program} (h : p.Postpones q) (hp : (Typing.check p).answer = .ok ()) :
    (Typing.check q).answer = .ok () ∧
    ∀ (b : Bounds) (w : World), ((runProgram b p).run w).Resembles ((runProgram b q).run w) :=
  ⟨Typing.check_postponed h hp, runProgram_resembles h.functions h.actions (Typing.functions_nodup hp)⟩

/-- A function that is called before a variable is declared whose name its parameter has, and another one whose name
    its body declares. -/
def countingEarly : Program :=
  ⟨[.function "next" [⟨"n", .int⟩] .int
      [.varDecl "step" .int (some (.literal (.int 1))), .ret (some (.binary (.var "n") .add (.var "step")))],
    .print (.call "next" [.literal (.int 1)]),
    .varDecl "n" .string (some (.literal (.string "n"))),
    .varDecl "step" .bool none,
    .input "n",
    .print (.call "twice" [.literal (.int 3)]),
    .function "twice" [⟨"n", .int⟩] .int [.ret (some (.call "next" [.call "next" [.var "n"]]))]]⟩

/-- The same program with its first function at the end. -/
def countingLate : Program := ⟨countingEarly.body.drop 1 ++ countingEarly.body.take 1⟩

/-- Both programs are accepted, read a line and print the same. -/
theorem counting_runs_alike :
    countingEarly.Postpones countingLate ∧ (Typing.check countingEarly).answer = .ok () ∧
    (Typing.check countingLate).answer = .ok () ∧
    ((runProgram ⟨1000, 10⟩ countingEarly).run (World.start "a" false)).Resembles
      ((runProgram ⟨1000, 10⟩ countingLate).run (World.start "a" false)) ∧
    ((runProgram ⟨1000, 10⟩ countingLate).run (World.start "a" false)).world.output = "2\nn = 5\n" := by
  have hpostpones : countingEarly.Postpones countingLate :=
    ⟨[], _, countingEarly.body.drop 1, [], rfl, rfl, rfl⟩
  have haccepted : (Typing.check countingEarly).answer = .ok () := rfl
  obtain ⟨hlate, hruns⟩ := postponed_runs_alike hpostpones haccepted
  exact ⟨hpostpones, haccepted, hlate, hruns _ _, by decide +kernel⟩

end Execution
end TypedImp
