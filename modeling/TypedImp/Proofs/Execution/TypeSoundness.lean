import TypedImp.Proofs.Execution.Safety
import TypedImp.Proofs.Execution.Step
import TypedImp.Proofs.Token.Progress
import TypedImp.Proofs.Typing.Checked

/-! Type soundness. A text that is a program, passes the checker and gives no variable name two types never
    fails for a reason of types when it runs, whatever its input is and however deep its calls may nest. The
    restriction on names is needed, because a running program has no scopes within a call. -/

namespace TypedImp
namespace Execution
open Typing (Names ProgramKeeps)

/-! ### Programs that keep the rules -/

theorem functions_define (w : World) (f : Function) : (w.define f).functions = Assoc.insert w.functions f.name f := by
  unfold World.define
  rw [World.functions_record]

theorem store_define (w : World) (f : Function) : (w.define f).store = w.store := by
  unfold World.define
  rw [World.store_record]

theorem store_foldl_define (fs : List Function) (w : World) : (fs.foldl World.define w).store = w.store := by
  induction fs generalizing w with
  | nil => rfl
  | cons f fs ih => rw [List.foldl_cons, ih, store_define]

/-- Functions of different names are all defined. -/
theorem get?_functions_define {fs : List Function} (h : (fs.map Function.name).Nodup) (w : World) (x : String) :
    (fs.foldl World.define w).functions.get? x = (fs.find? fun f => f.name == x).or (w.functions.get? x) := by
  induction fs generalizing w with
  | nil => rfl
  | cons f fs ih =>
    rw [List.map_cons, List.nodup_cons] at h
    rw [List.foldl_cons, ih h.2, functions_define]
    by_cases hx : f.name = x
    · subst hx
      have hnone : (fs.find? fun g => g.name == f.name) = none := by
        rw [List.find?_eq_none]
        intro g hg heq
        exact h.1 (List.mem_map.mpr ⟨g, hg, beq_iff_eq.mp heq⟩)
      have hself : ((f :: fs).find? fun g => g.name == f.name) = some f :=
        List.find?_cons_of_pos (beq_self_eq_true f.name)
      rw [hnone, Assoc.get?_insert_self, hself]
      rfl
    · rw [Assoc.get?_insert_of_ne _ _ (Ne.symm hx), List.find?_cons_of_neg (by simpa using hx)]

/-- A program that keeps the rules fails only for reasons that no check of types can foresee. -/
theorem executeProgram_safe {Γ : Names} {p : Program} (h : ProgramKeeps Γ p)
    (hΓ : ∀ x, Γ.function? x = p.functions.find? fun f => f.name == x)
    (hnodup : (p.functions.map Function.name).Nodup) (b : Bounds) (input : String) (tracing : Bool) :
    SafeAt Γ (executeProgram b p) (fun _ => True) (World.start input tracing) := by
  have hw : (p.functions.foldl World.define (World.start input tracing)).Typed Γ := by
    refine ⟨?_, ?_, fun x => ?_⟩
    · rw [store_foldl_define]
      exact fun e he => nomatch he
    · rw [store_foldl_define]
      exact fun f hf => nomatch hf
    · rw [get?_functions_define hnodup, hΓ]
      exact Option.or_none
  have hdefine : SafeAt Γ (defineFunctions p.functions) (fun _ => True) (World.start input tracing) :=
    ⟨trivial, hw⟩
  refine hdefine.bind fun _ w _ hw => ?_
  exact ((safeWithin h.functions b b.budget).executeBlock none p.actions h.actions).discard w hw

/-! ### Texts -/

/-- A text that is read, passes the checker and declares no variable name with two types fails only for
    reasons that no check of types can foresee, on every input and under every bound on calls and rounds. The only
    other failure is that the machine does not grant the nesting, and it depends on the bound on calls alone. -/
theorem failure_dynamic {text : String} {p : Program} (hparse : Program.parse text = .ok p)
    (hcheck : (Typing.check p).answer = .ok ()) (hnames : p.Consistent) (b : Bounds) (input : String)
    (tracing : Bool) {e : Error}
    (hfail : ((runProgram b p).run (World.start input tracing)).answer = .error (.failed e)) :
    e.Dynamic ∨ (e = .nestingRefused ∧ b.isGranted = false) := by
  obtain ⟨hkeeps, hnodup⟩ := Typing.check_sound (Syntax.wellFormed_of_parse hparse).written hnames hcheck
  cases hgranted : b.isGranted with
  | true =>
    have hsafe := executeProgram_safe hkeeps (fun _ => rfl) hnodup b input tracing
    rw [runProgram, if_pos hgranted] at hfail
    unfold SafeAt at hsafe
    unfold Run.run at hfail
    split at hfail
    · cases hfail
    · next s w hrun =>
      rw [hrun] at hsafe
      cases hfail
      exact .inl hsafe
  | false =>
    rw [run_runProgram_refused hgranted] at hfail
    cases hfail
    exact .inr ⟨rfl, rfl⟩

/-- A text whose only call divides by zero. -/
def quotientText : String := "func f(n: int): int \x7b return 1 / n; \x7d print(f(0));"

def quotientProgram : Program :=
  ⟨[.function "f" [⟨"n", .int⟩] .int [.ret (some (.binary (.literal (.int 1)) .div (.var "n")))],
    .print (.call "f" [.literal (.int 0)])]⟩

theorem tokenize_quotientText : tokenize quotientText =
    [⟨.funcWord, "func", ⟨1, 1⟩⟩, ⟨.ident, "f", ⟨1, 6⟩⟩, ⟨.lparen, "(", ⟨1, 7⟩⟩, ⟨.ident, "n", ⟨1, 8⟩⟩,
      ⟨.colon, ":", ⟨1, 9⟩⟩, ⟨.ident, "int", ⟨1, 11⟩⟩, ⟨.rparen, ")", ⟨1, 14⟩⟩, ⟨.colon, ":", ⟨1, 15⟩⟩,
      ⟨.ident, "int", ⟨1, 17⟩⟩, ⟨.lbrace, "\x7b", ⟨1, 21⟩⟩, ⟨.returnWord, "return", ⟨1, 23⟩⟩,
      ⟨.integer, "1", ⟨1, 30⟩⟩, ⟨.slash, "/", ⟨1, 32⟩⟩, ⟨.ident, "n", ⟨1, 34⟩⟩, ⟨.semicolon, ";", ⟨1, 35⟩⟩,
      ⟨.rbrace, "\x7d", ⟨1, 37⟩⟩, ⟨.printWord, "print", ⟨1, 39⟩⟩, ⟨.lparen, "(", ⟨1, 44⟩⟩, ⟨.ident, "f", ⟨1, 45⟩⟩,
      ⟨.lparen, "(", ⟨1, 46⟩⟩, ⟨.integer, "0", ⟨1, 47⟩⟩, ⟨.rparen, ")", ⟨1, 48⟩⟩, ⟨.rparen, ")", ⟨1, 49⟩⟩,
      ⟨.semicolon, ";", ⟨1, 50⟩⟩, ⟨.eof, "", ⟨1, 51⟩⟩] := by
  rw [tokenize_eq_tokensWithin]
  decide +kernel

theorem parse_quotientText : Program.parse quotientText = .ok quotientProgram := by
  rw [Program.parse, tokenize_quotientText]
  rfl

theorem consistent_quotientProgram : quotientProgram.Consistent := by
  intro x s t hs ht
  simp only [quotientProgram, Program.declarations, Stmt.declarationsAll, Stmt.declarations, List.map_cons,
    List.map_nil, List.append_nil, List.mem_singleton, Prod.mk.injEq] at hs ht
  rw [hs.2, ht.2]

/-- The call gets through the checker, and dividing by zero is what no check of types foresees. -/
theorem quotient_failure_dynamic :
    Program.parse quotientText = .ok quotientProgram ∧ (Typing.check quotientProgram).answer = .ok () ∧
    quotientProgram.Consistent ∧
    ((runProgram ⟨1000, 1000⟩ quotientProgram).run (World.start "" false)).answer =
      .error (.failed (.operation .divisionByZero)) ∧
    Error.Dynamic (.operation .divisionByZero) :=
  ⟨parse_quotientText, rfl, consistent_quotientProgram, rfl,
    (failure_dynamic parse_quotientText rfl consistent_quotientProgram ⟨1000, 1000⟩ "" false rfl).resolve_right nofun⟩

/-- A program without any call. -/
def printProgram : Program := ⟨[.print (.literal (.int 1))]⟩

theorem parse_printText : Program.parse "print(1);" = .ok printProgram := by
  have htokens : tokenize "print(1);" =
      [⟨.printWord, "print", ⟨1, 1⟩⟩, ⟨.lparen, "(", ⟨1, 6⟩⟩, ⟨.integer, "1", ⟨1, 7⟩⟩, ⟨.rparen, ")", ⟨1, 8⟩⟩,
        ⟨.semicolon, ";", ⟨1, 9⟩⟩, ⟨.eof, "", ⟨1, 10⟩⟩] := by
    rw [tokenize_eq_tokensWithin]
    decide +kernel
  rw [Program.parse, htokens]
  rfl

/-- The program passes the checker and declares nothing. Under a bound of a thousand million calls, which is more than
    the machine can count, it fails nevertheless, and not for a reason that depends on the values of its run. -/
theorem refusal_not_dynamic :
    Program.parse "print(1);" = .ok printProgram ∧ (Typing.check printProgram).answer = .ok () ∧
    printProgram.Consistent ∧
    ((runProgram ⟨1000000000, 1000⟩ printProgram).run (World.start "" false)).answer =
      .error (.failed .nestingRefused) ∧
    ¬Error.Dynamic .nestingRefused :=
  ⟨parse_printText, rfl, fun _ _ _ hs _ => absurd hs List.not_mem_nil, rfl, nofun⟩

end Execution
end TypedImp
