import TypedImp.Proofs.Execution.Covering
import TypedImp.Proofs.Execution.TypeSoundness
import TypedImp.Proofs.Typing.Decision

/-! Names that are resolved are bound. In a program that is well typed every name that is used stands for a variable
    of its context. Where no call is active that variable is bound whenever it is used; where one is active it is, if
    it is a parameter or a variable of the running function. Only a global may be missing in a call. -/

namespace TypedImp
namespace Execution
open Typing (Context HasType ArgumentsFit Admits AdmitsAll)

/-! ### Expressions and statements -/

theorem exists_hasType {Γ : Typing.Names} {params : List Param} {args : List Expr} (h : ArgumentsFit Γ params args) :
    ∀ e ∈ args, ∃ t, HasType Γ e t := by
  induction params generalizing args with
  | nil =>
    cases h
    exact List.forall_mem_nil _
  | cons q params ih =>
    cases h with
    | cons he _ _ hes => exact List.forall_mem_cons.mpr ⟨⟨_, he⟩, ih hes⟩

/-- What well-typed expressions, calls, statements and blocks find within a budget. -/
structure FindsWithin (p : Program) (b : Bounds) (n : Nat) : Prop where
  evaluate : ∀ Γ e t, Γ.Calls p → HasType Γ.names e t →
    Finds (World.Ready p Γ) (Located.evaluate p.home b n Γ e) fun _ => World.Ready p Γ
  call : ∀ Γ x g args, Γ.Calls p → Γ.names.function? x = some g → ArgumentsFit Γ.names g.params args →
    Finds (World.Ready p Γ) (Located.call p.home b n Γ x args) fun _ => World.Ready p Γ
  execute : ∀ result Γ s, Γ.Calls p → Admits result Γ s →
    Finds (World.Ready p Γ) (Located.execute p.home b n Γ s) fun _ => World.Ready p (Γ.after s)
  executeBlock : ∀ result Γ ss, Γ.Calls p → AdmitsAll result Γ ss →
    Finds (World.Ready p Γ) (Located.executeBlock p.home b n Γ ss) fun _ => World.Ready p Γ

section Nested
variable {p : Program} {b : Bounds} {n : Nat} {Γ : Context}

theorem FindsWithin.binary (h : FindsWithin p b n) (hΓ : Γ.Calls p) {op : BinaryOp} {l r : Expr} {s t : Ty}
    (hl : HasType Γ.names l s) (hr : HasType Γ.names r t) :
    Finds (World.Ready p Γ) (Located.evaluate p.home b (n + 1) Γ (.binary l op r)) fun _ => World.Ready p Γ := by
  unfold Located.evaluate
  refine (h.evaluate Γ l s hΓ hl).bind fun v => ?_
  split
  · refine (Finds.quiet (.asBool op v)).bind fun decided => ?_
    split
    · exact .pure fun _ hw => hw
    · refine (h.evaluate Γ r t hΓ hr).bind fun w => ?_
      exact (Finds.quiet (.asBool op w)).discard.bind fun _ => .pure fun _ hw => hw
  · exact (h.evaluate Γ r t hΓ hr).bind fun w => .quiet (.operate _)

theorem FindsWithin.evaluate_succ (h : FindsWithin p b n) (hΓ : Γ.Calls p) {e : Expr} {t : Ty}
    (he : HasType Γ.names e t) :
    Finds (World.Ready p Γ) (Located.evaluate p.home b (n + 1) Γ e) fun _ => World.Ready p Γ := by
  cases he with
  | literal hv =>
    unfold Located.evaluate
    exact .pure fun _ hw => hw
  | var hx _ =>
    unfold Located.evaluate
    exact .get hx
  | unary hop he _ =>
    unfold Located.evaluate
    exact (h.evaluate Γ _ _ hΓ he).bind fun v => .quiet (.operate _)
  | logical _ hl hr => exact h.binary hΓ hl hr
  | equality _ hl hr _ _ => exact h.binary hΓ hl hr
  | relational _ hl hr _ _ => exact h.binary hΓ hl hr
  | arithmetic _ hl hr _ _ => exact h.binary hΓ hl hr
  | concat hl hr => exact h.binary hΓ hl hr
  | call hf hargs =>
    unfold Located.evaluate
    refine (h.call Γ _ _ _ hΓ hf hargs).bind fun o => ?_
    cases o with
    | none => exact .fail rfl
    | some v => exact .pure fun _ hw => hw

/-- The arguments find their variables where the call stands, the body where the function is at home. -/
theorem FindsWithin.call_succ (hp : p.WellTyped) (h : FindsWithin p b n) (hΓ : Γ.Calls p) {x : String} {g : Function}
    {args : List Expr} (hg : Γ.names.function? x = some g) (hargs : ArgumentsFit Γ.names g.params args) :
    Finds (World.Ready p Γ) (Located.call p.home b (n + 1) Γ x args) fun _ => World.Ready p Γ := by
  unfold Located.call
  refine (Finds.callee hΓ hg args.length).bind fun f => .assuming fun hcallee => ?_
  obtain ⟨hf, harity⟩ := hcallee
  have hhome := hp.atHome hf
  have hrun : ∀ e ∈ args, Finds (World.Ready p Γ) (Located.evaluate p.home b n Γ e) fun _ => World.Ready p Γ := by
    intro e he
    obtain ⟨t, ht⟩ := exists_hasType hargs e he
    exact h.evaluate Γ e t hΓ ht
  refine (Finds.bindArguments hrun f.name 1 harity).bind fun entries => .assuming fun hentries => ?_
  refine (Finds.quiet (.reportCall _ _)).bind fun _ => ?_
  have hbody := h.executeBlock (some f.result) (p.home f.name) f.body hhome.calls hhome.body
  have hkept : Retypes (Stmt.declarationsAll f.body) (Located.executeBlock p.home b n (p.home f.name) f.body).run := by
    rw [(Located.runsWithin p.home b n).executeBlock]
    exact (retypesWithin b n).executeBlock f.body
  exact (Finds.inFrame (covers_of_atHome hhome hentries) hbody hkept).bind fun flow => .quiet (.resultOf f flow)

theorem FindsWithin.block (h : FindsWithin p b n) (hΓ : Γ.Calls p) {result : Option Ty} {body : List Stmt}
    (hbody : AdmitsAll result Γ.block body) :
    Finds (World.Ready p Γ) (Located.executeBlock p.home b n Γ.block body) fun _ => World.Ready p Γ :=
  (h.executeBlock result Γ.block body hΓ.block hbody).mono (fun _ hw => ⟨hw.covers.block, hw.functions⟩)
    fun _ _ hw => ⟨hw.covers.of_block, hw.functions⟩

theorem FindsWithin.condition (h : FindsWithin p b n) (hΓ : Γ.Calls p) {cond : Expr} {t : Ty}
    (hcond : HasType Γ.names cond t) (construct : Construct) :
    Finds (World.Ready p Γ) (Located.evaluate p.home b n Γ cond >>= fun v => Located.step Γ (asCondition construct v))
      fun _ => World.Ready p Γ :=
  (h.evaluate Γ cond t hΓ hcond).bind fun v => .quiet (.asCondition construct v)

theorem FindsWithin.execute_succ (h : FindsWithin p b n) (hΓ : Γ.Calls p) {result : Option Ty} {s : Stmt}
    (hs : Admits result Γ s) :
    Finds (World.Ready p Γ) (Located.execute p.home b (n + 1) Γ s) fun _ => World.Ready p (Γ.after s) := by
  have hnormal : ∀ Γ, Finds (World.Ready p Γ) (pure Flow.normal) fun _ => World.Ready p Γ := fun _ => .pure fun _ hw => hw
  unfold Located.execute
  cases hs with
  | @varDecl _ x t init hinit _ =>
    cases init with
    | none => exact (Finds.declare x t none).bind fun _ => hnormal _
    | some e =>
      obtain ⟨u, he, -, -⟩ := hinit e rfl
      refine (h.evaluate Γ e u hΓ he).bind fun v => (Finds.quiet (.require v t fun _ => rfl)).bind fun v => ?_
      exact (Finds.declare x t (some v)).bind fun _ => hnormal _
  | assign hx he =>
    obtain ⟨u, he, -, -⟩ := he
    refine (Finds.target hx).bind fun t => (h.evaluate Γ _ u hΓ he).bind fun v => ?_
    exact (Finds.quiet (.widen v t)).bind fun v => (Finds.assign hx v).bind fun _ => hnormal _
  | print he _ => exact (h.evaluate Γ _ _ hΓ he).bind fun v => (Finds.quiet (.printValue v)).bind fun _ => hnormal _
  | input hx => exact (Finds.input hx).bind fun _ => hnormal _
  | ifThen hcond hbody =>
    refine (h.evaluate Γ _ _ hΓ hcond).bind fun v => (Finds.quiet (.asCondition _ v)).bind fun holds => ?_
    split
    · exact h.block hΓ hbody
    · exact hnormal _
  | ifElse hcond hyes hno =>
    refine (h.evaluate Γ _ _ hΓ hcond).bind fun v => (Finds.quiet (.asCondition _ v)).bind fun holds => ?_
    split
    · exact h.block hΓ hyes
    · exact h.block hΓ hno
  | whileLoop hcond hbody => exact .repeatWhile (h.condition hΓ hcond _) (h.block hΓ hbody) (.pure fun _ hw => hw) _
  | @forLoop _ _ init step cond body hΓ' hinit hcond hstep hbody =>
    subst hΓ'
    have hheader : (Γ.block.after init).Calls p := hΓ.block.after init
    have hloop : Finds (World.Ready p (Γ.block.after init)) _ fun _ => World.Ready p (Γ.block.after init) :=
      .repeatWhile (h.condition hheader hcond .forLoop) (h.block hheader hbody)
        ((h.execute result _ step hheader hstep).mono (fun _ hw => hw) fun _ _ => .of_after step).discard b.rounds
    -- The variables of the header are covered behind the loop, too, and more than those before it is not asked for.
    exact ((h.execute result _ init hΓ.block hinit).discard.bind fun _ => hloop).mono
      (fun _ hw => ⟨hw.covers.block, hw.functions⟩)
      fun _ _ hw => ⟨(hw.of_after init).covers.of_block, hw.functions⟩
  | retNone _ => exact .pure fun _ hw => hw
  | retSome _ _ he =>
    obtain ⟨u, he, -, -⟩ := he
    exact (h.evaluate Γ _ u hΓ he).bind fun v => .pure fun _ hw => hw
  | @expr _ e t he =>
    cases e with
    | call x args =>
      cases he with
      | call hf hargs => exact (h.call Γ x _ args hΓ hf hargs).discard.bind fun _ => hnormal _
    | _ => exact (h.evaluate Γ _ t hΓ he).discard.bind fun _ => hnormal _

/-- Within every budget. -/
theorem findsWithin (hp : p.WellTyped) (b : Bounds) (n : Nat) : FindsWithin p b n := by
  induction n with
  | zero =>
    exact ⟨fun _ _ _ _ _ => .fail rfl, fun _ _ _ _ _ _ _ => .fail rfl, fun _ _ _ _ _ => .fail rfl,
      fun _ _ _ _ _ => .fail rfl⟩
  | succ n ih =>
    exact ⟨fun _ _ _ hΓ he => ih.evaluate_succ hΓ he, fun _ _ _ _ hΓ hg hargs => ih.call_succ hp hΓ hg hargs,
      fun _ _ _ hΓ hs => ih.execute_succ hΓ hs,
      fun result _ _ hΓ hss => .sequence hΓ (fun Γ s => ih.execute result Γ s) hss⟩

end Nested

/-! ### Programs -/

/-- When the functions of a program are defined, the context in which it begins is covered: it declares nothing else. -/
theorem ready_define {p : Program} (hp : p.WellTyped) (w : World) :
    (p.functions.foldl World.define w).Ready p p.context := by
  refine ⟨?_, fun f hf => ?_⟩
  · rw [store_foldl_define]
    refine ⟨by rw [p.inner_context]; exact List.forall_mem_nil _, fun _ x t hx => ?_⟩
    have hlookup : p.context.lookup? x = some (.variable t) := by
      rw [Context.lookup?, p.inner_context, List.findSome?_nil, Option.none_or, hx]
    obtain ⟨f, -, -, hsymbol⟩ := Context.mem_of_lookup?_context hlookup
    cases hsymbol
  · rw [get?_functions_define hp.distinct, Typing.find?_functions hp.distinct hf, Option.some_or]

theorem runProgram_finds {p : Program} (hp : p.WellTyped) (b : Bounds) :
    Finds (fun _ => True) (Located.runProgram b p) fun _ _ => True := by
  have hdefine : Finds (fun _ => True) (Located.step p.context (defineFunctions p.functions))
      fun _ => World.Ready p p.context := .step fun w _ => ready_define hp w
  have hactions := (findsWithin hp b b.budget).executeBlock none p.context p.actions (Context.calls_context p)
    hp.body.actions
  refine hdefine.bind fun _ => ?_
  split
  · exact hactions.discard.mono (fun _ hw => hw) fun _ _ _ => trivial
  · exact .fail rfl

/-- For every text that is a program and passes the checker: the run of the program with its places is its run, and
    when it stops because a variable is not bound, then a call is active, and at the place of the program where it stops
    the name stands for a global variable, not for a parameter or a variable of the running function. -/
theorem unbound_isGlobal {text : String} {p : Program} (hparse : Program.parse text = .ok p)
    (hcheck : (Typing.check p).answer = .ok ()) (b : Bounds) (w : World) :
    (Located.runProgram b p).run = runProgram b p ∧
      ∀ e w', Located.runProgram b p w = .error e w' →
        ∀ x, e.stop = .failed (.store (.undefined x)) ∨ e.stop = .failed (.store (.undeclared x)) →
          e.depth ≠ 0 ∧ e.context.IsGlobal x := by
  have hp := (Typing.accepts_iff_wellTyped (Syntax.wellFormed_of_parse hparse)).mp hcheck
  refine ⟨Located.run_runProgram b p, fun e w' hrun x hx => ?_⟩
  have hfinds := runProgram_finds hp b w trivial
  rw [hrun] at hfinds
  refine hfinds x ?_
  rcases hx with hx | hx
  · rw [hx]
    rfl
  · rw [hx]
    rfl

/-- A function that reads a global, which a call cannot see. -/
def globalText : String := "var x: int = 1; func f(y: int): int \x7b return x + y; \x7d print(f(2));"

def globalProgram : Program :=
  ⟨[.varDecl "x" .int (some (.literal (.int 1))),
    .function "f" [⟨"y", .int⟩] .int [.ret (some (.binary (.var "x") .add (.var "y")))],
    .print (.call "f" [.literal (.int 2)])]⟩

theorem tokenize_globalText : tokenize globalText =
    [⟨.varWord, "var", ⟨1, 1⟩⟩, ⟨.ident, "x", ⟨1, 5⟩⟩, ⟨.colon, ":", ⟨1, 6⟩⟩, ⟨.ident, "int", ⟨1, 8⟩⟩,
      ⟨.assign, "=", ⟨1, 12⟩⟩, ⟨.integer, "1", ⟨1, 14⟩⟩, ⟨.semicolon, ";", ⟨1, 15⟩⟩, ⟨.funcWord, "func", ⟨1, 17⟩⟩,
      ⟨.ident, "f", ⟨1, 22⟩⟩, ⟨.lparen, "(", ⟨1, 23⟩⟩, ⟨.ident, "y", ⟨1, 24⟩⟩, ⟨.colon, ":", ⟨1, 25⟩⟩,
      ⟨.ident, "int", ⟨1, 27⟩⟩, ⟨.rparen, ")", ⟨1, 30⟩⟩, ⟨.colon, ":", ⟨1, 31⟩⟩, ⟨.ident, "int", ⟨1, 33⟩⟩,
      ⟨.lbrace, "\x7b", ⟨1, 37⟩⟩, ⟨.returnWord, "return", ⟨1, 39⟩⟩, ⟨.ident, "x", ⟨1, 46⟩⟩, ⟨.plus, "+", ⟨1, 48⟩⟩,
      ⟨.ident, "y", ⟨1, 50⟩⟩, ⟨.semicolon, ";", ⟨1, 51⟩⟩, ⟨.rbrace, "\x7d", ⟨1, 53⟩⟩, ⟨.printWord, "print", ⟨1, 55⟩⟩,
      ⟨.lparen, "(", ⟨1, 60⟩⟩, ⟨.ident, "f", ⟨1, 61⟩⟩, ⟨.lparen, "(", ⟨1, 62⟩⟩, ⟨.integer, "2", ⟨1, 63⟩⟩,
      ⟨.rparen, ")", ⟨1, 64⟩⟩, ⟨.rparen, ")", ⟨1, 65⟩⟩, ⟨.semicolon, ";", ⟨1, 66⟩⟩, ⟨.eof, "", ⟨1, 67⟩⟩] := by
  rw [tokenize_eq_tokensWithin]
  decide +kernel

theorem parse_globalText : Program.parse globalText = .ok globalProgram := by
  rw [Program.parse, tokenize_globalText]
  rfl

/-- The globals are as the call has found them, and its frame is gone. -/
def globalWorld : World :=
  { store := ⟨[("x", ⟨.int, some (.int 1)⟩)], []⟩,
    functions := globalProgram.functions.map fun f => (f.name, f),
    input := [], output := "", tracing := false, events := [] }

theorem locate_globalProgram :
    Located.runProgram ⟨1000, 1000⟩ globalProgram (World.start "" false) =
      .error ⟨.failed (.store (.undefined "x")), globalProgram.home "f", 1⟩ globalWorld := rfl

/-- The program stops in the call, where the names stand for what they stand for in the body of `f`. -/
theorem global_unbound :
    Program.parse globalText = .ok globalProgram ∧ (Typing.check globalProgram).answer = .ok () ∧
    Located.runProgram ⟨1000, 1000⟩ globalProgram (World.start "" false) =
      .error ⟨.failed (.store (.undefined "x")), globalProgram.home "f", 1⟩ globalWorld ∧
    1 ≠ 0 ∧ (globalProgram.home "f").IsGlobal "x" :=
  ⟨parse_globalText, rfl, locate_globalProgram,
    (unbound_isGlobal parse_globalText rfl ⟨1000, 1000⟩ _).2 _ _ locate_globalProgram "x" (.inl rfl)⟩

end Execution
end TypedImp
