import TypedImp.Proofs.Execution.Retyping
import TypedImp.Proofs.Token.Progress
import TypedImp.Typing.Check

/-! Shadowing. The checker gives every block a scope of its own, in which a name of an outer scope may be
    declared again, with any type. A running program has no such scopes: what a block declares replaces the
    binding of the outer variable, and stays when the block has ended. So a statement keeps the type of
    every variable but those which it declares again with another type. -/

namespace TypedImp
namespace Execution

/-! ### A declaration replaces -/

theorem get?_current_declare (s : Store) (x : String) (ty : Ty) (v : Option Value) :
    (s.declare x ty v).current.get? x = some ⟨ty, v⟩ := by
  obtain ⟨globals, frames⟩ := s
  cases frames with
  | nil => exact Assoc.get?_insert_self globals x ⟨ty, v⟩
  | cons frame frames => exact Assoc.get?_insert_self frame x ⟨ty, v⟩

theorem declareVariable_binds {x : String} {ty : Ty} {v : Option Value} {w w' : World}
    (h : declareVariable x ty v w = .ok () w') : w'.store.current.get? x = some ⟨ty, v⟩ := by
  obtain ⟨u, w₁, hdeclare, hrecord⟩ := State.bind_eq_ok h
  cases hdeclare
  cases hrecord
  rw [World.store_record]
  exact get?_current_declare w.store x ty v

/-- Whatever a name was before, it has the declared type when its declaration has run. -/
theorem varDecl_binds {b : Bounds} {n : Nat} {x : String} {ty : Ty} {init : Option Expr} {flow : Flow}
    {w w' : World} (h : execute b n (.varDecl x ty init) w = .ok flow w') :
    ∃ v, w'.store.current.get? x = some ⟨ty, v⟩ := by
  cases n with
  | zero => cases h
  | succ n =>
    unfold execute at h
    cases init with
    | none =>
      obtain ⟨u, w₁, hdeclare, hend⟩ := State.bind_eq_ok h
      cases hend
      exact ⟨none, declareVariable_binds hdeclare⟩
    | some e =>
      obtain ⟨v, w₁, -, h⟩ := State.bind_eq_ok h
      obtain ⟨v', w₂, -, h⟩ := State.bind_eq_ok h
      obtain ⟨u, w₃, hdeclare, hend⟩ := State.bind_eq_ok h
      cases hend
      exact ⟨some v', declareVariable_binds hdeclare⟩

theorem sequence_singleton (run : Stmt → Run Flow) (s : Stmt) : sequence run [s] = run s := by
  refine Eq.trans (congrArg (run s >>= ·) ?_) (bind_pure (run s))
  funext flow
  cases flow <;> rfl

/-- The statements behind others run unless those return. -/
theorem sequence_append_eq (run : Stmt → Run Flow) (ss ts : List Stmt) :
    sequence run (ss ++ ts) = (do
      match ← sequence run ss with
      | .normal => sequence run ts
      | .returning v => return .returning v) := by
  induction ss with
  | nil => rfl
  | cons s ss ih =>
    rw [List.cons_append, sequence, sequence, bind_assoc]
    congr 1
    funext flow
    cases flow with
    | normal => exact ih
    | returning v => rfl

theorem sequence_append {run : Stmt → Run Flow} {ss ts : List Stmt} {w w' : World}
    (h : sequence run (ss ++ ts) w = .ok .normal w') :
    ∃ w₁, sequence run ss w = .ok .normal w₁ ∧ sequence run ts w₁ = .ok .normal w' := by
  rw [sequence_append_eq] at h
  obtain ⟨flow, w₁, hss, hts⟩ := State.bind_eq_ok h
  cases flow with
  | normal => exact ⟨w₁, hss, hts⟩
  | returning v => cases hts

/-- A block that ends leaves a name with the type of its last declaration in the block. -/
theorem executeBlock_binds {b : Bounds} {n : Nat} {ss ts : List Stmt} {x : String} {ty : Ty}
    {init : Option Expr} {w w' : World} (hts : ∀ ty', (x, ty') ∈ Stmt.declarationsAll ts → ty' = ty)
    (h : executeBlock b n (ss ++ .varDecl x ty init :: ts) w = .ok .normal w') :
    ∃ v, w'.store.current.get? x = some ⟨ty, v⟩ := by
  cases n with
  | zero => cases h
  | succ n =>
    obtain ⟨w₁, -, h⟩ := sequence_append h
    obtain ⟨flow, w₂, hdecl, h⟩ := State.bind_eq_ok h
    obtain ⟨v, hv⟩ := varDecl_binds hdecl
    cases flow with
    | returning v => cases h
    | normal =>
      have hrest := (Retypes.sequence (retypesWithin b n).execute ts w₂).current.get? hv
      rw [Run.run_of_ok h] at hrest
      obtain ⟨c, hc, hty⟩ := hrest
      obtain ⟨cty, cv⟩ := c
      have hcty : cty = ty := by
        rcases hty with hty | hty
        · exact hty
        · exact hts cty hty
      exact ⟨cv, hcty ▸ hc⟩

/-! ### A statement keeps the other types -/

/-- A statement, whether it ends or stops, leaves every variable in its place. One that could be read has
    the type that it had or one with which the statement declares the name; all others have the type that
    they had. A block of the statement is no scope: where it declares a name, the name has the type of the
    last declaration when the block has ended. -/
theorem execute_keeps_types (b : Bounds) (n : Nat) (s : Stmt) (w : World) :
    (∀ x a, w.store.current.get? x = some a →
      ∃ c, ((execute b n s).run w).world.store.current.get? x = some c ∧
        (c.ty = a.ty ∨ (x, c.ty) ∈ s.declarations)) ∧
    (w.store.frames ≠ [] → ∀ x a, w.store.globals.get? x = some a →
      ∃ c, ((execute b n s).run w).world.store.globals.get? x = some c ∧ c.ty = a.ty) ∧
    ((execute b n s).run w).world.store.depth = w.store.depth ∧
    ((execute b n s).run w).world.store.frames.tail = w.store.frames.tail ∧
    (∀ m ss x ty init ts w', executeBlock b m (ss ++ .varDecl x ty init :: ts) w = .ok .normal w' →
      (∀ ty', (x, ty') ∈ Stmt.declarationsAll ts → ty' = ty) →
      ∃ v, w'.store.current.get? x = some ⟨ty, v⟩) := by
  have h := (retypesWithin b n).execute s w
  refine ⟨fun x a ha => h.current.get? ha, fun hframes x a ha => ?_, h.depth, h.outer, ?_⟩
  · obtain ⟨c, hc, hty⟩ := (h.globals hframes).get? ha
    exact ⟨c, hc, hty.resolve_right List.not_mem_nil⟩
  · intro m ss x ty init ts w' hrun hts
    exact executeBlock_binds hts hrun

/-! ### A shadowing declaration -/

/-- A text that declares a name again in a block, with another type, and uses it behind the block. -/
def shadowingText : String := "var x: int = 1; if (true) \x7b var x: string = \"s\"; \x7d print(x + 1);"

def shadowingTokens : List Token :=
  [⟨.varWord, "var", ⟨1, 1⟩⟩, ⟨.ident, "x", ⟨1, 5⟩⟩, ⟨.colon, ":", ⟨1, 6⟩⟩, ⟨.ident, "int", ⟨1, 8⟩⟩,
    ⟨.assign, "=", ⟨1, 12⟩⟩, ⟨.integer, "1", ⟨1, 14⟩⟩, ⟨.semicolon, ";", ⟨1, 15⟩⟩, ⟨.ifWord, "if", ⟨1, 17⟩⟩,
    ⟨.lparen, "(", ⟨1, 20⟩⟩, ⟨.boolean, "true", ⟨1, 21⟩⟩, ⟨.rparen, ")", ⟨1, 25⟩⟩, ⟨.lbrace, "\x7b", ⟨1, 27⟩⟩,
    ⟨.varWord, "var", ⟨1, 29⟩⟩, ⟨.ident, "x", ⟨1, 33⟩⟩, ⟨.colon, ":", ⟨1, 34⟩⟩, ⟨.ident, "string", ⟨1, 36⟩⟩,
    ⟨.assign, "=", ⟨1, 43⟩⟩, ⟨.string, "s", ⟨1, 45⟩⟩, ⟨.semicolon, ";", ⟨1, 48⟩⟩, ⟨.rbrace, "\x7d", ⟨1, 50⟩⟩,
    ⟨.printWord, "print", ⟨1, 52⟩⟩, ⟨.lparen, "(", ⟨1, 57⟩⟩, ⟨.ident, "x", ⟨1, 58⟩⟩, ⟨.plus, "+", ⟨1, 60⟩⟩,
    ⟨.integer, "1", ⟨1, 62⟩⟩, ⟨.rparen, ")", ⟨1, 63⟩⟩, ⟨.semicolon, ";", ⟨1, 64⟩⟩, ⟨.eof, "", ⟨1, 65⟩⟩]

theorem tokenize_shadowingText : tokenize shadowingText = shadowingTokens := by
  rw [tokenize_eq_tokensWithin]
  decide +kernel

def shadowed : Stmt := .varDecl "x" .int (some (.literal (.int 1)))

def shadowing : Stmt :=
  .ifThen (.literal (.bool true)) [.varDecl "x" .string (some (.literal (.string "s")))]

def shadowUse : Stmt := .print (.binary (.var "x") .add (.literal (.int 1)))

/-- The text is a program that the checker accepts. Its second statement replaces an `int` variable of its
    outer scope by a `string`, so that the third one fails, for which the checker has found two integers. -/
theorem shadowing_replaces_binding :
    Program.parse shadowingText = .ok ⟨[shadowed, shadowing, shadowUse]⟩ ∧
    (Typing.check ⟨[shadowed, shadowing, shadowUse]⟩).answer = .ok () ∧
    ∃ w₁ w₂ b, b = Bounds.mk 1000 1000 ∧
      execute b b.budget shadowed (World.start "" false) = .ok .normal w₁ ∧
      w₁.store.current.get? "x" = some ⟨.int, some (.int 1)⟩ ∧
      execute b b.budget shadowing w₁ = .ok .normal w₂ ∧
      w₂.store.current.get? "x" = some ⟨.string, some (.string "s")⟩ ∧
      ((runProgram b ⟨[shadowed, shadowing, shadowUse]⟩).run (World.start "" false)).answer =
        .error (.failed (.operation (.unsupported .add .string .int))) := by
  refine ⟨?_, rfl, ⟨⟨[("x", ⟨.int, some (.int 1)⟩)], []⟩, [], [], "", false, []⟩,
    ⟨⟨[("x", ⟨.string, some (.string "s")⟩)], []⟩, [], [], "", false, []⟩, ⟨1000, 1000⟩, rfl, rfl, rfl, rfl, rfl, rfl⟩
  rw [Program.parse, tokenize_shadowingText]
  rfl

end Execution
end TypedImp
