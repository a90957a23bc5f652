import TypedImp.Program.Basic
import TypedImp.Word

/-! Typing rules without scopes. Each name stands for at most one variable and at most one function in the
    whole program, so that a rule need not know where its expression stands. -/

namespace TypedImp

/-! ### Declarations of variables -/

namespace Stmt

mutual
/-- The variables that a statement declares, with their types, those of its blocks, headers and function
    bodies among them, and so the parameters. -/
def declarations : Stmt → List (String × Ty)
  | varDecl name ty _ => [(name, ty)]
  | ifThen _ body => declarationsAll body
  | ifElse _ yes no => declarationsAll yes ++ declarationsAll no
  | whileLoop _ body => declarationsAll body
  | forLoop init _ step body => declarations init ++ (declarations step ++ declarationsAll body)
  | function _ params _ body => params.map (fun p => (p.name, p.ty)) ++ declarationsAll body
  | block body => declarationsAll body
  | _ => []

def declarationsAll : List Stmt → List (String × Ty)
  | [] => []
  | s :: ss => declarations s ++ declarationsAll ss
end

end Stmt

/-- The variables that a program declares anywhere, with their types. -/
def Program.declarations (p : Program) : List (String × Ty) := Stmt.declarationsAll p.body

/-- No name is declared with two types. -/
def Program.Consistent (p : Program) : Prop :=
  ∀ x s t, (x, s) ∈ p.declarations → (x, t) ∈ p.declarations → s = t

/-! ### Values -/

/-- A value has a type if it is one that the language makes: no loose one, and an `int` in its range. -/
inductive Value.HasTy : Value → Ty → Prop
  | int {n : Int} : Word.inRange n = true → HasTy (.int n) .int
  | float {x : Float} : HasTy (.float x) .float
  | bool {b : Bool} : HasTy (.bool b) .bool
  | char {s : String} : HasTy (.char s) .char
  | string {s : String} : HasTy (.string s) .string

theorem Value.HasTy.ty_eq {v : Value} {t : Ty} (h : v.HasTy t) : v.ty = t := by
  cases h <;> rfl

theorem Value.HasTy.ne_void {v : Value} {t : Ty} (h : v.HasTy t) : t ≠ .void := by
  cases h <;> decide

/-- Only a `float` place takes a value of another type. -/
theorem Ty.eq_of_accepts {s t : Ty} (h : s.accepts t = true) (hs : s ≠ .float) : t = s := by
  simp only [accepts, Bool.or_eq_true, Bool.and_eq_true, decide_eq_true_eq] at h
  rcases h with h | h
  · exact h.symm
  · exact absurd h.1 hs

namespace Typing

/-- What the names of a program stand for. -/
structure Names where
  type? : String → Option Ty
  function? : String → Option Function

variable {Γ : Names}

/-! ### Expressions -/

mutual
/-- The expression has the type, which is `void` only for a call. -/
inductive HasType (Γ : Names) : Expr → Ty → Prop
  | literal {v : Value} {t : Ty} : v.HasTy t → HasType Γ (.literal v) t
  | var {x : String} {t : Ty} : Γ.type? x = some t → t ≠ .void → HasType Γ (.var x) t
  | unary {op : UnaryOp} {e : Expr} {t : Ty} :
      op = .plus ∨ op = .minus → HasType Γ e t → t.isNumeric = true → HasType Γ (.unary op e) t
  | logical {op : BinaryOp} {l r : Expr} :
      op.family = .logical → HasType Γ l .bool → HasType Γ r .bool → HasType Γ (.binary l op r) .bool
  | equality {op : BinaryOp} {l r : Expr} {s t : Ty} :
      op.family = .equality → HasType Γ l s → HasType Γ r t → s ≠ .void → s.accepts t = true →
      HasType Γ (.binary l op r) .bool
  | relational {op : BinaryOp} {l r : Expr} {s t : Ty} :
      op.family = .relational → HasType Γ l s → HasType Γ r t → s.isNumeric = true → s.accepts t = true →
      HasType Γ (.binary l op r) .bool
  | arithmetic {op : BinaryOp} {l r : Expr} {s t : Ty} :
      op.family = .arithmetic → HasType Γ l s → HasType Γ r t → s.isNumeric = true → s.accepts t = true →
      HasType Γ (.binary l op r) s
  | concat {l r : Expr} : HasType Γ l .string → HasType Γ r .string → HasType Γ (.binary l .add r) .string
  | call {x : String} {f : Function} {args : List Expr} :
      Γ.function? x = some f → ArgumentsFit Γ f.params args → HasType Γ (.call x args) f.result

/-- Each argument fits its parameter. -/
inductive ArgumentsFit (Γ : Names) : List Param → List Expr → Prop
  | nil : ArgumentsFit Γ [] []
  | cons {p : Param} {ps : List Param} {e : Expr} {es : List Expr} {t : Ty} :
      HasType Γ e t → t ≠ .void → p.ty.accepts t = true → ArgumentsFit Γ ps es → ArgumentsFit Γ (p :: ps) (e :: es)
end

/-- The expression is a value that may be stored where `t` is declared. -/
def Fits (Γ : Names) (e : Expr) (t : Ty) : Prop := ∃ s, HasType Γ e s ∧ s ≠ .void ∧ t.accepts s = true

theorem ArgumentsFit.length_eq {ps : List Param} {es : List Expr} (h : ArgumentsFit Γ ps es) :
    es.length = ps.length := by
  induction ps generalizing es with
  | nil =>
    cases h
    rfl
  | cons p ps ih =>
    cases h with
    | cons _ _ _ hes => simp [ih hes]

/-- Only a call has no value. -/
theorem HasType.isCall_of_void {e : Expr} (h : HasType Γ e .void) : ∃ x args, e = .call x args := by
  cases e with
  | call x args => exact ⟨x, args, rfl⟩
  | literal v =>
    cases h with
    | literal hv => exact absurd rfl hv.ne_void
  | var x =>
    cases h with
    | var _ hne => exact absurd rfl hne
  | unary op e =>
    cases h with
    | unary _ _ hnumeric => cases hnumeric
  | binary l op r =>
    cases h with
    | arithmetic _ _ _ hnumeric _ => cases hnumeric
  | stray => cases h
  | misnamed => cases h

/-! ### Statements -/

/-- The statement keeps the rules. The result type is that of the function around it, if there is one. -/
inductive Keeps (Γ : Names) (result : Option Ty) : Stmt → Prop
  | varDecl {x : String} {t : Ty} {init : Option Expr} :
      Γ.type? x = some t → (∀ e ∈ init, Fits Γ e t) → Keeps Γ result (.varDecl x t init)
  | assign {x : String} {t : Ty} {e : Expr} :
      Γ.type? x = some t → Fits Γ e t → Keeps Γ result (.assign x e)
  | print {e : Expr} {t : Ty} : HasType Γ e t → t ≠ .void → Keeps Γ result (.print e)
  | input {x : String} {t : Ty} : Γ.type? x = some t → t ≠ .void → Keeps Γ result (.input x)
  | ifThen {cond : Expr} {body : List Stmt} :
      HasType Γ cond .bool → (∀ s ∈ body, Keeps Γ result s) → Keeps Γ result (.ifThen cond body)
  | ifElse {cond : Expr} {yes no : List Stmt} :
      HasType Γ cond .bool → (∀ s ∈ yes, Keeps Γ result s) → (∀ s ∈ no, Keeps Γ result s) →
      Keeps Γ result (.ifElse cond yes no)
  | whileLoop {cond : Expr} {body : List Stmt} :
      HasType Γ cond .bool → (∀ s ∈ body, Keeps Γ result s) → Keeps Γ result (.whileLoop cond body)
  | forLoop {init step : Stmt} {cond : Expr} {body : List Stmt} :
      Keeps Γ result init → HasType Γ cond .bool → Keeps Γ result step → (∀ s ∈ body, Keeps Γ result s) →
      Keeps Γ result (.forLoop init cond step body)
  | retNone : result = some .void → Keeps Γ result (.ret none)
  | retSome {e : Expr} {t : Ty} :
      result = some t → t ≠ .void → Fits Γ e t → Keeps Γ result (.ret (some e))
  | expr {e : Expr} {t : Ty} : HasType Γ e t → Keeps Γ result (.expr e)
  | block {body : List Stmt} : (∀ s ∈ body, Keeps Γ result s) → Keeps Γ result (.block body)

/-! ### Programs -/

/-- The parameters and the body of a function keep the rules. -/
structure FunctionKeeps (Γ : Names) (f : Function) : Prop where
  params : ∀ p ∈ f.params, Γ.type? p.name = some p.ty ∧ p.ty ≠ .void
  body : ∀ s ∈ f.body, Keeps Γ (some f.result) s

/-- A program keeps the rules under what its names stand for. -/
structure ProgramKeeps (Γ : Names) (p : Program) : Prop where
  functions : ∀ x f, Γ.function? x = some f → FunctionKeeps Γ f
  actions : ∀ s ∈ p.actions, Keeps Γ none s

end Typing
end TypedImp
