import TypedImp.Proofs.Syntax.WellFormed
import TypedImp.Proofs.Typing.Rules

/-! What a text can write. A tree read from outside may hold stray nodes, loose literals and operators that
    the language does not have; a well-formed program holds none of them, and declares no variable of type
    `void`. -/

namespace TypedImp

/-- An expression that a text can write. -/
inductive Expr.Written : Expr → Prop
  | literal {v : Value} {t : Ty} : v.HasTy t → Written (.literal v)
  | var {x : String} : Written (.var x)
  | unary {op : UnaryOp} {e : Expr} : op = .plus ∨ op = .minus → Written e → Written (.unary op e)
  | binary {l r : Expr} {op : BinaryOp} : Written l → Written r → Written (.binary l op r)
  | call {x : String} {args : List Expr} : (∀ e ∈ args, Written e) → Written (.call x args)

/-- A statement that a text can write. -/
inductive Stmt.Written : Stmt → Prop
  | varDecl {x : String} {t : Ty} {init : Option Expr} :
      t ≠ .void → (∀ e ∈ init, e.Written) → Written (.varDecl x t init)
  | assign {x : String} {e : Expr} : e.Written → Written (.assign x e)
  | print {e : Expr} : e.Written → Written (.print e)
  | input {x : String} : Written (.input x)
  | ifThen {cond : Expr} {body : List Stmt} :
      cond.Written → (∀ s ∈ body, Written s) → Written (.ifThen cond body)
  | ifElse {cond : Expr} {yes no : List Stmt} :
      cond.Written → (∀ s ∈ yes, Written s) → (∀ s ∈ no, Written s) → Written (.ifElse cond yes no)
  | whileLoop {cond : Expr} {body : List Stmt} :
      cond.Written → (∀ s ∈ body, Written s) → Written (.whileLoop cond body)
  | forLoop {init step : Stmt} {cond : Expr} {body : List Stmt} :
      Written init → cond.Written → Written step → (∀ s ∈ body, Written s) →
      Written (.forLoop init cond step body)
  | function {x : String} {params : List Param} {result : Ty} {body : List Stmt} :
      (∀ p ∈ params, p.ty ≠ .void) → (∀ s ∈ body, Written s) → Written (.function x params result body)
  | ret {value : Option Expr} : (∀ e ∈ value, e.Written) → Written (.ret value)
  | expr {e : Expr} : e.Written → Written (.expr e)

def Program.Written (p : Program) : Prop := ∀ s ∈ p.body, s.Written

/-! ### Well-formed programs -/

theorem Syntax.integer_inRange {n : Nat} (h : (n : Int) ≤ Word.maximum) : Word.inRange n = true := by
  unfold Word.inRange
  have hmin : Word.minimum ≤ (n : Int) := by
    unfold Word.minimum
    omega
  simp [hmin, h]

theorem Value.IsLiteral.hasTy {v : Value} (h : v.IsLiteral) : v.HasTy v.ty := by
  cases h with
  | @int n hmin hmax =>
    obtain ⟨m, rfl⟩ := Int.eq_ofNat_of_zero_le hmin
    exact .int (Syntax.integer_inRange hmax)
  | float => exact .float
  | bool => exact .bool
  | char => exact .char
  | string => exact .string

theorem Expr.WellFormed.written {e : Expr} (h : e.WellFormed) : e.Written := by
  induction h with
  | literal hv => exact .literal hv.hasTy
  | var => exact .var
  | unary hop _ ih => exact .unary hop ih
  | binary _ _ _ ihl ihr => exact .binary ihl ihr
  | call _ _ ih => exact .call ih

theorem Stmt.WellFormed.written {s : Stmt} (h : s.WellFormed) : s.Written := by
  induction h with
  | varDecl _ ht hinit => exact .varDecl ht fun e he => (hinit e he).written
  | assign _ he => exact .assign he.written
  | print he => exact .print he.written
  | input => exact .input
  | ifThen hcond _ ih => exact .ifThen hcond.written ih
  | ifElse hcond _ _ ihyes ihno => exact .ifElse hcond.written ihyes ihno
  | whileLoop hcond _ ih => exact .whileLoop hcond.written ih
  | forLoop _ _ hcond _ _ _ ihinit ihstep ih => exact .forLoop ihinit hcond.written ihstep ih
  | function _ hparams _ ih => exact .function (fun p hp => (hparams p hp).ty) ih
  | ret hvalue => exact .ret fun e he => (hvalue e he).written
  | expr he => exact .expr he.written

theorem Program.WellFormed.written {p : Program} (h : p.WellFormed) : p.Written := fun s hs => (h s hs).written

end TypedImp
