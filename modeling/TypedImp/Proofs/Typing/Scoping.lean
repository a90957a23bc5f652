import TypedImp.Proofs.Typing.Context

/-! Typing rules with scopes. A context says what the names at one place of a program stand for; it is never
    changed, only handed on: a declaration extends the context of the statements behind it in its block, and what a
    block declares is gone behind the block. -/

namespace TypedImp
namespace Typing

/-! ### Statements -/

mutual
/-- The statement is well typed at a place with the context `Γ`, in a function with the result type if there is one. -/
inductive Admits (result : Option Ty) : Context → Stmt → Prop
  | varDecl {Γ : Context} {x : String} {t : Ty} {init : Option Expr} :
      (∀ e ∈ init, Fits Γ.names e t) → Γ.Fresh x → Admits result Γ (.varDecl x t init)
  | assign {Γ : Context} {x : String} {t : Ty} {e : Expr} :
      Γ.names.type? x = some t → Fits Γ.names e t → Admits result Γ (.assign x e)
  | print {Γ : Context} {e : Expr} {t : Ty} : HasType Γ.names e t → t ≠ .void → Admits result Γ (.print e)
  | input {Γ : Context} {x : String} {t : Ty} : Γ.names.type? x = some t → Admits result Γ (.input x)
  | ifThen {Γ : Context} {cond : Expr} {body : List Stmt} :
      HasType Γ.names cond .bool → AdmitsAll result Γ.block body → Admits result Γ (.ifThen cond body)
  | ifElse {Γ : Context} {cond : Expr} {yes no : List Stmt} :
      HasType Γ.names cond .bool → AdmitsAll result Γ.block yes → AdmitsAll result Γ.block no →
      Admits result Γ (.ifElse cond yes no)
  | whileLoop {Γ : Context} {cond : Expr} {body : List Stmt} :
      HasType Γ.names cond .bool → AdmitsAll result Γ.block body → Admits result Γ (.whileLoop cond body)
  | forLoop {Γ Γ' : Context} {init step : Stmt} {cond : Expr} {body : List Stmt} :
      -- The header is a block of its own, around the body.
      Γ' = Γ.block.after init → Admits result Γ.block init → HasType Γ'.names cond .bool → Admits result Γ' step →
      AdmitsAll result Γ'.block body → Admits result Γ (.forLoop init cond step body)
  | retNone {Γ : Context} : result = some .void → Admits result Γ (.ret none)
  | retSome {Γ : Context} {e : Expr} {t : Ty} :
      result = some t → t ≠ .void → Fits Γ.names e t → Admits result Γ (.ret (some e))
  | expr {Γ : Context} {e : Expr} {t : Ty} : HasType Γ.names e t → Admits result Γ (.expr e)

/-- The statements are well typed one behind the other. -/
inductive AdmitsAll (result : Option Ty) : Context → List Stmt → Prop
  | nil {Γ : Context} : AdmitsAll result Γ []
  | cons {Γ : Context} {s : Stmt} {ss : List Stmt} :
      Admits result Γ s → AdmitsAll result (Γ.after s) ss → AdmitsAll result Γ (s :: ss)
end

/-! ### Programs -/

/-- The function is well typed where it is declared. -/
structure AdmitsFunction (Γ : Context) (f : Function) : Prop where
  params : (f.params.map Param.name).Nodup
  body : AdmitsAll (some f.result) (Γ.body f.params) f.body

/-- The statements of the top level are well typed one behind the other. Only here functions may be declared. -/
inductive AdmitsTop : Context → List Stmt → Prop
  | nil {Γ : Context} : AdmitsTop Γ []
  | function {Γ : Context} {x : String} {params : List Param} {result : Ty} {body ss : List Stmt} :
      AdmitsFunction Γ ⟨x, params, result, body⟩ → AdmitsTop Γ ss →
      AdmitsTop Γ (.function x params result body :: ss)
  | action {Γ : Context} {s : Stmt} {ss : List Stmt} :
      Admits none Γ s → AdmitsTop (Γ.after s) ss → AdmitsTop Γ (s :: ss)

end Typing

/-- Where a program begins all of its functions are visible. -/
def Program.context (p : Program) : Typing.Context :=
  Typing.Context.declareAll ⟨[], []⟩ (p.functions.map fun f => (f.name, .function f.params f.result))

/-- The functions have different names, and the statements are well typed where these are visible. -/
structure Program.WellTyped (p : Program) : Prop where
  distinct : (p.functions.map Function.name).Nodup
  body : Typing.AdmitsTop p.context p.body

end TypedImp
