import Mathlib.Data.List.Forall2
import TypedImp.Program.Basic

/-! Statements behind a return. A program is trimmed by cutting some of its blocks, at any depth, behind their first
    return. The list of its top level is no block: it stays whole, but the blocks in its statements may be cut. -/

namespace TypedImp

namespace Stmt

/-- Does the statement have no block of its own? -/
def isLeaf : Stmt → Bool
  | ifThen .. | ifElse .. | whileLoop .. | forLoop .. | function .. | block .. => false
  | _ => true

/-- The second block has statements that `R` relates to those of the first one, up to its end or up to a return. -/
inductive Cut (R : Stmt → Stmt → Prop) : List Stmt → List Stmt → Prop
  | nil : Cut R [] []
  | cons {s s' : Stmt} {ss ss' : List Stmt} : R s s' → Cut R ss ss' → Cut R (s :: ss) (s' :: ss')
  | behind {value : Option Expr} (ss : List Stmt) : Cut R (.ret value :: ss) [.ret value]

/-- The second statement is the first one with some of its blocks cut behind a return. -/
inductive Trims : Stmt → Stmt → Prop
  | leaf {s : Stmt} : s.isLeaf = true → Trims s s
  | ifThen {cond : Expr} {body body' : List Stmt} : Cut Trims body body' → Trims (.ifThen cond body) (.ifThen cond body')
  | ifElse {cond : Expr} {yes yes' no no' : List Stmt} :
      Cut Trims yes yes' → Cut Trims no no' → Trims (.ifElse cond yes no) (.ifElse cond yes' no')
  | whileLoop {cond : Expr} {body body' : List Stmt} :
      Cut Trims body body' → Trims (.whileLoop cond body) (.whileLoop cond body')
  | forLoop {init init' step step' : Stmt} {cond : Expr} {body body' : List Stmt} :
      Trims init init' → Trims step step' → Cut Trims body body' →
      Trims (.forLoop init cond step body) (.forLoop init' cond step' body')
  | function {name : String} {params : List Param} {result : Ty} {body body' : List Stmt} :
      Cut Trims body body' → Trims (.function name params result body) (.function name params result body')
  | block {body body' : List Stmt} : Cut Trims body body' → Trims (.block body) (.block body')

mutual
theorem Trims.refl : ∀ s : Stmt, s.Trims s
  | .ifThen _ body => .ifThen (Cut.refl body)
  | .ifElse _ yes no => .ifElse (Cut.refl yes) (Cut.refl no)
  | .whileLoop _ body => .whileLoop (Cut.refl body)
  | .forLoop init _ step body => .forLoop (Trims.refl init) (Trims.refl step) (Cut.refl body)
  | .function _ _ _ body => .function (Cut.refl body)
  | .block body => .block (Cut.refl body)
  | .varDecl .. | .assign .. | .print _ | .input _ | .ret _ | .expr _ | .stray _ | .misnamed .. | .notBlock _ => .leaf rfl

theorem Cut.refl : ∀ ss : List Stmt, Cut Trims ss ss
  | [] => .nil
  | s :: ss => .cons (Trims.refl s) (Cut.refl ss)
end

mutual
/-- Every block of the statement is cut behind its first return. -/
def trim : Stmt → Stmt
  | ifThen cond body => .ifThen cond (trimAll body)
  | ifElse cond yes no => .ifElse cond (trimAll yes) (trimAll no)
  | whileLoop cond body => .whileLoop cond (trimAll body)
  | forLoop init cond step body => .forLoop (trim init) cond (trim step) (trimAll body)
  | function name params result body => .function name params result (trimAll body)
  | block body => .block (trimAll body)
  | s => s

def trimAll : List Stmt → List Stmt
  | [] => []
  | .ret value :: _ => [.ret value]
  | s :: ss => trim s :: trimAll ss
end

mutual
theorem trims_trim : ∀ s : Stmt, s.Trims s.trim
  | .ifThen _ body => .ifThen (cut_trimAll body)
  | .ifElse _ yes no => .ifElse (cut_trimAll yes) (cut_trimAll no)
  | .whileLoop _ body => .whileLoop (cut_trimAll body)
  | .forLoop init _ step body => .forLoop (trims_trim init) (trims_trim step) (cut_trimAll body)
  | .function _ _ _ body => .function (cut_trimAll body)
  | .block body => .block (cut_trimAll body)
  | .varDecl .. | .assign .. | .print _ | .input _ | .ret _ | .expr _ | .stray _ | .misnamed .. | .notBlock _ => .leaf rfl

theorem cut_trimAll : ∀ ss : List Stmt, Cut Trims ss (trimAll ss)
  | [] => .nil
  | s :: ss => by
    unfold trimAll
    split
    · cases ‹_›
    · next h =>
      cases h
      exact .behind _
    · next h =>
      cases h
      exact .cons (trims_trim s) (cut_trimAll ss)
end

end Stmt

open Stmt (Cut)

/-! ### Programs -/

/-- The second function is the first one with some blocks cut behind a return, its body among them. -/
structure Function.Trims (f f' : Function) : Prop where
  name : f'.name = f.name
  params : f'.params = f.params
  result : f'.result = f.result
  body : Cut Stmt.Trims f.body f'.body

theorem Function.Trims.refl (f : Function) : f.Trims f := ⟨rfl, rfl, rfl, .refl f.body⟩

theorem Function.Trims.relates_self : ∀ o : Option Function, Option.Rel Function.Trims o o
  | none => .none
  | some f => .some (.refl f)

/-- The statements declare related functions, or none. -/
theorem Stmt.Trims.function? {s s' : Stmt} (h : s.Trims s') : Option.Rel Function.Trims s.function? s'.function? := by
  cases h with
  | function hbody => exact .some ⟨rfl, rfl, rfl, hbody⟩
  | leaf hs =>
    cases s with
    | function => cases hs
    | _ => exact .none
  | _ => exact .none

namespace Program

/-- The second program is the first one with some blocks in its statements cut behind a return. -/
def Trims (p q : Program) : Prop := List.Forall₂ Stmt.Trims p.body q.body

/-- Every block of the program is cut behind its first return. -/
def trim (p : Program) : Program := ⟨p.body.map Stmt.trim⟩

theorem trims_trim (p : Program) : p.Trims p.trim :=
  List.forall₂_map_right_iff.mpr (List.forall₂_same.mpr fun s _ => s.trims_trim)

variable {p q : Program}

theorem Trims.functions (h : p.Trims q) : List.Forall₂ Function.Trims p.functions q.functions := by
  obtain ⟨body⟩ := p
  obtain ⟨body'⟩ := q
  change List.Forall₂ Stmt.Trims body body' at h
  unfold Program.functions
  induction h with
  | nil => exact .nil
  | @cons s s' _ _ hs _ ih =>
    rw [List.filterMap_cons, List.filterMap_cons]
    have hf := hs.function?
    generalize s.function? = o, s'.function? = o' at hf
    cases hf with
    | none => exact ih
    | some hf => exact .cons hf ih

theorem Trims.actions (h : p.Trims q) : Cut Stmt.Trims p.actions q.actions := by
  obtain ⟨body⟩ := p
  obtain ⟨body'⟩ := q
  change List.Forall₂ Stmt.Trims body body' at h
  unfold Program.actions
  induction h with
  | nil => exact .nil
  | @cons s s' _ _ hs _ ih =>
    rw [List.filter_cons, List.filter_cons]
    have hf := hs.function?
    generalize s.function? = o, s'.function? = o' at hf
    cases hf with
    | none => exact .cons hs ih
    | some _ => exact ih

end Program
end TypedImp
