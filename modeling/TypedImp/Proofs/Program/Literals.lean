import TypedImp.Program.Basic

/-! The literals that stand in expressions, statements and programs. They are where the values of a run come
    from, beside its input. -/

namespace TypedImp

namespace Expr

mutual
/-- The literals of an expression, those of the arguments of its calls among them. -/
def literals : Expr → List Value
  | literal v => [v]
  | unary _ operand => literals operand
  | binary left _ right => literals left ++ literals right
  | call _ args => literalsAll args
  | _ => []

def literalsAll : List Expr → List Value
  | [] => []
  | e :: es => literals e ++ literalsAll es
end

theorem literalsAll_eq_flatMap (es : List Expr) : literalsAll es = es.flatMap literals := by
  induction es with
  | nil => rfl
  | cons e es ih => rw [literalsAll, List.flatMap_cons, ih]

theorem mem_literalsAll {e : Expr} {es : List Expr} (he : e ∈ es) {v : Value} (hv : v ∈ e.literals) :
    v ∈ literalsAll es := by
  rw [literalsAll_eq_flatMap]
  exact List.mem_flatMap.mpr ⟨e, he, hv⟩

theorem forall_literalsAll {P : Value → Prop} {es : List Expr} (h : ∀ e ∈ es, ∀ v ∈ e.literals, P v) :
    ∀ v ∈ literalsAll es, P v := by
  intro v hv
  rw [literalsAll_eq_flatMap] at hv
  obtain ⟨e, he, hv⟩ := List.mem_flatMap.mp hv
  exact h e he v hv

end Expr

namespace Stmt

mutual
/-- The literals of a statement, those of its blocks, headers and function bodies among them. -/
def literals : Stmt → List Value
  | varDecl _ _ init => init.elim [] Expr.literals
  | assign _ value => value.literals
  | print e => e.literals
  | ifThen cond body => cond.literals ++ literalsAll body
  | ifElse cond yes no => cond.literals ++ (literalsAll yes ++ literalsAll no)
  | whileLoop cond body => cond.literals ++ literalsAll body
  | forLoop init cond step body => literals init ++ (cond.literals ++ (literals step ++ literalsAll body))
  | function _ _ _ body => literalsAll body
  | ret value => value.elim [] Expr.literals
  | expr e => e.literals
  | block body => literalsAll body
  | misnamed _ init _ => init.elim [] fun d => d.2.literals
  | _ => []

def literalsAll : List Stmt → List Value
  | [] => []
  | s :: ss => literals s ++ literalsAll ss
end

theorem literalsAll_eq_flatMap (ss : List Stmt) : literalsAll ss = ss.flatMap literals := by
  induction ss with
  | nil => rfl
  | cons s ss ih => rw [literalsAll, List.flatMap_cons, ih]

theorem mem_literalsAll {s : Stmt} {ss : List Stmt} (hs : s ∈ ss) {v : Value} (hv : v ∈ s.literals) :
    v ∈ literalsAll ss := by
  rw [literalsAll_eq_flatMap]
  exact List.mem_flatMap.mpr ⟨s, hs, hv⟩

theorem forall_literalsAll {P : Value → Prop} {ss : List Stmt} (h : ∀ s ∈ ss, ∀ v ∈ s.literals, P v) :
    ∀ v ∈ literalsAll ss, P v := by
  intro v hv
  rw [literalsAll_eq_flatMap] at hv
  obtain ⟨s, hs, hv⟩ := List.mem_flatMap.mp hv
  exact h s hs v hv

end Stmt

namespace Program

def literals (p : Program) : List Value := Stmt.literalsAll p.body

theorem literals_functions {p : Program} {f : Function} (hf : f ∈ p.functions) {v : Value}
    (hv : v ∈ Stmt.literalsAll f.body) : v ∈ p.literals := by
  obtain ⟨s, hs, hsf⟩ := List.mem_filterMap.mp hf
  refine Stmt.mem_literalsAll hs ?_
  cases s with
  | function name params result body =>
    cases hsf
    exact hv
  | _ => cases hsf

theorem literals_actions {p : Program} {v : Value} (hv : v ∈ Stmt.literalsAll p.actions) : v ∈ p.literals :=
  Stmt.forall_literalsAll (fun _ hs _ hv => Stmt.mem_literalsAll (List.mem_filter.mp hs).1 hv) v hv

end Program
end TypedImp
