import TypedImp.Typing.Check

/-! Properties of checks that a sequence of checks has where its parts do. The checks of expressions are sequences of
    refusals and of looking names up; so all of them have such a property if looking a name up has it. -/

namespace TypedImp
namespace Typing
namespace Checker

/-- A property that a sequence of checks has where its parts do, and that looking a name up has. -/
structure Composes (P : ∀ {α : Type}, Checker α → Prop) : Prop where
  pure {α : Type} (x : α) : P (Pure.pure x : Checker α)
  throw {α : Type} (e : Error) : P (MonadExcept.throw e : Checker α)
  bind {α β : Type} {c : Checker α} {k : α → Checker β} : P c → (∀ x, P (k x)) → P (c >>= k)
  resolve (x : String) : P (resolve x)

namespace Composes
variable {α : Type} {P : ∀ {α : Type}, Checker α → Prop} (h : Composes P)
include h

theorem discard {c : Checker α} (hc : P c) : P (Functor.discard c) := h.bind hc fun _ => h.pure _

omit h in
theorem ite {p : Prop} [Decidable p] {c c' : Checker α} (hc : P c) (hc' : P c') : P (if p then c else c') := by
  split
  · exact hc
  · exact hc'

/-- A fault unless something else holds. -/
theorem refusal {p : Prop} [Decidable p] (e : Error) {c : Checker α} (hc : P c) :
    P (if p then (MonadExcept.throw e : Checker Unit) >>= fun _ => c else c) :=
  ite (h.bind (h.throw e) fun _ => hc) hc

theorem ofExcept (r : Except Error α) : P (MonadExcept.ofExcept r : Checker α) := by
  cases r with
  | ok x => exact h.pure x
  | error e => exact h.throw e

theorem asValue (t : Ty) : P (asValue t) := ite (h.throw _) (h.pure _)

theorem resolveVariable (x : String) : P (resolveVariable x) :=
  h.bind (h.resolve x) fun _ => ite (h.throw _) (h.pure _)

mutual
theorem typeOf : (e : Expr) → P (typeOf e)
  | .literal v => by
    rw [Checker.typeOf]
    exact h.pure _
  | .var x => by
    rw [Checker.typeOf]
    exact h.resolveVariable x
  | .unary op e => by
    rw [Checker.typeOf]
    exact h.bind (typeOf e) fun _ => h.bind (h.asValue _) fun _ => h.ofExcept _
  | .binary l op r => by
    rw [Checker.typeOf]
    refine h.bind (typeOf l) fun _ => h.bind (h.asValue _) fun _ => ?_
    exact h.bind (typeOf r) fun _ => h.bind (h.asValue _) fun _ => h.ofExcept _
  | .call x args => by
    rw [Checker.typeOf]
    refine h.bind (h.resolve x) fun symbol => ?_
    split
    · exact h.throw _
    · next params _ => exact h.refusal _ (h.bind (checkArguments args x 1 params) fun _ => h.pure _)
  | .stray node => by
    rw [Checker.typeOf]
    exact h.throw _
  | .misnamed name node => by
    rw [Checker.typeOf]
    exact h.throw _

theorem checkArguments : (es : List Expr) → ∀ (x : String) (index : Nat) (ps : List Param),
    P (checkArguments x index ps es)
  | [], x, index, ps => by
    rw [Checker.checkArguments.eq_def]
    split
    · next heq => cases heq
    · exact h.pure _
  | e :: es, x, index, [] => by
    rw [Checker.checkArguments.eq_def]
    exact h.pure _
  | e :: es, x, index, p :: ps => by
    rw [Checker.checkArguments]
    refine h.bind (typeOf e) fun _ => h.bind (h.asValue _) fun t => ?_
    exact h.refusal _ (checkArguments es x (index + 1) ps)
end

theorem valueType (e : Expr) : P (valueType e) := h.bind (h.typeOf e) fun _ => h.asValue _

theorem checkCondition (construct : Construct) (e : Expr) : P (checkCondition construct e) :=
  h.bind (h.valueType e) fun _ => ite (h.throw _) (h.pure _)

theorem checkInitializer (x : String) (t : Ty) (e : Expr) : P (checkInitializer x t e) :=
  h.bind (h.valueType e) fun _ => ite (h.throw _) (h.pure _)

theorem checkAssignment (x : String) (e : Expr) : P (checkAssignment x e) :=
  h.bind (h.resolveVariable x) fun _ => h.bind (h.valueType e) fun _ => ite (h.throw _) (h.pure _)

end Composes
end Checker
end Typing
end TypedImp
