import TypedImp.Proofs.Typing.Rules
import TypedImp.Typing.Arena

/-! What the names at one place of a program stand for. A context is never changed, only handed on: a declaration
    extends the context of the statements behind it in its block, and what a block declares is gone behind it. -/

namespace TypedImp
namespace Typing

/-- The scopes around a place: those of the blocks that it lies in, the innermost first, and that of the top level. -/
structure Context where
  inner : List (Assoc Symbol)
  top : Assoc Symbol

namespace Context

/-- The scope of the innermost block. -/
def current (Γ : Context) : Assoc Symbol := Γ.inner.headD Γ.top

/-- What a name stands for: the innermost scope that declares it decides. -/
def lookup? (Γ : Context) (x : String) : Option Symbol := (Γ.inner.findSome? fun scope => scope.get? x).or (Γ.top.get? x)

/-- The name is not yet declared in the scope of the innermost block. -/
def Fresh (Γ : Context) (x : String) : Prop := Γ.current.get? x = none

/-- A declaration in the innermost block. -/
def declare (Γ : Context) (x : String) (symbol : Symbol) : Context :=
  match Γ.inner with
  | [] => { Γ with top := Γ.top.insert x symbol }
  | scope :: outer => { Γ with inner := scope.insert x symbol :: outer }

/-- Where a block begins. -/
def block (Γ : Context) : Context := { Γ with inner := [] :: Γ.inner }

/-- Behind a statement the variable that it declares is visible. A function is visible everywhere. -/
def after (Γ : Context) : Stmt → Context
  | .varDecl x t _ => Γ.declare x (.variable t)
  | _ => Γ

/-- Declarations one behind the other in the innermost block. -/
def declareAll (Γ : Context) (ds : List (String × Symbol)) : Context := ds.foldl (fun Γ d => Γ.declare d.1 d.2) Γ

/-- Where the body of a function begins: the parameters belong to its block. -/
def body (Γ : Context) (params : List Param) : Context :=
  Γ.block.declareAll (params.map fun p => (p.name, .variable p.ty))

/-- Behind statements what they declare in their block is visible. -/
def afterAll (Γ : Context) (ss : List Stmt) : Context := ss.foldl after Γ

/-- What the names stand for, as the rules for expressions ask for it; the body of a function is of no account. -/
def names (Γ : Context) : Names where
  type? x :=
    match Γ.lookup? x with
    | some ⟨t, none⟩ => some t
    | _ => none
  function? x :=
    match Γ.lookup? x with
    | some ⟨t, some params⟩ => some ⟨x, params, t, []⟩
    | _ => none

variable {Γ : Context} {x y : String} {symbol : Symbol}

/-! ### Names -/

theorem lookup?_cons (top symbols : Assoc Symbol) (outer : List (Assoc Symbol)) (x : String) :
    (Context.mk (symbols :: outer) top).lookup? x = (symbols.get? x).or ((Context.mk outer top).lookup? x) := by
  unfold lookup?
  rw [List.findSome?_cons]
  cases symbols.get? x <;> rfl

theorem lookup?_declare_self : (Γ.declare x symbol).lookup? x = some symbol := by
  obtain ⟨inner, top⟩ := Γ
  cases inner with
  | nil => exact Assoc.get?_insert_self top x symbol
  | cons scope outer =>
    show Context.lookup? ⟨scope.insert x symbol :: outer, top⟩ x = _
    rw [lookup?_cons, Assoc.get?_insert_self]
    rfl

theorem lookup?_declare_of_ne (h : y ≠ x) : (Γ.declare x symbol).lookup? y = Γ.lookup? y := by
  obtain ⟨inner, top⟩ := Γ
  cases inner with
  | nil => exact Assoc.get?_insert_of_ne top symbol h
  | cons scope outer =>
    show Context.lookup? ⟨scope.insert x symbol :: outer, top⟩ y = _
    rw [lookup?_cons, lookup?_cons, Assoc.get?_insert_of_ne _ _ h]

theorem lookup?_block : Γ.block.lookup? x = Γ.lookup? x := lookup?_cons Γ.top [] Γ.inner x

theorem fresh_block : Γ.block.Fresh x := rfl

/-- What is declared is fresh no more. -/
theorem fresh_declare : (Γ.declare x symbol).Fresh y ↔ y ≠ x ∧ Γ.Fresh y := by
  have hcurrent : (Γ.declare x symbol).current = Assoc.insert Γ.current x symbol := by
    obtain ⟨inner, top⟩ := Γ
    cases inner <;> rfl
  unfold Fresh
  rw [hcurrent]
  by_cases hyx : y = x
  · subst hyx
    rw [Assoc.get?_insert_self]
    simp
  · rw [Assoc.get?_insert_of_ne _ _ hyx]
    simp [hyx]

/-- The names are different, and none of them is declared in the innermost block. -/
def AllFresh (Γ : Context) (xs : List String) : Prop := xs.Nodup ∧ ∀ x ∈ xs, Γ.Fresh x

theorem allFresh_cons {xs : List String} :
    Γ.AllFresh (x :: xs) ↔ Γ.Fresh x ∧ (Γ.declare x symbol).AllFresh xs := by
  unfold AllFresh
  rw [List.nodup_cons, List.forall_mem_cons]
  constructor
  · rintro ⟨⟨hx, hnodup⟩, hfresh, hall⟩
    exact ⟨hfresh, hnodup, fun y hy => fresh_declare.mpr ⟨fun hyx => hx (hyx ▸ hy), hall y hy⟩⟩
  · rintro ⟨hfresh, hnodup, hall⟩
    exact ⟨⟨fun hx => (fresh_declare.mp (hall x hx)).1 rfl, hnodup⟩, hfresh, fun y hy => (fresh_declare.mp (hall y hy)).2⟩

theorem lookup?_of_type {t : Ty} (h : Γ.names.type? x = some t) : Γ.lookup? x = some (.variable t) := by
  simp only [names] at h
  split at h
  · next hx =>
    cases h
    exact hx
  · cases h

/-! ### Blocks -/

theorem inner_after_ne_nil (h : Γ.inner ≠ []) (s : Stmt) : (Γ.after s).inner ≠ [] := by
  cases s with
  | varDecl x t init =>
    obtain ⟨inner, top⟩ := Γ
    cases inner with
    | nil => exact absurd rfl h
    | cons scope outer => exact List.cons_ne_nil _ _
  | _ => exact h

theorem inner_declare_nil (h : Γ.inner = []) : (Γ.declare x symbol).inner = [] := by
  obtain ⟨inner, top⟩ := Γ
  cases h
  rfl

theorem inner_declareAll_nil (h : Γ.inner = []) (ds : List (String × Symbol)) : (Γ.declareAll ds).inner = [] := by
  induction ds generalizing Γ with
  | nil => exact h
  | cons d ds ih => exact ih (inner_declare_nil h)

theorem inner_after_nil (h : Γ.inner = []) (s : Stmt) : (Γ.after s).inner = [] := by
  cases s with
  | varDecl x t init => exact inner_declare_nil h
  | _ => exact h

/-- The context of a place in a block whose beginning has the context `Γ.block`. -/
def Within (Γ' Γ : Context) : Prop := ∃ scope, Γ' = { Γ with inner := scope :: Γ.inner }

theorem within_block (Γ : Context) : Γ.block.Within Γ := ⟨[], rfl⟩

theorem Within.inner_ne_nil {Γ' Γ : Context} (h : Γ'.Within Γ) : Γ'.inner ≠ [] := by
  obtain ⟨scope, rfl⟩ := h
  exact List.cons_ne_nil _ _

theorem Within.declare {Γ' Γ : Context} (h : Γ'.Within Γ) (x : String) (symbol : Symbol) :
    (Γ'.declare x symbol).Within Γ := by
  obtain ⟨scope, rfl⟩ := h
  exact ⟨scope.insert x symbol, rfl⟩

theorem Within.after {Γ' Γ : Context} (h : Γ'.Within Γ) (s : Stmt) : (Γ'.after s).Within Γ := by
  cases s with
  | varDecl x t init => exact h.declare x _
  | _ => exact h

theorem Within.declareAll {Γ' Γ : Context} (h : Γ'.Within Γ) (ds : List (String × Symbol)) :
    (Γ'.declareAll ds).Within Γ := by
  induction ds generalizing Γ' with
  | nil => exact h
  | cons d ds ih => exact ih (h.declare d.1 d.2)

theorem Within.afterAll {Γ' Γ : Context} (h : Γ'.Within Γ) (ss : List Stmt) : (Γ'.afterAll ss).Within Γ := by
  induction ss generalizing Γ' with
  | nil => exact h
  | cons s ss ih => exact ih (h.after s)

end Context
end Typing
end TypedImp
