import TypedImp.Proofs.State
import TypedImp.Proofs.Syntax.Written
import TypedImp.Proofs.Typing.Rules
import TypedImp.Typing.Check

/-! What the checker accepts keeps the typing rules. The checker finds what a name stands for by its scopes,
    the rules by the name alone. As long as every symbol in the scopes says what the name stands for in the
    whole program, the two agree; every declaration adds such a symbol, and no other step changes one. -/

namespace TypedImp
namespace Typing
variable {Γ : Names}

/-! ### Symbols -/

/-- The symbol says what its name stands for. -/
def Symbol.Agrees (Γ : Names) (x : String) (symbol : Symbol) : Prop :=
  match symbol.params with
  | none => Γ.type? x = some symbol.ty ∧ symbol.ty ≠ .void
  | some params => ∃ f, Γ.function? x = some f ∧ f.params = params ∧ f.result = symbol.ty

/-- Every symbol in the scopes says what its name stands for. -/
def Arena.Agrees (Γ : Names) (a : Arena) : Prop :=
  ∀ scope ∈ a.scopes, ∀ x symbol, scope.symbols.get? x = some symbol → symbol.Agrees Γ x

theorem Arena.Agrees.search {scopes : List Scope}
    (h : ∀ scope ∈ scopes, ∀ x symbol, scope.symbols.get? x = some symbol → symbol.Agrees Γ x) {n i : Nat}
    {x : String} {symbol : Symbol} (hx : search scopes n i x = some symbol) : symbol.Agrees Γ x := by
  induction n generalizing i with
  | zero => cases hx
  | succ n ih =>
    unfold Arena.search at hx
    split at hx
    · cases hx
    · next scope hscope =>
      split at hx
      · next symbol' hget =>
        cases hx
        exact h scope (List.mem_of_getElem? hscope) x _ hget
      · exact ih hx
      · cases hx

/-- Whatever a name is found to stand for, it stands for in the program. -/
def Arena.Shows (Γ : Names) (a : Arena) : Prop := ∀ x symbol, a.resolve? x = some symbol → symbol.Agrees Γ x

theorem Arena.Agrees.shows {a : Arena} (h : a.Agrees Γ) : a.Shows Γ := fun _ _ hx => search h hx

theorem Arena.Shows.resolve {a a' : Arena} (h : a.Shows Γ) {x : String} {symbol : Symbol}
    (hx : Checker.resolve x a = .ok symbol a') : a = a' ∧ symbol.Agrees Γ x := by
  obtain ⟨b, a₁, hget, hx⟩ := State.bind_eq_ok hx
  cases hget
  cases hresolve : a.resolve? x with
  | none =>
    rw [hresolve] at hx
    cases hx
  | some symbol' =>
    rw [hresolve] at hx
    cases hx
    exact ⟨rfl, h x _ hresolve⟩

theorem Arena.Shows.resolveVariable {a a' : Arena} (h : a.Shows Γ) {x : String} {t : Ty}
    (hx : Checker.resolveVariable x a = .ok t a') : a = a' ∧ Γ.type? x = some t ∧ t ≠ .void := by
  obtain ⟨symbol, a₁, hresolve, hx⟩ := State.bind_eq_ok hx
  obtain ⟨rfl, hsymbol⟩ := h.resolve hresolve
  split at hx
  · cases hx
  · next hparams =>
    cases hx
    rw [Option.not_isSome_iff_eq_none] at hparams
    unfold Symbol.Agrees at hsymbol
    rw [hparams] at hsymbol
    exact ⟨rfl, hsymbol⟩

/-! ### Expressions -/

namespace Checker

theorem ofExcept_eq_ok {α : Type} {r : Except Error α} {x : α} {a a' : Arena}
    (h : (MonadExcept.ofExcept r : Checker α) a = .ok x a') : r = .ok x ∧ a = a' := by
  cases r with
  | ok y =>
    cases h
    exact ⟨rfl, rfl⟩
  | error e => cases h

theorem asValue_eq_ok {t t' : Ty} {a a' : Arena} (h : asValue t a = .ok t' a') : t = t' ∧ a = a' ∧ t ≠ .void := by
  unfold asValue at h
  split at h
  · cases h
  · next hne =>
    cases h
    exact ⟨rfl, rfl, hne⟩

theorem unaryType_eq_ok {op : UnaryOp} {s t : Ty} (h : unaryType op s = .ok t) : s = t ∧ t.isNumeric = true := by
  unfold unaryType at h
  split at h
  · next hnumeric =>
    cases h
    exact ⟨rfl, hnumeric⟩
  · cases h

/-- The type of a binary expression is one that the rules give. -/
theorem binary_hasType {op : BinaryOp} {l r : Expr} {s t u : Ty} (hl : HasType Γ l s) (hs : s ≠ .void)
    (hr : HasType Γ r t) (h : binaryType op s t = .ok u) : HasType Γ (.binary l op r) u := by
  unfold binaryType at h
  split at h
  · next hfamily =>
    split at h
    · next hbool =>
      simp only [Bool.and_eq_true, decide_eq_true_eq] at hbool
      obtain ⟨rfl, rfl⟩ := hbool
      cases h
      exact .logical hfamily hl hr
    · cases h
  · next family hlogical =>
    split at h
    · cases h
    · next haccepts =>
      rw [Bool.not_eq_true, Bool.not_eq_false'] at haccepts
      split at h
      · next hfamily =>
        cases h
        exact .equality hfamily hl hr hs haccepts
      · next hfamily =>
        split at h
        · next hnumeric =>
          cases h
          exact .relational hfamily hl hr hnumeric haccepts
        · cases h
      · next hfamily =>
        split at h
        · next hoperands =>
          cases h
          rw [Bool.or_eq_true] at hoperands
          rcases hoperands with hnumeric | hconcat
          · exact .arithmetic hfamily hl hr hnumeric haccepts
          · simp only [Bool.and_eq_true, decide_eq_true_eq] at hconcat
            obtain ⟨rfl, rfl⟩ := hconcat
            rw [Ty.eq_of_accepts haccepts (by decide)] at hr
            exact .concat hl hr
        · cases h
      · cases h

mutual
theorem typeOf_sound {e : Expr} {t : Ty} {a a' : Arena} (ha : a.Shows Γ) (he : e.Written)
    (h : typeOf e a = .ok t a') : a = a' ∧ HasType Γ e t := by
  cases e with
  | literal v =>
    unfold typeOf at h
    cases h
    cases he with
    | literal hv => exact ⟨rfl, .literal (hv.ty_eq ▸ hv)⟩
  | var x =>
    unfold typeOf at h
    obtain ⟨rfl, hx, hne⟩ := ha.resolveVariable h
    exact ⟨rfl, .var hx hne⟩
  | unary op e =>
    unfold typeOf at h
    cases he with
    | unary hop he =>
      obtain ⟨s, a₁, htype, h⟩ := State.bind_eq_ok h
      obtain ⟨rfl, hs⟩ := typeOf_sound ha he htype
      obtain ⟨s', a₂, hvalue, h⟩ := State.bind_eq_ok h
      obtain ⟨rfl, rfl, -⟩ := asValue_eq_ok hvalue
      obtain ⟨hunary, rfl⟩ := ofExcept_eq_ok h
      obtain ⟨rfl, hnumeric⟩ := unaryType_eq_ok hunary
      exact ⟨rfl, .unary hop hs hnumeric⟩
  | binary l op r =>
    unfold typeOf at h
    cases he with
    | binary hl hr =>
      obtain ⟨s, a₁, htype, h⟩ := State.bind_eq_ok h
      obtain ⟨rfl, hs⟩ := typeOf_sound ha hl htype
      obtain ⟨s', a₂, hvalue, h⟩ := State.bind_eq_ok h
      obtain ⟨rfl, rfl, hne⟩ := asValue_eq_ok hvalue
      obtain ⟨u, a₃, htype, h⟩ := State.bind_eq_ok h
      obtain ⟨rfl, hu⟩ := typeOf_sound ha hr htype
      obtain ⟨u', a₄, hvalue, h⟩ := State.bind_eq_ok h
      obtain ⟨rfl, rfl, -⟩ := asValue_eq_ok hvalue
      obtain ⟨hbinary, rfl⟩ := ofExcept_eq_ok h
      exact ⟨rfl, binary_hasType hs hne hu hbinary⟩
  | call x args =>
    unfold typeOf at h
    cases he with
    | call hargs =>
      obtain ⟨symbol, a₁, hresolve, h⟩ := State.bind_eq_ok h
      obtain ⟨rfl, hsymbol⟩ := ha.resolve hresolve
      unfold Symbol.Agrees at hsymbol
      cases hparams : symbol.params with
      | none =>
        rw [hparams] at h
        cases h
      | some params =>
        rw [hparams] at h hsymbol
        obtain ⟨f, hf, rfl, hresult⟩ := hsymbol
        dsimp only at h
        split at h
        · cases h
        · next harity =>
          obtain ⟨u, a₂, hcheck, h⟩ := State.bind_eq_ok h
          cases h
          obtain ⟨rfl, hfit⟩ := checkArguments_sound ha hargs (Decidable.of_not_not harity) hcheck
          exact ⟨rfl, hresult ▸ .call hf hfit⟩
  | stray node =>
    unfold typeOf at h
    cases h
  | misnamed name node =>
    unfold typeOf at h
    cases h

theorem checkArguments_sound {name : String} {index : Nat} {params : List Param} {args : List Expr}
    {u : Unit} {a a' : Arena} (ha : a.Shows Γ) (hargs : ∀ e ∈ args, e.Written)
    (hlength : args.length = params.length) (h : checkArguments name index params args a = .ok u a') :
    a = a' ∧ ArgumentsFit Γ params args := by
  match args, params with
  | [], [] =>
    unfold checkArguments at h
    cases h
    exact ⟨rfl, .nil⟩
  | e :: args, p :: params =>
    unfold checkArguments at h
    rw [List.forall_mem_cons] at hargs
    obtain ⟨s, a₁, htype, h⟩ := State.bind_eq_ok h
    obtain ⟨rfl, hs⟩ := typeOf_sound ha hargs.1 htype
    obtain ⟨s', a₂, hvalue, h⟩ := State.bind_eq_ok h
    obtain ⟨rfl, rfl, hne⟩ := asValue_eq_ok hvalue
    split at h
    · cases h
    · next haccepts =>
      rw [Bool.not_eq_true, Bool.not_eq_false'] at haccepts
      obtain ⟨rfl, hfit⟩ := checkArguments_sound ha hargs.2 (Nat.succ.inj hlength) h
      exact ⟨rfl, .cons hs hne haccepts hfit⟩
end

theorem valueType_sound {e : Expr} {t : Ty} {a a' : Arena} (ha : a.Shows Γ) (he : e.Written)
    (h : valueType e a = .ok t a') : a = a' ∧ HasType Γ e t ∧ t ≠ .void := by
  obtain ⟨s, a₁, htype, h⟩ := State.bind_eq_ok h
  obtain ⟨rfl, hs⟩ := typeOf_sound ha he htype
  obtain ⟨rfl, rfl, hne⟩ := asValue_eq_ok h
  exact ⟨rfl, hs, hne⟩

end Checker

/-! ### Scopes -/

namespace Arena

/-- The scopes stand where they stood, and the current one is the same. -/
structure Kept (a b : Arena) : Prop where
  parents : b.scopes.map Scope.parent = a.scopes.map Scope.parent
  current : b.current = a.current
  result : b.result = a.result

theorem Kept.refl (a : Arena) : a.Kept a := ⟨rfl, rfl, rfl⟩

theorem Kept.trans {a b c : Arena} (h₁ : a.Kept b) (h₂ : b.Kept c) : a.Kept c :=
  ⟨h₂.parents.trans h₁.parents, h₂.current.trans h₁.current, h₂.result.trans h₁.result⟩

theorem parent_scope (a : Arena) : a.scope.parent = ((a.scopes.map Scope.parent)[a.current]?).getD none := by
  rw [scope, List.getD_eq_getElem?_getD, List.getElem?_map]
  cases a.scopes[a.current]? with
  | none => rfl
  | some scope => rfl

theorem Kept.parent_scope {a b : Arena} (h : a.Kept b) : b.scope.parent = a.scope.parent := by
  rw [Arena.parent_scope, Arena.parent_scope, h.parents, h.current]

/-- The current scope is not the outermost one of the program. -/
def IsInner (a : Arena) : Prop := a.result.isSome = true ∨ a.scope.parent.isSome = true

theorem Kept.isInner {a b : Arena} (h : a.Kept b) (ha : a.IsInner) : b.IsInner := by
  unfold IsInner
  rwa [h.result, h.parent_scope]

theorem kept_record (a : Arena) (e : Event) : a.Kept (a.record e) := ⟨rfl, rfl, rfl⟩

theorem kept_add (a : Arena) (x : String) (symbol : Symbol) : a.Kept (a.add x symbol) := by
  refine ⟨?_, rfl, rfl⟩
  show (a.scopes.set a.current _).map Scope.parent = a.scopes.map Scope.parent
  rw [List.map_set]
  refine List.ext_getElem? fun i => ?_
  rw [List.getElem?_set]
  split
  · next hi =>
    subst hi
    rw [List.length_map, List.getElem?_map, scope, List.getD_eq_getElem?_getD]
    cases hscope : a.scopes[a.current]? with
    | none =>
      rw [if_neg (Nat.not_lt.mpr (List.getElem?_eq_none_iff.mp hscope))]
      rfl
    | some scope =>
      rw [if_pos (List.getElem?_eq_some_iff.mp hscope).1]
      rfl
  · rfl

theorem Agrees.add {a : Arena} (ha : a.Agrees Γ) {x : String} {symbol : Symbol} (hx : symbol.Agrees Γ x) :
    (a.add x symbol).Agrees Γ := by
  intro scope hscope y symbol' hy
  rcases List.mem_or_eq_of_mem_set hscope with hscope | rfl
  · exact ha scope hscope y symbol' hy
  · by_cases hyx : y = x
    · subst hyx
      rw [Assoc.get?_insert_self] at hy
      cases hy
      exact hx
    · rw [Assoc.get?_insert_of_ne _ _ hyx, Arena.scope, List.getD_eq_getElem?_getD] at hy
      cases hcurrent : a.scopes[a.current]? with
      | none =>
        rw [hcurrent] at hy
        cases hy
      | some scope =>
        rw [hcurrent] at hy
        exact ha scope (List.mem_of_getElem? hcurrent) y symbol' hy

/-- The arena with a scope more, which is the current one. -/
def enter (a : Arena) : Arena :=
  { a with
    scopes := a.scopes ++ [⟨some a.current, []⟩]
    current := a.scopes.length
    events := .enterScope a.scopes.length a.current :: a.events }

theorem parent_scope_of_kept_enter {a b : Arena} (h : a.enter.Kept b) : b.scope.parent = some a.current := by
  rw [h.parent_scope, parent_scope]
  show (((a.scopes ++ [(⟨some a.current, []⟩ : Scope)]).map Scope.parent)[a.scopes.length]?).getD none = some a.current
  rw [List.getElem?_map, List.getElem?_concat_length]
  rfl

theorem isInner_enter (a : Arena) : a.enter.IsInner := by
  refine .inr ?_
  rw [parent_scope_of_kept_enter (Kept.refl _)]
  rfl

theorem Agrees.enter {a : Arena} (ha : a.Agrees Γ) : a.enter.Agrees Γ := by
  intro scope hscope x symbol hx
  rcases List.mem_append.mp hscope with hscope | hscope
  · exact ha scope hscope x symbol hx
  · rw [List.mem_singleton.mp hscope] at hx
    cases hx

end Arena

namespace Checker
open Arena

theorem declare_eq_ok {x : String} {symbol : Symbol} {u : Unit} {a a' : Arena}
    (h : declare x symbol a = .ok u a') : a.scope.symbols.has x = false ∧ a.add x symbol = a' := by
  obtain ⟨b, a₁, hget, h⟩ := State.bind_eq_ok h
  cases hget
  split at h
  · split at h
    · cases h
    · cases h
  · next hnew =>
    cases h
    exact ⟨Bool.eq_false_iff.mpr hnew, rfl⟩

theorem declare_sound {x : String} {symbol : Symbol} {u : Unit} {a a' : Arena} (ha : a.Agrees Γ)
    (hx : symbol.Agrees Γ x) (h : declare x symbol a = .ok u a') : a.Kept a' ∧ a'.Agrees Γ := by
  obtain ⟨-, rfl⟩ := declare_eq_ok h
  exact ⟨kept_add a x symbol, ha.add hx⟩

/-- What is checked in a scope of its own leaves the scopes outside as they were. -/
theorem inScope_sound {check : Checker Unit} {u : Unit} {a a' : Arena} {P : Prop}
    (hcheck : ∀ b, check a.enter = .ok () b → a.enter.Kept b ∧ b.Agrees Γ ∧ P)
    (h : inScope check a = .ok u a') : a.Kept a' ∧ a'.Agrees Γ ∧ P := by
  obtain ⟨u₁, a₁, henter, h⟩ := State.bind_eq_ok h
  have henter' : enterScope a = .ok () a.enter := rfl
  rw [henter'] at henter
  cases henter
  obtain ⟨u₂, b, hb, h⟩ := State.bind_eq_ok h
  obtain ⟨hkept, hagrees, hP⟩ := hcheck b hb
  obtain ⟨b', b₁, hget, h⟩ := State.bind_eq_ok h
  cases hget
  rw [parent_scope_of_kept_enter hkept] at h
  cases h
  refine ⟨⟨?_, rfl, hkept.result⟩, fun scope hscope => hagrees scope (List.dropLast_subset _ hscope), hP⟩
  show b.scopes.dropLast.map Scope.parent = a.scopes.map Scope.parent
  rw [List.map_dropLast, hkept.parents]
  show ((a.scopes ++ [_]).map Scope.parent).dropLast = _
  rw [List.map_append, List.map_singleton, List.dropLast_concat]

/-! ### Statements -/

/-- The names that declarations give stand for what the declarations say. -/
def Declares (Γ : Names) (D : List (String × Ty)) : Prop := ∀ d ∈ D, Γ.type? d.1 = some d.2

theorem fits_of_value {e : Expr} {s t : Ty} (hs : HasType Γ e s ∧ s ≠ .void) (h : ¬ (!t.accepts s) = true) :
    Fits Γ e t := by
  rw [Bool.not_eq_true, Bool.not_eq_false'] at h
  exact ⟨s, hs.1, hs.2, h⟩

theorem checkCondition_sound {construct : Construct} {e : Expr} {u : Unit} {a a' : Arena} (ha : a.Shows Γ)
    (he : e.Written) (h : checkCondition construct e a = .ok u a') : a = a' ∧ HasType Γ e .bool := by
  obtain ⟨t, a₁, hvalue, h⟩ := State.bind_eq_ok h
  obtain ⟨rfl, ht, -⟩ := valueType_sound ha he hvalue
  split at h
  · cases h
  · next hbool =>
    cases h
    rw [Decidable.of_not_not hbool] at ht
    exact ⟨rfl, ht⟩

theorem checkInitializer_sound {x : String} {t : Ty} {e : Expr} {u : Unit} {a a' : Arena} (ha : a.Shows Γ)
    (he : e.Written) (h : checkInitializer x t e a = .ok u a') : a = a' ∧ Fits Γ e t := by
  obtain ⟨s, a₁, hvalue, h⟩ := State.bind_eq_ok h
  obtain ⟨rfl, hs⟩ := valueType_sound ha he hvalue
  split at h
  · cases h
  · next haccepts =>
    cases h
    exact ⟨rfl, fits_of_value hs haccepts⟩

theorem checkVarDecl_sound {x : String} {t : Ty} {init : Option Expr} {u : Unit} {a a' : Arena}
    (ha : a.Agrees Γ) (hx : Γ.type? x = some t) (ht : t ≠ .void) (hinit : ∀ e ∈ init, e.Written)
    (h : checkVarDecl x t init a = .ok u a') : a.Kept a' ∧ a'.Agrees Γ ∧ ∀ e ∈ init, Fits Γ e t := by
  have hsymbol : (Symbol.variable t).Agrees Γ x := ⟨hx, ht⟩
  have hrest : ∀ {u : Unit} {a a' : Arena}, a.Agrees Γ →
      (declare x (.variable t) >>= fun _ => record (.declareVariable x t)) a = .ok u a' →
      a.Kept a' ∧ a'.Agrees Γ := by
    intro u a a' ha h
    obtain ⟨u₁, a₁, hdeclare, h⟩ := State.bind_eq_ok h
    obtain ⟨hkept, hagrees⟩ := declare_sound ha hsymbol hdeclare
    cases h
    exact ⟨hkept.trans (kept_record _ _), hagrees⟩
  cases init with
  | none =>
    obtain ⟨hkept, hagrees⟩ := hrest ha h
    exact ⟨hkept, hagrees, by simp⟩
  | some e =>
    obtain ⟨u₁, a₁, he, h⟩ := State.bind_eq_ok h
    obtain ⟨rfl, hfits⟩ := checkInitializer_sound ha.shows (hinit e rfl) he
    obtain ⟨hkept, hagrees⟩ := hrest ha h
    exact ⟨hkept, hagrees, by simpa using hfits⟩

theorem checkAssignment_sound {x : String} {e : Expr} {u : Unit} {a a' : Arena} (ha : a.Shows Γ)
    (he : e.Written) (h : checkAssignment x e a = .ok u a') :
    a = a' ∧ ∃ t, Γ.type? x = some t ∧ Fits Γ e t := by
  obtain ⟨t, a₁, hresolve, h⟩ := State.bind_eq_ok h
  obtain ⟨rfl, hx, -⟩ := ha.resolveVariable hresolve
  obtain ⟨s, a₁, hvalue, h⟩ := State.bind_eq_ok h
  obtain ⟨rfl, hs⟩ := valueType_sound ha he hvalue
  split at h
  · cases h
  · next haccepts =>
    cases h
    exact ⟨rfl, t, hx, fits_of_value hs haccepts⟩

theorem checkReturn_sound {value : Option Expr} {u : Unit} {a a' : Arena} (ha : a.Shows Γ)
    (hvalue : ∀ e ∈ value, e.Written) (h : checkReturn value a = .ok u a') :
    a = a' ∧ Keeps Γ a.result (.ret value) := by
  obtain ⟨b, a₁, hget, h⟩ := State.bind_eq_ok h
  cases hget
  cases hresult : a.result with
  | none =>
    rw [hresult] at h
    cases h
  | some t =>
    rw [hresult] at h
    cases value with
    | none =>
      dsimp only at h
      split at h
      · cases h
      · next hvoid =>
        cases h
        exact ⟨rfl, .retNone (by rw [Decidable.of_not_not hvoid])⟩
    | some e =>
      dsimp only at h
      split at h
      · cases h
      · next hvoid =>
        obtain ⟨s, a₁, htype, h⟩ := State.bind_eq_ok h
        obtain ⟨rfl, hs⟩ := valueType_sound ha (hvalue e rfl) htype
        split at h
        · cases h
        · next haccepts =>
          cases h
          exact ⟨rfl, .retSome rfl hvoid (fits_of_value hs haccepts)⟩

theorem declareParameters_sound {x : String} {params : List Param} {u : Unit} {a a' : Arena} (ha : a.Agrees Γ)
    (hparams : ∀ p ∈ params, Γ.type? p.name = some p.ty ∧ p.ty ≠ .void)
    (h : declareParameters x params a = .ok u a') : a.Kept a' ∧ a'.Agrees Γ := by
  induction params generalizing a with
  | nil =>
    cases h
    exact ⟨.refl _, ha⟩
  | cons p params ih =>
    rw [List.forall_mem_cons] at hparams
    obtain ⟨b, a₁, hget, h⟩ := State.bind_eq_ok h
    cases hget
    split at h
    · cases h
    · obtain ⟨u₁, a₁, hdeclare, h⟩ := State.bind_eq_ok h
      have hp : (Symbol.variable p.ty).Agrees Γ p.name := hparams.1
      obtain ⟨hkept, hagrees⟩ := declare_sound ha hp hdeclare
      obtain ⟨hkept', hagrees'⟩ := ih hagrees hparams.2 h
      exact ⟨hkept.trans hkept', hagrees'⟩

theorem requireTop_eq_ok {x : String} {u : Unit} {a a' : Arena} (h : requireTop x a = .ok u a') :
    a = a' ∧ a.result = none ∧ ¬ a.IsInner := by
  obtain ⟨b, a₁, hget, h⟩ := State.bind_eq_ok h
  cases hget
  split at h
  · cases h
  · next htop =>
    cases h
    rw [Bool.or_eq_true, not_or] at htop
    exact ⟨rfl, Option.not_isSome_iff_eq_none.mp htop.1, fun hinner => hinner.elim htop.1 htop.2⟩

/-- A check of a body with a result type of its own. -/
theorem withResult_eq_ok {t : Ty} {check : Checker Unit} {u : Unit} {a a' : Arena}
    (h : withResult t check a = .ok u a') :
    ∃ b, check { a with result := some t } = .ok () b ∧ a' = { b with result := none } := by
  unfold withResult at h
  split at h
  · next b hb =>
    cases h
    exact ⟨b, hb, rfl⟩
  · cases h

theorem Declares.left {D D' : List (String × Ty)} (h : Declares Γ (D ++ D')) : Declares Γ D :=
  fun d hd => h d (List.mem_append_left _ hd)

theorem Declares.right {D D' : List (String × Ty)} (h : Declares Γ (D ++ D')) : Declares Γ D' :=
  fun d hd => h d (List.mem_append_right _ hd)

mutual
/-- A statement that the checker accepts keeps the rules, unless it is the declaration of a function at the
    top level. -/
theorem checkStatement_sound {s : Stmt} {u : Unit} {a a' : Arena} (ha : a.Agrees Γ) (hs : s.Written)
    (hd : Declares Γ s.declarations) (hinner : a.IsInner ∨ s.function? = none)
    (h : checkStatement s a = .ok u a') : a.Kept a' ∧ a'.Agrees Γ ∧ Keeps Γ a.result s := by
  cases hs with
  | varDecl hne hinit =>
    unfold checkStatement at h
    have hx := hd _ (List.mem_singleton.mpr rfl)
    obtain ⟨hkept, hagrees, hfits⟩ := checkVarDecl_sound ha hx hne hinit h
    exact ⟨hkept, hagrees, .varDecl hx hfits⟩
  | assign he =>
    unfold checkStatement at h
    obtain ⟨rfl, t, hx, hfits⟩ := checkAssignment_sound ha.shows he h
    exact ⟨.refl _, ha, .assign hx hfits⟩
  | print he =>
    unfold checkStatement at h
    obtain ⟨t, hvalue⟩ := State.discard_eq_ok h
    obtain ⟨rfl, ht, hne⟩ := valueType_sound ha.shows he hvalue
    exact ⟨.refl _, ha, .print ht hne⟩
  | input =>
    unfold checkStatement at h
    obtain ⟨t, hresolve⟩ := State.discard_eq_ok h
    obtain ⟨rfl, hx, hne⟩ := ha.shows.resolveVariable hresolve
    exact ⟨.refl _, ha, .input hx hne⟩
  | ifThen hcond hbody =>
    unfold checkStatement at h
    obtain ⟨u₁, a₁, hcheck, h⟩ := State.bind_eq_ok h
    obtain ⟨rfl, hbool⟩ := checkCondition_sound ha.shows hcond hcheck
    obtain ⟨hkept, hagrees, hkeeps⟩ :=
      inScope_sound (fun b => checkStatements_sound ha.enter hbody hd (isInner_enter _)) h
    exact ⟨hkept, hagrees, .ifThen hbool hkeeps⟩
  | ifElse hcond hyes hno =>
    unfold checkStatement at h
    obtain ⟨u₁, a₁, hcheck, h⟩ := State.bind_eq_ok h
    obtain ⟨rfl, hbool⟩ := checkCondition_sound ha.shows hcond hcheck
    obtain ⟨u₂, a₂, hfirst, h⟩ := State.bind_eq_ok h
    obtain ⟨hkept₁, hagrees₁, hkeeps₁⟩ :=
      inScope_sound (fun b => checkStatements_sound ha.enter hyes (Declares.left hd) (isInner_enter _)) hfirst
    obtain ⟨hkept₂, hagrees₂, hkeeps₂⟩ :=
      inScope_sound (fun b => checkStatements_sound hagrees₁.enter hno (Declares.right hd) (isInner_enter _)) h
    refine ⟨hkept₁.trans hkept₂, hagrees₂, .ifElse hbool hkeeps₁ ?_⟩
    exact hkept₁.result ▸ hkeeps₂
  | whileLoop hcond hbody =>
    unfold checkStatement at h
    obtain ⟨u₁, a₁, hcheck, h⟩ := State.bind_eq_ok h
    obtain ⟨rfl, hbool⟩ := checkCondition_sound ha.shows hcond hcheck
    obtain ⟨hkept, hagrees, hkeeps⟩ :=
      inScope_sound (fun b => checkStatements_sound ha.enter hbody hd (isInner_enter _)) h
    exact ⟨hkept, hagrees, .whileLoop hbool hkeeps⟩
  | @forLoop init step cond body hinit hcond hstep hbody =>
    unfold checkStatement at h
    refine inScope_sound (fun b hb => ?_) h
    obtain ⟨u₁, a₁, hfirst, hb⟩ := State.bind_eq_ok hb
    obtain ⟨hkept₁, hagrees₁, hkeeps₁⟩ :=
      checkStatement_sound ha.enter hinit (Declares.left hd) (.inl (isInner_enter _)) hfirst
    have hinner₁ := hkept₁.isInner (isInner_enter _)
    obtain ⟨u₂, a₂, hcheck, hb⟩ := State.bind_eq_ok hb
    obtain ⟨rfl, hbool⟩ := checkCondition_sound hagrees₁.shows hcond hcheck
    obtain ⟨u₃, a₃, hsecond, hb⟩ := State.bind_eq_ok hb
    obtain ⟨hkept₂, hagrees₂, hkeeps₂⟩ :=
      checkStatement_sound hagrees₁ hstep (Declares.left (Declares.right hd)) (.inl hinner₁) hsecond
    obtain ⟨hkept₃, hagrees₃, hkeeps₃⟩ :=
      inScope_sound (fun b => checkStatements_sound hagrees₂.enter hbody (Declares.right (Declares.right hd))
        (isInner_enter _)) hb
    refine ⟨(hkept₁.trans hkept₂).trans hkept₃, hagrees₃, .forLoop hkeeps₁ hbool ?_ ?_⟩
    · exact hkept₁.result ▸ hkeeps₂
    · exact (hkept₁.trans hkept₂).result ▸ hkeeps₃
  | function hparams hbody =>
    unfold checkStatement at h
    obtain ⟨u₁, a₁, htop, -⟩ := State.bind_eq_ok h
    obtain ⟨-, -, houter⟩ := requireTop_eq_ok htop
    rcases hinner with hinner | hfunction
    · exact absurd hinner houter
    · cases hfunction
  | ret hvalue =>
    unfold checkStatement at h
    obtain ⟨rfl, hkeeps⟩ := checkReturn_sound ha.shows hvalue h
    exact ⟨.refl _, ha, hkeeps⟩
  | expr he =>
    unfold checkStatement at h
    obtain ⟨t, htype⟩ := State.discard_eq_ok h
    obtain ⟨rfl, ht⟩ := typeOf_sound ha.shows he htype
    exact ⟨.refl _, ha, .expr ht⟩

theorem checkStatements_sound {ss : List Stmt} {u : Unit} {a a' : Arena} (ha : a.Agrees Γ)
    (hss : ∀ s ∈ ss, s.Written) (hd : Declares Γ (Stmt.declarationsAll ss)) (hinner : a.IsInner)
    (h : checkStatements ss a = .ok u a') : a.Kept a' ∧ a'.Agrees Γ ∧ ∀ s ∈ ss, Keeps Γ a.result s := by
  match ss with
  | [] =>
    unfold checkStatements at h
    cases h
    exact ⟨.refl _, ha, by simp⟩
  | s :: ss =>
    unfold checkStatements at h
    rw [List.forall_mem_cons] at hss
    obtain ⟨u₁, a₁, hfirst, h⟩ := State.bind_eq_ok h
    obtain ⟨hkept₁, hagrees₁, hkeeps₁⟩ :=
      checkStatement_sound ha hss.1 (Declares.left hd) (.inl hinner) hfirst
    obtain ⟨hkept₂, hagrees₂, hkeeps₂⟩ :=
      checkStatements_sound hagrees₁ hss.2 (Declares.right hd) (hkept₁.isInner hinner) h
    exact ⟨hkept₁.trans hkept₂, hagrees₂, List.forall_mem_cons.mpr ⟨hkeeps₁, hkept₁.result ▸ hkeeps₂⟩⟩
end

/-- The body of a function that the checker accepts keeps the rules. -/
theorem checkFunction_sound {f : Function} {u : Unit} {a a' : Arena} (ha : a.Agrees Γ)
    (hs : (Stmt.function f.name f.params f.result f.body).Written)
    (hd : Declares Γ (Stmt.function f.name f.params f.result f.body).declarations)
    (h : checkStatement (.function f.name f.params f.result f.body) a = .ok u a') :
    a.Kept a' ∧ a'.Agrees Γ ∧ FunctionKeeps Γ f := by
  cases hs with
  | function hparams hbody =>
    have hvariables : ∀ p ∈ f.params, Γ.type? p.name = some p.ty ∧ p.ty ≠ .void := fun p hp =>
      ⟨Declares.left hd (p.name, p.ty) (List.mem_map_of_mem hp), hparams p hp⟩
    unfold checkStatement at h
    obtain ⟨u₁, a₁, htop, h⟩ := State.bind_eq_ok h
    obtain ⟨rfl, hresult, -⟩ := requireTop_eq_ok htop
    refine inScope_sound (fun b hb => ?_) h
    obtain ⟨u₂, a₂, hdeclare, hb⟩ := State.bind_eq_ok hb
    obtain ⟨hkept₁, hagrees₁⟩ := declareParameters_sound ha.enter hvariables hdeclare
    obtain ⟨a₃, hcheck, rfl⟩ := withResult_eq_ok hb
    obtain ⟨hkept₂, hagrees₂, hkeeps⟩ :=
      checkStatements_sound (a := { a₂ with result := some f.result }) hagrees₁ hbody (Declares.right hd)
        (.inl rfl) hcheck
    exact ⟨⟨hkept₂.parents.trans hkept₁.parents, hkept₂.current.trans hkept₁.current, hresult.symm⟩, hagrees₂,
      hvariables, hkeeps⟩

/-! ### Programs -/

theorem symbols_scope_add {a : Arena} (ha : a.current < a.scopes.length) (x : String) (symbol : Symbol) :
    (a.add x symbol).scope.symbols = Assoc.insert a.scope.symbols x symbol := by
  show ((a.scopes.set a.current _).getD a.current default).symbols = _
  rw [List.getD_eq_getElem?_getD, List.getElem?_set_self ha]
  rfl

/-- The functions of a program that the checker accepts have different names. -/
theorem declareFunctions_nodup {fs : List Function} {u : Unit} {a a' : Arena}
    (ha : a.current < a.scopes.length) (h : declareFunctions fs a = .ok u a') :
    (fs.map Function.name).Nodup ∧ ∀ f ∈ fs, a.scope.symbols.has f.name = false := by
  induction fs generalizing a with
  | nil => exact ⟨.nil, by simp⟩
  | cons f fs ih =>
    obtain ⟨u₁, a₁, hdeclare, h⟩ := State.bind_eq_ok h
    obtain ⟨hnew, rfl⟩ := declare_eq_ok hdeclare
    obtain ⟨u₂, a₂, hrecord, h⟩ := State.bind_eq_ok h
    cases hrecord
    have hcurrent : (a.add f.name (.function f.params f.result)).current <
        (a.add f.name (.function f.params f.result)).scopes.length := by
      show a.current < (a.scopes.set a.current _).length
      rwa [List.length_set]
    obtain ⟨hnodup, hfresh⟩ := ih (a := (a.add _ _).record _) hcurrent h
    have hothers : ∀ g ∈ fs, g.name ≠ f.name ∧ a.scope.symbols.has g.name = false := by
      intro g hg
      have hg' : Assoc.has (a.add f.name (.function f.params f.result)).scope.symbols g.name = false := hfresh g hg
      rw [symbols_scope_add ha, Assoc.has] at hg'
      have hne : g.name ≠ f.name := by
        intro heq
        rw [heq, Assoc.get?_insert_self] at hg'
        cases hg'
      rw [Assoc.get?_insert_of_ne _ _ hne] at hg'
      exact ⟨hne, hg'⟩
    refine ⟨?_, List.forall_mem_cons.mpr ⟨hnew, fun g hg => (hothers g hg).2⟩⟩
    rw [List.map_cons, List.nodup_cons]
    refine ⟨fun hmem => ?_, hnodup⟩
    obtain ⟨g, hg, heq⟩ := List.mem_map.mp hmem
    exact (hothers g hg).1 heq

theorem declareFunctions_sound {fs : List Function} {u : Unit} {a a' : Arena} (ha : a.Agrees Γ)
    (hfs : ∀ f ∈ fs, Γ.function? f.name = some f) (h : declareFunctions fs a = .ok u a') :
    a.Kept a' ∧ a'.Agrees Γ := by
  induction fs generalizing a with
  | nil =>
    cases h
    exact ⟨.refl _, ha⟩
  | cons f fs ih =>
    rw [List.forall_mem_cons] at hfs
    obtain ⟨u₁, a₁, hdeclare, h⟩ := State.bind_eq_ok h
    have hf : (Symbol.function f.params f.result).Agrees Γ f.name := ⟨f, hfs.1, rfl, rfl⟩
    obtain ⟨hkept, hagrees⟩ := declare_sound ha hf hdeclare
    obtain ⟨u₂, a₂, hrecord, h⟩ := State.bind_eq_ok h
    cases hrecord
    obtain ⟨hkept', hagrees'⟩ := ih (a := a₁.record _) hagrees hfs.2 h
    exact ⟨(hkept.trans (kept_record _ _)).trans hkept', hagrees'⟩

/-- The statements of the top level keep the rules, and so do the functions among them. -/
theorem checkTop_sound {ss : List Stmt} {u : Unit} {a a' : Arena} (ha : a.Agrees Γ) (hresult : a.result = none)
    (hss : ∀ s ∈ ss, s.Written) (hd : Declares Γ (Stmt.declarationsAll ss))
    (h : checkStatements ss a = .ok u a') :
    (∀ s ∈ ss, s.function? = none → Keeps Γ none s) ∧
      ∀ f, f ∈ ss.filterMap Stmt.function? → FunctionKeeps Γ f := by
  induction ss generalizing a with
  | nil => exact ⟨by simp, by simp⟩
  | cons s ss ih =>
    unfold checkStatements at h
    rw [List.forall_mem_cons] at hss
    obtain ⟨u₁, a₁, hfirst, hrest⟩ := State.bind_eq_ok h
    cases hfunction : s.function? with
    | none =>
      obtain ⟨hkept, hagrees, hkeeps⟩ :=
        checkStatement_sound ha hss.1 (Declares.left hd) (.inr hfunction) hfirst
      obtain ⟨hactions, hfunctions⟩ := ih hagrees (hkept.result.trans hresult) hss.2 (Declares.right hd) hrest
      rw [hresult] at hkeeps
      refine ⟨List.forall_mem_cons.mpr ⟨fun _ => hkeeps, hactions⟩, fun f hf => hfunctions f ?_⟩
      rwa [List.filterMap_cons_none hfunction] at hf
    | some f =>
      obtain ⟨x, params, result, body, rfl⟩ : ∃ x params result body, s = .function x params result body := by
        cases s with
        | function x params result body => exact ⟨x, params, result, body, rfl⟩
        | _ => cases hfunction
      cases hfunction
      obtain ⟨hkept, hagrees, hkeeps⟩ :=
        checkFunction_sound (f := ⟨x, params, result, body⟩) ha hss.1 (Declares.left hd) hfirst
      obtain ⟨hactions, hfunctions⟩ := ih hagrees (hkept.result.trans hresult) hss.2 (Declares.right hd) hrest
      refine ⟨List.forall_mem_cons.mpr ⟨(fun hnone => nomatch hnone), hactions⟩, fun f hf => ?_⟩
      rcases List.mem_cons.mp hf with rfl | hf
      · exact hkeeps
      · exact hfunctions f hf

end Checker
end Typing

/-- What the names of a program stand for: a variable for the type of its declarations, a function for its
    declaration at the top level. -/
def Program.names (p : Program) : Typing.Names where
  type? x := p.declarations.lookup x
  function? x := p.functions.find? fun f => f.name == x

namespace Typing
open Checker

theorem declares_names {p : Program} (h : p.Consistent) : Declares p.names p.declarations := by
  rintro ⟨x, t⟩ hd
  show p.declarations.lookup x = some t
  cases hlookup : p.declarations.lookup x with
  | none =>
    have := List.lookup_eq_none_iff.mp hlookup _ hd
    simp at this
  | some s =>
    obtain ⟨l, l', hl, -⟩ := List.lookup_eq_some_iff.mp hlookup
    rw [h x s t (by simp [hl]) hd]

theorem find?_functions {fs : List Function} (h : (fs.map Function.name).Nodup) {f : Function} (hf : f ∈ fs) :
    (fs.find? fun g => g.name == f.name) = some f := by
  induction fs with
  | nil => cases hf
  | cons g fs ih =>
    rw [List.map_cons, List.nodup_cons] at h
    rcases List.mem_cons.mp hf with rfl | hf
    · exact List.find?_cons_of_pos (beq_self_eq_true _)
    · rw [List.find?_cons_of_neg]
      · exact ih h.2 hf
      · intro heq
        exact h.1 (List.mem_map.mpr ⟨f, hf, (beq_iff_eq.mp heq).symm⟩)

/-- A program that a text can write, that names consistently and that the checker accepts keeps the rules, and
    its functions have different names. -/
theorem check_sound {p : Program} (hwritten : p.Written) (hnames : p.Consistent)
    (h : (check p).answer = .ok ()) : ProgramKeeps p.names p ∧ (p.functions.map Function.name).Nodup := by
  obtain ⟨a, hcheck⟩ : ∃ a, checkProgram p Arena.start = .ok () a := by
    unfold check Checker.run at h
    split at h
    · next u a ha => exact ⟨a, ha⟩
    · cases h
  obtain ⟨u, a₁, hdeclare, hbody⟩ := State.bind_eq_ok hcheck
  obtain ⟨hnodup, -⟩ := declareFunctions_nodup (by decide) hdeclare
  have hstart : Arena.start.Agrees p.names := by
    intro scope hscope x symbol hx
    rw [List.mem_singleton.mp hscope] at hx
    cases hx
  obtain ⟨hkept, hagrees⟩ := declareFunctions_sound hstart (fun f hf => find?_functions hnodup hf) hdeclare
  obtain ⟨hactions, hfunctions⟩ := checkTop_sound hagrees hkept.result hwritten (declares_names hnames) hbody
  refine ⟨⟨fun x f hf => hfunctions f (List.mem_of_find?_eq_some hf), fun s hs => ?_⟩, hnodup⟩
  obtain ⟨hs, hfunction⟩ := List.mem_filter.mp hs
  exact hactions s hs (Option.isNone_iff_eq_none.mp hfunction)

end Typing
end TypedImp
