import TypedImp.Proofs.Typing.Checked
import TypedImp.Proofs.Typing.Scoping

/-! The arena of the checker as a context. The scopes around the current one lie in front of it in the arena, the
    scope of the top level first, each with the place of the one before as its parent. So the search along the parents
    finds what the context says, and declarations, blocks and their ends do to the arena what they do to the context. -/

namespace TypedImp
namespace Typing
namespace Context

/-! ### The scopes of a context -/

/-- The place of the scope around the innermost one. -/
def parent? : List (Assoc Symbol) → Option Nat
  | [] => none
  | _ :: outer => some outer.length

/-- The scopes of a context as they lie in an arena. -/
def stack (top : Assoc Symbol) : List (Assoc Symbol) → List Scope
  | [] => [⟨none, top⟩]
  | symbols :: outer => stack top outer ++ [⟨some outer.length, symbols⟩]

variable (top : Assoc Symbol) (inner : List (Assoc Symbol))

theorem length_stack : (stack top inner).length = inner.length + 1 := by
  induction inner with
  | nil => rfl
  | cons symbols outer ih => rw [stack, List.length_append, ih, List.length_singleton, List.length_cons]

theorem getElem?_stack : (stack top inner)[inner.length]? = some ⟨parent? inner, inner.headD top⟩ := by
  cases inner with
  | nil => rfl
  | cons symbols outer =>
    rw [stack, List.length_cons, ← length_stack top outer, List.getElem?_concat_length]
    rfl

/-- The search along the parents finds what the context says, whatever lies behind its scopes. -/
theorem search_stack (more : List Scope) {n : Nat} (hn : inner.length < n) (x : String) :
    Arena.search (stack top inner ++ more) n inner.length x = (Context.mk inner top).lookup? x := by
  induction inner generalizing more n with
  | nil =>
    obtain ⟨n, rfl⟩ := Nat.exists_eq_succ_of_ne_zero (Nat.ne_zero_of_lt hn)
    have hscope : (stack top [] ++ more)[0]? = some ⟨none, top⟩ := rfl
    rw [List.length_nil, Arena.search, hscope]
    show _ = top.get? x
    dsimp only
    cases top.get? x <;> rfl
  | cons symbols outer ih =>
    obtain ⟨n, rfl⟩ := Nat.exists_eq_succ_of_ne_zero (Nat.ne_zero_of_lt hn)
    have hscope : (stack top (symbols :: outer) ++ more)[outer.length + 1]? = some ⟨some outer.length, symbols⟩ := by
      rw [stack, List.append_assoc, ← length_stack top outer, List.getElem?_append_right (Nat.le_refl _), Nat.sub_self]
      rfl
    rw [List.length_cons, Arena.search, hscope, lookup?_cons]
    dsimp only
    cases symbols.get? x with
    | some symbol => rfl
    | none =>
      rw [stack, List.append_assoc]
      exact ih _ (Nat.lt_of_succ_lt_succ hn)

/-- A change of the innermost scope. -/
theorem set_stack (symbols : Assoc Symbol) (outer : List (Assoc Symbol)) (symbols' : Assoc Symbol) :
    (stack top (symbols :: outer)).set (outer.length + 1) ⟨some outer.length, symbols'⟩ =
      stack top (symbols' :: outer) := by
  rw [stack, stack, ← length_stack top outer, List.set_append_right _ _ (Nat.le_refl _), Nat.sub_self]
  rfl

end Context

/-! ### Arenas that stand for a context -/

/-- The scopes of the arena are those of the context, the innermost one is the current one, and the body of a
    function with the result type is under check. -/
structure Arena.Stands (a : Arena) (Γ : Context) (result : Option Ty) : Prop where
  scopes : a.scopes = Context.stack Γ.top Γ.inner
  current : a.current = Γ.inner.length
  result : a.result = result

namespace Arena.Stands
variable {a : Arena} {Γ Γ' : Context} {result : Option Ty}

theorem resolve? (h : a.Stands Γ result) (x : String) : a.resolve? x = Γ.lookup? x := by
  have hlength : Γ.inner.length < (Context.stack Γ.top Γ.inner).length := by
    rw [Context.length_stack]
    exact Nat.lt_succ_self _
  have hsearch := Context.search_stack Γ.top Γ.inner [] hlength x
  unfold Arena.resolve?
  rwa [h.scopes, h.current, ← List.append_nil (Context.stack Γ.top Γ.inner), List.length_append, List.length_nil,
    Nat.add_zero]

theorem scope (h : a.Stands Γ result) : a.scope = ⟨Context.parent? Γ.inner, Γ.current⟩ := by
  rw [Arena.scope, h.scopes, h.current, List.getD_eq_getElem?_getD, Context.getElem?_stack]
  rfl

/-- A name that the current scope does not have is fresh. -/
theorem has_eq_false_iff (h : a.Stands Γ result) {x : String} : a.scope.symbols.has x = false ↔ Γ.Fresh x := by
  rw [h.scope, Assoc.has, Option.isSome_eq_false_iff, Option.isNone_iff_eq_none]
  rfl

theorem record (h : a.Stands Γ result) (e : Event) : (a.record e).Stands Γ result := ⟨h.scopes, h.current, h.result⟩

theorem add (h : a.Stands Γ result) (x : String) (symbol : Symbol) :
    (a.add x symbol).Stands (Γ.declare x symbol) result := by
  have hscopes : (a.add x symbol).scopes =
      (Context.stack Γ.top Γ.inner).set Γ.inner.length ⟨Context.parent? Γ.inner, Γ.current.insert x symbol⟩ := by
    rw [← h.scopes, ← h.current]
    show a.scopes.set a.current _ = _
    rw [h.scope]
  obtain ⟨inner, top⟩ := Γ
  cases inner with
  | nil => exact ⟨hscopes, h.current, h.result⟩
  | cons symbols outer => exact ⟨hscopes.trans (Context.set_stack top symbols outer _), h.current, h.result⟩

theorem enter (h : a.Stands Γ result) : a.enter.Stands Γ.block result where
  scopes := by
    show a.scopes ++ [⟨some a.current, []⟩] = _
    rw [h.scopes, h.current]
    rfl
  current := by
    show a.scopes.length = _
    rw [h.scopes, Context.length_stack]
    rfl
  result := h.result

/-- The end of a block. -/
theorem exit (h : a.Stands Γ' result) (hΓ : Γ'.Within Γ) :
    ∃ b, Checker.exitScope a = .ok () b ∧ b.Stands Γ result := by
  obtain ⟨scope, rfl⟩ := hΓ
  have hparent : a.scope.parent = some Γ.inner.length := by rw [h.scope]; rfl
  refine ⟨{ a.record (.exitScope a.current) with scopes := a.scopes.dropLast, current := Γ.inner.length }, ?_, ?_⟩
  · rw [Checker.exitScope, State.get_bind]
    dsimp only
    rw [hparent]
    rfl
  · refine ⟨?_, rfl, h.result⟩
    show a.scopes.dropLast = _
    rw [h.scopes]
    exact List.dropLast_concat

end Arena.Stands

namespace Checker
variable {a a' : Arena} {Γ Γ' : Context} {result : Option Ty} {check : Checker Unit}

/-- What ends well in a scope of its own. -/
theorem inScope_of_ok {b : Arena} (hcheck : check a.enter = .ok () b) (hb : b.Stands Γ' result) (hΓ : Γ'.Within Γ) :
    ∃ a', inScope check a = .ok () a' ∧ a'.Stands Γ result := by
  obtain ⟨c, hexit, hc⟩ := hb.exit hΓ
  have henter : enterScope a = .ok () a.enter := rfl
  exact ⟨c, by rw [inScope, State.bind_of_ok henter, State.bind_of_ok hcheck, hexit], hc⟩

theorem inScope_eq_ok {u : Unit} {P : Prop} (h : inScope check a = .ok u a')
    (hcheck : ∀ b, check a.enter = .ok () b → (∃ Γ', b.Stands Γ' result ∧ Γ'.Within Γ) ∧ P) :
    a'.Stands Γ result ∧ P := by
  obtain ⟨u₁, a₁, henter, h⟩ := State.bind_eq_ok h
  have henter' : enterScope a = .ok () a.enter := rfl
  rw [henter'] at henter
  cases henter
  obtain ⟨u₂, b, hb, h⟩ := State.bind_eq_ok h
  obtain ⟨⟨Γ', hstands, hΓ⟩, hP⟩ := hcheck b hb
  obtain ⟨c, hexit, hc⟩ := hstands.exit hΓ
  rw [hexit] at h
  cases h
  exact ⟨hc, hP⟩

end Checker
end Typing
end TypedImp
