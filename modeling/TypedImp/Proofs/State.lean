/-! Steps with a state that may fail. What a sequence of steps does is read off what its parts do. -/

namespace TypedImp
namespace State
variable {ε σ α β : Type} {r : EStateM ε σ α} {k : α → EStateM ε σ β} {s s' : σ}

theorem bind_of_ok {a : α} (h : r s = .ok a s') : (r >>= k) s = k a s' := by
  show EStateM.bind r k s = k a s'
  rw [EStateM.bind, h]

theorem bind_of_error {e : ε} (h : r s = .error e s') : (r >>= k) s = .error e s' := by
  show EStateM.bind r k s = .error e s'
  rw [EStateM.bind, h]

theorem get_bind (k : σ → EStateM ε σ β) (s : σ) : ((get : EStateM ε σ σ) >>= k) s = k s s := rfl

/-- A sequence ends well only if both of its parts do. -/
theorem bind_eq_ok {b : β} (h : (r >>= k) s = .ok b s') : ∃ a s₁, r s = .ok a s₁ ∧ k a s₁ = .ok b s' := by
  cases hr : r s with
  | ok a s₁ =>
    rw [bind_of_ok hr] at h
    exact ⟨a, s₁, rfl, h⟩
  | error e s₁ =>
    rw [bind_of_error hr] at h
    cases h

theorem discard_of_ok {a : α} (h : r s = .ok a s') : (discard r : EStateM ε σ PUnit) s = .ok .unit s' := bind_of_ok h

theorem discard_of_error {e : ε} (h : r s = .error e s') : (discard r : EStateM ε σ PUnit) s = .error e s' :=
  bind_of_error h

theorem discard_eq_ok {u : PUnit} (h : (discard r : EStateM ε σ PUnit) s = .ok u s') : ∃ a, r s = .ok a s' := by
  obtain ⟨a, s₁, hr, hk⟩ := bind_eq_ok h
  cases hk
  exact ⟨a, hr⟩

/-- Steps that end alike still do so when their answers are dropped. -/
theorem discard_congr {r' : EStateM ε σ α} {t : σ} (h : r s = r' t) :
    (discard r : EStateM ε σ PUnit) s = (discard r' : EStateM ε σ PUnit) t := by
  cases hr : r s with
  | ok a s' => rw [discard_of_ok hr, discard_of_ok (h.symm.trans hr)]
  | error e s' => rw [discard_of_error hr, discard_of_error (h.symm.trans hr)]

end State
end TypedImp
