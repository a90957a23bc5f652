import TypedImp.Proofs.Value.Operation

/-! Values that the language makes. An `int` has 64 bits, a `char` is one character, and no value is loose. The
    operators, conversion and reading make proper values of proper ones, whatever their types are. -/

namespace TypedImp
namespace Value

/-- An `int` is in its range, a `char` is one character, and the payload fits the tag. -/
def Proper : Value → Prop
  | int n => -2 ^ 63 ≤ n ∧ n ≤ 2 ^ 63 - 1
  | char s => s.length = 1
  | loose _ _ => False
  | _ => True

theorem proper_int_iff {n : Int} : (int n).Proper ↔ Word.inRange n = true := by
  rw [Word.inRange_iff, Proper]
  omega

theorem proper_wrap (n : Int) : (int (Word.wrap n)).Proper := proper_int_iff.mpr (Word.inRange_wrap n)

theorem Proper.eq_int {v : Value} (h : v.Proper) (hty : v.ty = .int) : ∃ n, v = int n := by
  cases v with
  | int n => exact ⟨n, rfl⟩
  | loose => exact h.elim
  | _ => cases hty

theorem Proper.eq_string {v : Value} (h : v.Proper) (hty : v.ty = .string) : ∃ s, v = string s := by
  cases v with
  | string s => exact ⟨s, rfl⟩
  | loose => exact h.elim
  | _ => cases hty

/-! ### Conversion and signs -/

theorem Proper.widen {v u : Value} {t : Ty} (hv : v.Proper) (h : v.widen t = .ok u) : u.Proper := by
  unfold Value.widen at h
  split at h
  · next n =>
    cases hn : Number.roundInt n with
    | error e =>
      rw [hn] at h
      cases h
    | ok x =>
      rw [hn] at h
      cases h
      trivial
  · exact hv.elim
  · cases h
    exact hv

theorem Proper.unary {op : UnaryOp} {v u : Value} (hv : v.Proper) (h : Value.unary op v = .ok u) : u.Proper := by
  unfold Value.unary at h
  split at h
  · cases h
    exact proper_wrap _
  · cases h
    trivial
  · cases h
    exact hv
  · cases h
    trivial
  · exact hv.elim
  · exact hv.elim
  · cases h
  · cases h

/-! ### Binary operators -/

theorem HasTy.proper {v : Value} {t : Ty} (h : v.HasTy t) (ht : t ≠ .char) : v.Proper := by
  cases h with
  | int hn => exact proper_int_iff.mpr hn
  | char => exact absurd rfl ht
  | float | bool | string => trivial

theorem Gives.proper {r : Except OperationError Value} {t : Ty} {v : Value} (h : Gives r t) (ht : t ≠ .char)
    (hr : r = .ok v) : v.Proper := by
  rcases h with ⟨u, hu, hty⟩ | ⟨e, he, -⟩
  · rw [hu] at hr
    exact Except.ok.inj hr ▸ hty.proper ht
  · rw [he] at hr
    cases hr

theorem Proper.onInts {op : BinaryOp} {a b : Int} {v : Value} (ha : (int a).Proper)
    (h : Value.onInts op a b = .ok v) : v.Proper := by
  cases op with
  | add | sub | mul | div | mod => exact (onInts_arithmetic rfl b (proper_int_iff.mp ha)).proper (by decide) h
  | lt | le | gt | ge => exact (onInts_relational rfl a b).proper (by decide) h
  | _ => cases h

theorem proper_onFloats {op : BinaryOp} {x y : Float} {v : Value} (h : Value.onFloats op x y = .ok v) :
    v.Proper := by
  cases op with
  | add | sub | mul | div | mod => exact (onFloats_arithmetic rfl x y).proper (by decide) h
  | lt | le | gt | ge => exact (onFloats_relational rfl x y).proper (by decide) h
  | _ => cases h

/-- Operands that are not loose are refused where those of a loose one would be used. -/
theorem Proper.onLoose_eq_error {op : BinaryOp} {a b : Value} (ha : a.Proper) (hb : b.Proper)
    (hints : ∀ m n, a = int m → b ≠ int n) (hstrings : ∀ s t, a = string s → b ≠ string t) :
    Value.onLoose op a b = .error (.unsupported op a.ty b.ty) := by
  have hint : ¬(a.ty = .int ∧ b.ty = .int) := by
    rintro ⟨hta, htb⟩
    obtain ⟨m, hm⟩ := ha.eq_int hta
    obtain ⟨n, hn⟩ := hb.eq_int htb
    exact hints m n hm hn
  have hstring : ¬(a.ty = .string ∧ b.ty = .string) := by
    rintro ⟨hta, htb⟩
    obtain ⟨s, hs⟩ := ha.eq_string hta
    obtain ⟨t, ht⟩ := hb.eq_string htb
    exact hstrings s t hs ht
  rw [Value.onLoose, if_neg (by simpa using hint), if_neg (by simpa [and_assoc] using fun _ => hstring)]

theorem Proper.beside {a b u : Value} (hb : b.Proper) (h : Value.beside a b = .ok u) : u.Proper := by
  unfold Value.beside at h
  split at h
  · split at h
    · next c hc =>
      cases h
      exact hb.widen hc
    · cases h
  · cases h
    exact hb

/-- A comparison for equality gives a truth value, if it gives one. -/
theorem proper_compared {a b v : Value} {f : Bool → Bool}
    (h : (do .ok (bool (f (← compared a b))) : Except OperationError Value) = .ok v) : v.Proper := by
  cases hc : compared a b with
  | error e =>
    rw [hc] at h
    cases h
  | ok c =>
    rw [hc] at h
    cases h
    trivial

theorem Proper.binary {op : BinaryOp} {a b v : Value} (ha : a.Proper) (hb : b.Proper)
    (h : Value.binary op a b = .ok v) : v.Proper := by
  cases hbeside : Value.beside a b with
  | error e =>
    rw [Value.binary, hbeside] at h
    cases h
  | ok b' =>
    have hb' := hb.beside hbeside
    rw [binary_of_beside hbeside] at h
    split at h
    · exact proper_compared (f := id) h
    · exact proper_compared h
    · split at h
      · exact ha.onInts h
      · exact proper_onFloats h
      · split at h
        · cases h
          trivial
        · cases h
      · next hints _ hstrings =>
        rw [ha.onLoose_eq_error hb' (fun m n hm hn => hints m n hm hn) fun s t hs ht => hstrings s t hs ht] at h
        cases h

/-! ### Failures

Proper values are converted without a failure, and an operator never fails on them for a payload. -/

theorem Proper.exists_widen {v : Value} (hv : v.Proper) (t : Ty) : ∃ u, v.widen t = .ok u := by
  by_cases ht : t = .float
  · subst ht
    cases v with
    | int n =>
      obtain ⟨x, hx⟩ := Number.roundInt_of_inRange (proper_int_iff.mp hv)
      exact ⟨float x, by rw [Value.widen, hx]; rfl⟩
    | loose => exact hv.elim
    | _ => exact ⟨_, rfl⟩
  · exact ⟨v, v.widen_of_ne_float ht⟩

theorem Proper.notText? {v : Value} (hv : v.Proper) : v.notText? = none := by
  cases v with
  | loose => exact hv.elim
  | _ => rfl

theorem Proper.unary_ne_json {op : UnaryOp} {v : Value} (hv : v.Proper) (e : JsonError) :
    Value.unary op v ≠ .error (.json e) := by
  unfold Value.unary
  split
  case h_5 | h_6 => exact hv.elim
  all_goals nofun

theorem onInts_ne_json (op : BinaryOp) (a b : Int) (e : JsonError) : Value.onInts op a b ≠ .error (.json e) := by
  unfold Value.onInts
  split
  case h_4 | h_5 => split <;> nofun
  all_goals nofun

theorem onFloats_ne_json (op : BinaryOp) (x y : Float) (e : JsonError) :
    Value.onFloats op x y ≠ .error (.json e) := by
  unfold Value.onFloats
  split
  case h_4 => split <;> nofun
  case h_5 =>
    split
    · nofun
    · split <;> nofun
  all_goals nofun

theorem compared_ne_json {a b : Value} {f : Bool → Bool} (e : JsonError) :
    (do .ok (bool (f (← compared a b))) : Except OperationError Value) ≠ .error (.json e) := by
  unfold compared
  split <;> nofun

theorem Proper.binary_ne_json {op : BinaryOp} {a b : Value} (ha : a.Proper) (hb : b.Proper) (e : JsonError) :
    Value.binary op a b ≠ .error (.json e) := by
  obtain ⟨b', hbeside⟩ : ∃ b', Value.beside a b = .ok b' := by
    cases a with
    | float x =>
      obtain ⟨b', hwiden⟩ := hb.exists_widen .float
      exact ⟨b', by rw [Value.beside, hwiden]⟩
    | _ => exact ⟨b, rfl⟩
  have hb' := hb.beside hbeside
  rw [binary_of_beside hbeside]
  split
  · exact compared_ne_json (f := id) e
  · exact compared_ne_json e
  · split
    · exact onInts_ne_json _ _ _ e
    · exact onFloats_ne_json _ _ _ e
    · split <;> rintro ⟨⟩
    · next hints _ hstrings =>
      rw [ha.onLoose_eq_error hb' (fun m n hm hn => hints m n hm hn) fun s t hs ht => hstrings s t hs ht]
      rintro ⟨⟩

/-! ### Input -/

/-- A line is read as a proper value of the type that is asked for. -/
theorem proper_read {t : Ty} {text : String} {v : Value} (h : read t text = .ok v) : v.Proper ∧ v.ty = t := by
  by_cases hvoid : t = .void
  · rw [hvoid] at h
    cases h
  by_cases hchar : t = .char
  · rw [hchar] at h ⊢
    cases h
    exact ⟨String.length_singleton, rfl⟩
  rcases read_gives hvoid text with ⟨u, hu, hty⟩ | ⟨e, he, -⟩
  · rw [hu] at h
    cases h
    exact ⟨hty.proper hchar, hty.ty_eq⟩
  · rw [he] at h
    cases h

end Value
end TypedImp
