import TypedImp.Parser.Expression
import TypedImp.Proofs.Syntax.Derivation

/-! What the texts of literals are read as. A row of ASCII digits has no blanks around it, no sign and no
    underscore, so that only its length and its value count. -/

namespace TypedImp

/-! ### Names of types -/

theorem Ty.ofName?_eq_some {name : String} {ty : Ty} : Ty.ofName? name = some ty ↔ name = ty.name := by
  constructor
  · intro h
    unfold Ty.ofName? at h
    have := List.find?_some h
    exact (beq_iff_eq.mp this).symm
  · rintro rfl
    exact Ty.ofName?_name ty

theorem Ty.ofValueName?_eq_some {name : String} {ty : Ty} :
    Ty.ofValueName? name = some ty ↔ name = ty.name ∧ ty ≠ .void := by
  simp [Ty.ofValueName?, Ty.ofName?_eq_some]

namespace Token

/-! ### Digits -/

theorem digit_bounds {c : Char} (h : Text.isAsciiDigit c = true) : 48 ≤ c.toNat ∧ c.toNat ≤ 57 := by
  simp only [Text.isAsciiDigit, Bool.and_eq_true, decide_eq_true_eq, Char.le_def,
    UInt32.le_iff_toNat_le] at h
  exact h

theorem digit?_of_isAsciiDigit {c : Char} (h : Text.isAsciiDigit c = true) :
    Text.digit? c = some (c.toNat - '0'.toNat) := by
  obtain ⟨h₁, h₂⟩ := digit_bounds h
  have hz : (decide (0x30 ≤ c.toNat) && decide (c.toNat < 0x30 + 10)) = true := by
    simp only [Bool.and_eq_true, decide_eq_true_eq]
    omega
  simp only [Text.digit?, Text.digitZeros, List.find?_cons, hz, Option.map_some]
  rfl

theorem isBlank_of_isAsciiDigit {c : Char} (h : Text.isAsciiDigit c = true) : Text.isBlank c = false := by
  obtain ⟨h₁, h₂⟩ := digit_bounds h
  simp only [Text.isBlank, Bool.and_eq_false_iff, Bool.or_eq_false_iff, decide_eq_false_iff_not, beq_eq_false_iff_ne]
  omega

theorem isNumeralBlank_of_isAsciiDigit {c : Char} (h : Text.isAsciiDigit c = true) :
    Decimal.isNumeralBlank c = false := by
  rw [Decimal.isNumeralBlank, isBlank_of_isAsciiDigit h, Bool.false_and]

/-- The digits in front of something that is no digit and no underscore. -/
theorem digitRowFrom_append {cs rest : List Char} (h : AreDigits cs)
    (hr : rest = [] ∨ ∃ d ds, rest = d :: ds ∧ Text.digit? d = none ∧ d ≠ '_') (b : Bool) :
    Decimal.digitRowFrom b (cs ++ rest) = some (cs.map fun c => c.toNat - '0'.toNat, rest) := by
  induction cs generalizing b with
  | nil =>
    rcases hr with rfl | ⟨d, ds, rfl, hd, hu⟩
    · rfl
    · simp [Decimal.digitRowFrom, hd, hu]
  | cons c cs ih =>
    have hc := digit?_of_isAsciiDigit (h c (by simp))
    have ih := ih (fun d hd => h d (by simp [hd])) true
    simp only [List.cons_append, Decimal.digitRowFrom, hc, ih, Option.map_some, List.map_cons]

theorem digitRow_digits {cs : List Char} (h : AreDigits cs) :
    Decimal.digitRow cs = some (cs.map fun c => c.toNat - '0'.toNat, []) := by
  have := digitRowFrom_append h (Or.inl rfl) false
  rwa [List.append_nil] at this

/-! ### Ends of a numeral -/

theorem dropWhile_eq_self {p : Char → Bool} {c : Char} {cs : List Char} (h : p c = false) :
    (c :: cs).dropWhile p = c :: cs := by
  rw [List.dropWhile_cons_of_neg (by simp [h])]

/-- Nothing is removed from a text whose first and last character stay. -/
theorem trimBy_eq_self {p : Char → Bool} {cs : List Char} (hne : cs ≠ [])
    (hf : p (cs.head hne) = false) (hl : p (cs.getLast hne) = false) : Text.trimBy p cs = cs := by
  obtain ⟨c, rest, rfl⟩ := List.exists_cons_of_ne_nil hne
  have hd : (c :: rest).dropWhile p = c :: rest := dropWhile_eq_self hf
  obtain ⟨d, ds, hr⟩ := List.exists_cons_of_ne_nil (l := (c :: rest).reverse) (by simp)
  have hlast : p d = false := by
    have : d = (c :: rest).getLast hne := by
      rw [← List.head_reverse (by simp)]
      simp only [hr, List.head_cons]
    rw [this]
    exact hl
  unfold Text.trimBy
  rw [hd, hr, dropWhile_eq_self hlast, ← hr, List.reverse_reverse]

theorem signOf_digit {c : Char} {cs : List Char} (h : Text.isAsciiDigit c = true) :
    Decimal.signOf (c :: cs) = (false, c :: cs) := by
  have hp : c ≠ '+' := by
    rintro rfl
    simp [Text.isAsciiDigit] at h
  have hm : c ≠ '-' := by
    rintro rfl
    simp [Text.isAsciiDigit] at h
  unfold Decimal.signOf
  split
  · next heq => exact absurd (List.cons.inj heq).1 hp
  · next heq => exact absurd (List.cons.inj heq).1 hm
  · rfl

/-! ### Integers -/

theorem integer_digits {text : String} (hne : text.toList ≠ []) (h : AreDigits text.toList) :
    Decimal.integer text =
      if Decimal.maxIntegerDigits < text.length then .error (.tooLong text.length)
      else .ok (decimalValue text.toList) := by
  have hb : ∀ c ∈ text.toList, Decimal.isNumeralBlank c = false :=
    fun c hc => isNumeralBlank_of_isAsciiDigit (h c hc)
  have ht : Text.trimBy Decimal.isNumeralBlank text.toList = text.toList :=
    trimBy_eq_self hne (hb _ (List.head_mem hne)) (hb _ (List.getLast_mem hne))
  have hs : Decimal.signOf text.toList = (false, text.toList) := by
    obtain ⟨c, cs, hcs⟩ := List.exists_cons_of_ne_nil hne
    rw [hcs]
    exact signOf_digit (h c (by simp [hcs]))
  simp only [Decimal.integer, ht, hs, digitRow_digits h, List.length_map, String.length_toList]
  split
  · rfl
  · simp [hne, decimalValue]

/-! ### Numbers with a point -/

theorem digit?_point : Text.digit? '.' = none := by decide

theorem isNumeralBlank_point : Decimal.isNumeralBlank '.' = false := by decide

/-- A text that begins with a digit is no name of infinity or of no number. -/
theorem asciiLower_ne {c : Char} {cs : List Char} (h : Text.isAsciiDigit c = true) (d : Char) (ds : List Char)
    (hd : Text.isAsciiDigit d = false) : Decimal.asciiLower (c :: cs) ≠ String.ofList (d :: ds) := by
  intro heq
  have heq := String.ofList_injective heq
  have hc : c.toLower = c := by
    obtain ⟨h₁, h₂⟩ := digit_bounds h
    unfold Char.toLower
    rw [dif_neg]
    intro hA
    have := UInt32.le_iff_toNat_le.mp hA.1
    simp only [Char.toNat] at h₂
    have hA' : ('A').val.toNat = 65 := rfl
    omega
  rw [List.map_cons, hc] at heq
  rw [(List.cons.inj heq).1] at h
  rw [h] at hd
  cases hd

theorem significand?_point {whole fraction : List Char} (hne : whole ≠ []) (hw : AreDigits whole)
    (hf : AreDigits fraction) :
    Decimal.significand? (whole ++ '.' :: fraction) =
      some (whole.map fun c => c.toNat - '0'.toNat, fraction.map fun c => c.toNat - '0'.toNat, []) := by
  have h₁ : Decimal.digitRow (whole ++ '.' :: fraction) =
      some (whole.map fun c => c.toNat - '0'.toNat, '.' :: fraction) :=
    digitRowFrom_append hw (Or.inr ⟨'.', fraction, rfl, digit?_point, by decide⟩) false
  simp [Decimal.significand?, h₁, digitRow_digits hf, hne]

theorem number?_point {text : String} {whole fraction : List Char}
    (ht : text.toList = whole ++ '.' :: fraction) (hne : whole ≠ []) (hw : AreDigits whole)
    (hf : AreDigits fraction) : Decimal.number? text = some (pointValue whole fraction) := by
  have hb : ∀ c ∈ whole ++ '.' :: fraction, Decimal.isNumeralBlank c = false := by
    intro c hc
    simp only [List.mem_append, List.mem_cons] at hc
    rcases hc with hc | rfl | hc
    · exact isNumeralBlank_of_isAsciiDigit (hw c hc)
    · exact isNumeralBlank_point
    · exact isNumeralBlank_of_isAsciiDigit (hf c hc)
  have hne' : whole ++ '.' :: fraction ≠ [] := by simp
  have htrim : Text.trimBy Decimal.isNumeralBlank (whole ++ '.' :: fraction) = whole ++ '.' :: fraction :=
    trimBy_eq_self hne' (hb _ (List.head_mem hne')) (hb _ (List.getLast_mem hne'))
  obtain ⟨c, cs, rfl⟩ := List.exists_cons_of_ne_nil hne
  have hc : Text.isAsciiDigit c = true := hw c (by simp)
  have hs : Decimal.signOf (c :: cs ++ '.' :: fraction) = (false, c :: cs ++ '.' :: fraction) := signOf_digit hc
  simp only [Decimal.number?, ht, htrim, hs]
  split
  · next h => exact absurd h (asciiLower_ne hc 'i' ['n', 'f'] rfl)
  · next h => exact absurd h (asciiLower_ne hc 'i' ['n', 'f', 'i', 'n', 'i', 't', 'y'] rfl)
  · next h => exact absurd h (asciiLower_ne hc 'n' ['a', 'n'] rfl)
  · rw [significand?_point hne hw hf]
    simp [Decimal.exponentOf?, pointValue, decimalValue]

end Token
end TypedImp
