import TypedImp.Proofs.Syntax.Literal

/-! The texts of numbers in ASCII, part by part. Each part ends where the next one begins, so that whoever reads such
    a text from the left finds the parts again. -/

namespace TypedImp
open Token (AreDigits decimalValue)

namespace Decimal

/-- A sign, digits before and behind the point, and an exponent with its sign. The digits before the point do not begin
    with a zero that another digit follows. A number without digits behind the point has no point. -/
structure Numeral where
  negative : Bool
  whole : List Char
  fraction : List Char
  exponent : Option (Bool × List Char)
  areWhole : AreDigits whole
  leading : whole = ['0'] ∨ ∃ c cs, whole = c :: cs ∧ c ≠ '0'
  areFraction : AreDigits fraction
  areExponent : ∀ e ∈ exponent, e.2 ≠ [] ∧ AreDigits e.2

/-- What stands in front of a number that is less than zero. -/
def signText (negative : Bool) : List Char := if negative then ['-'] else []

/-- A natural number with a sign. -/
def signed (negative : Bool) (n : Nat) : Int := if negative then -n else n

namespace Numeral
variable (n : Numeral)

def pointText : List Char := if n.fraction.isEmpty then [] else '.' :: n.fraction

def exponentText : List Char :=
  match n.exponent with
  | none => []
  | some (negative, ds) => 'e' :: (if negative then '-' else '+') :: ds

/-- The text behind the sign. -/
def magnitude : List Char := n.whole ++ (n.pointText ++ n.exponentText)

def text : List Char := signText n.negative ++ n.magnitude

def exponent? : Option Int := n.exponent.map fun e => signed e.1 (decimalValue e.2)

/-- The binary number that the text stands for. -/
def value : Float :=
  scientific n.negative (decimalValue (n.whole ++ n.fraction)) (n.exponent?.getD 0 - n.fraction.length)

/-! ### Characters -/

theorem exists_whole : ∃ c cs, n.whole = c :: cs ∧ Text.isAsciiDigit c = true := by
  rcases n.leading with h | ⟨c, cs, h, -⟩
  · exact ⟨'0', [], h, rfl⟩
  · exact ⟨c, cs, h, n.areWhole c (by simp [h])⟩

/-- The text behind the sign begins with a digit. -/
theorem exists_magnitude : ∃ c cs, n.magnitude = c :: cs ∧ Text.isAsciiDigit c = true := by
  obtain ⟨c, cs, h, hc⟩ := n.exists_whole
  exact ⟨c, cs ++ (n.pointText ++ n.exponentText), by rw [magnitude, h, List.cons_append], hc⟩

/-- The digits before the point end where the point or the exponent begins. -/
theorem pointText_append_cases (rest : List Char) :
    (n.fraction = [] ∧ n.pointText ++ rest = rest) ∨
      (n.fraction ≠ [] ∧ n.pointText ++ rest = '.' :: (n.fraction ++ rest)) := by
  unfold pointText
  cases hfraction : n.fraction with
  | nil => exact .inl ⟨rfl, rfl⟩
  | cons c cs => exact .inr ⟨by simp, rfl⟩

theorem exponentText_cases :
    (n.exponent = none ∧ n.exponentText = []) ∨
      ∃ negative ds, n.exponent = some (negative, ds) ∧ ds ≠ [] ∧ AreDigits ds ∧
        n.exponentText = 'e' :: (if negative then '-' else '+') :: ds := by
  unfold exponentText
  cases hexponent : n.exponent with
  | none => exact .inl ⟨rfl, rfl⟩
  | some e =>
    obtain ⟨hne, hds⟩ := n.areExponent e hexponent
    exact .inr ⟨e.1, e.2, rfl, hne, hds, rfl⟩

/-- A numeral consists of digits, a point, a mark for the exponent, and signs. -/
theorem of_mem_text {p : Char → Prop} (hdigit : ∀ c, Text.isAsciiDigit c = true → p c)
    (hmark : ∀ c ∈ ['.', 'e', '+', '-'], p c) {c : Char} (h : c ∈ n.text) : p c := by
  rw [text, magnitude, List.mem_append, List.mem_append, List.mem_append] at h
  rcases h with h | h | h | h
  · unfold signText at h
    split at h
    · rw [List.mem_singleton.mp h]
      exact hmark _ (by decide)
    · cases h
  · exact hdigit c (n.areWhole c h)
  · have := n.pointText_append_cases []
    rw [List.append_nil, List.append_nil] at this
    rcases this with ⟨-, htext⟩ | ⟨-, htext⟩
    · rw [htext] at h
      cases h
    · rw [htext] at h
      rcases List.mem_cons.mp h with rfl | h
      · exact hmark _ (by decide)
      · exact hdigit c (n.areFraction c h)
  · rcases n.exponentText_cases with ⟨-, htext⟩ | ⟨negative, ds, -, -, hds, htext⟩
    · rw [htext] at h
      cases h
    · rw [htext] at h
      rcases List.mem_cons.mp h with rfl | h
      · exact hmark _ (by decide)
      · rcases List.mem_cons.mp h with rfl | h
        · cases negative <;> exact hmark _ (by decide)
        · exact hdigit c (hds c h)

theorem isBlank_of_mem {c : Char} (h : c ∈ n.text) : Text.isBlank c = false := by
  have hmark : ∀ c ∈ ['.', 'e', '+', '-'], Text.isBlank c = false := by
    simp only [List.forall_mem_cons]
    exact ⟨rfl, rfl, rfl, rfl, fun _ h => nomatch h⟩
  exact n.of_mem_text (fun _ => Token.isBlank_of_isAsciiDigit) hmark h

theorem isNumeralBlank_of_mem {c : Char} (h : c ∈ n.text) : isNumeralBlank c = false := by
  rw [isNumeralBlank, n.isBlank_of_mem h, Bool.false_and]

theorem text_ne_nil : n.text ≠ [] := by
  obtain ⟨c, cs, h, -⟩ := n.exists_magnitude
  simp [text, h]

/-- Nothing is trimmed off a numeral. -/
theorem trimBy_text {p : Char → Bool} (h : ∀ c ∈ n.text, p c = false) : Text.trimBy p n.text = n.text :=
  Token.trimBy_eq_self n.text_ne_nil (h _ (List.head_mem n.text_ne_nil)) (h _ (List.getLast_mem n.text_ne_nil))

/-! ### Reading a numeral -/

theorem signOf_text : signOf n.text = (n.negative, n.magnitude) := by
  unfold text signText
  cases n.negative with
  | true => rfl
  | false =>
    obtain ⟨c, cs, h, hc⟩ := n.exists_magnitude
    rw [h]
    exact Token.signOf_digit hc

theorem exponentOf?_exponentText : exponentOf? n.exponentText = some (n.exponent?.getD 0) := by
  rcases n.exponentText_cases with ⟨hexponent, htext⟩ | ⟨negative, ds, hexponent, hne, hds, htext⟩
  · rw [htext, exponent?, hexponent]
    rfl
  · obtain ⟨d, ds, rfl⟩ := List.exists_cons_of_ne_nil hne
    have hsign : signOf ((if negative then '-' else '+') :: d :: ds) = (negative, d :: ds) := by
      cases negative <;> rfl
    rw [htext, exponent?, hexponent, exponentOf?, if_pos (by simp), hsign]
    simp only [Token.digitRow_digits hds, List.map_cons, Option.map_some, Option.getD_some]
    rfl

theorem significand?_magnitude :
    significand? n.magnitude =
      some (n.whole.map fun c => c.toNat - '0'.toNat, n.fraction.map fun c => c.toNat - '0'.toNat, n.exponentText) := by
  have hdigit : Text.digit? 'e' = none := by decide
  have hend : n.exponentText = [] ∨ ∃ d ds, n.exponentText = d :: ds ∧ Text.digit? d = none ∧ d ≠ '_' ∧ d ≠ '.' := by
    rcases n.exponentText_cases with ⟨-, htext⟩ | ⟨negative, ds, -, -, -, htext⟩
    · exact .inl htext
    · exact .inr ⟨'e', _, htext, hdigit, by decide, by decide⟩
  have hstop : n.exponentText = [] ∨ ∃ d ds, n.exponentText = d :: ds ∧ Text.digit? d = none ∧ d ≠ '_' :=
    hend.imp_right fun ⟨d, ds, h, hd, hu, _⟩ => ⟨d, ds, h, hd, hu⟩
  have hwhole : n.whole ≠ [] := by
    obtain ⟨c, cs, h, -⟩ := n.exists_whole
    rw [h]
    exact List.cons_ne_nil c cs
  rcases n.pointText_append_cases n.exponentText with ⟨hfraction, htext⟩ | ⟨hfraction, htext⟩
  · have hrow : digitRow n.magnitude = some (n.whole.map fun c => c.toNat - '0'.toNat, n.exponentText) := by
      rw [magnitude, htext]
      exact Token.digitRowFrom_append n.areWhole hstop false
    rcases hend with hnil | ⟨d, ds, hcons, -, -, hpoint⟩
    · simp [significand?, hrow, hnil, hfraction, hwhole]
    · simp [significand?, hrow, hcons, hfraction, hwhole, hpoint]
  · have hrow : digitRow n.magnitude =
        some (n.whole.map fun c => c.toNat - '0'.toNat, '.' :: (n.fraction ++ n.exponentText)) := by
      rw [magnitude, htext]
      exact Token.digitRowFrom_append n.areWhole (.inr ⟨'.', _, rfl, Token.digit?_point, by decide⟩) false
    have hrow' : digitRow (n.fraction ++ n.exponentText) =
        some (n.fraction.map fun c => c.toNat - '0'.toNat, n.exponentText) :=
      Token.digitRowFrom_append n.areFraction hstop false
    simp [significand?, hrow, hrow', hwhole]

/-- The text is read as the number that its parts stand for. -/
theorem number?_text {s : String} (hs : s.toList = n.text) : number? s = some n.value := by
  have htrim : Text.trimBy isNumeralBlank n.text = n.text := n.trimBy_text fun _ => n.isNumeralBlank_of_mem
  obtain ⟨c, cs, hc, hdigit⟩ := n.exists_magnitude
  simp only [number?, hs, htrim, signOf_text]
  split
  · next h => exact absurd h (hc ▸ Token.asciiLower_ne hdigit 'i' ['n', 'f'] rfl)
  · next h => exact absurd h (hc ▸ Token.asciiLower_ne hdigit 'i' ['n', 'f', 'i', 'n', 'i', 't', 'y'] rfl)
  · next h => exact absurd h (hc ▸ Token.asciiLower_ne hdigit 'n' ['a', 'n'] rfl)
  · rw [significand?_magnitude]
    simp [exponentOf?_exponentText, value, decimalValue]

end Numeral
end Decimal
end TypedImp
