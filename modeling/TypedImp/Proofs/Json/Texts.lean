import TypedImp.Proofs.Decimal.Layout
import TypedImp.Proofs.Json.Numbers
import TypedImp.Proofs.Json.Strings

/-! The texts of interchange values. Blanks may stand around the parts of a value in any number. The reader finds the
    value in each of its texts. -/

namespace TypedImp
namespace Json

/-! ### Words and numbers -/

/-- Can a word or a number begin with the character? -/
def opensScalar (c : Char) : Bool := Text.isAsciiDigit c || ['-', 'n', 't', 'f', 'N', 'I'].contains c

/-- The reader takes the text for a word or a number that stands for the value, whatever follows it. -/
structure ReadsScalar (cs : List Char) (v : Json) : Prop where
  opens : ∃ c ds, cs = c :: ds ∧ opensScalar c = true
  reads : ∀ {rest}, Stops rest → ∀ offset, readScalar ⟨cs ++ rest, offset⟩ = .ok (v, ⟨rest, offset + cs.length⟩)

theorem readsScalar_word {w : List Char} {v : Json} (h : (w, v) ∈ words) : ReadsScalar w v := by
  simp only [words, List.mem_cons, List.not_mem_nil, or_false] at h
  rcases h with h | h | h | h | h | h <;> cases h <;>
    exact ⟨⟨_, _, rfl, rfl⟩, fun _ _ => rfl⟩

theorem opens_numeral (n : Decimal.Numeral) : ∃ c ds, n.text = c :: ds ∧ opensScalar c = true := by
  unfold Decimal.Numeral.text Decimal.signText
  cases n.negative with
  | true => exact ⟨'-', _, rfl, rfl⟩
  | false =>
    obtain ⟨c, ds, h, hc⟩ := n.exists_magnitude
    exact ⟨c, ds, h, by rw [opensScalar, hc]; rfl⟩

theorem readsScalar_int {i : Int} (hi : IsShort i) : ReadsScalar (toString i).toList (.int i) where
  opens := Decimal.Numeral.text_ofInt i ▸ opens_numeral (.ofInt i)
  reads := readScalar_int hi

/-- The reader finds every number that reads back. -/
theorem readsScalar_float {x : Float} (hx : Decimal.ReadsBack x) :
    ReadsScalar (Decimal.interchanged.text x).toList (.float x) := by
  cases hdecode : Binary64.decode x with
  | nan =>
    rw [Decimal.Layout.text, hdecode, Decimal.eq_nan hx hdecode]
    exact readsScalar_word (by simp [words, Decimal.interchanged])
  | infinite negative =>
    rw [Decimal.Layout.text, hdecode, Decimal.eq_infinity hx hdecode]
    cases negative <;> exact readsScalar_word (by simp [words, Decimal.interchanged])
  | finite negative m q =>
    obtain ⟨n, hfractional, htext, hvalue⟩ := Decimal.exists_numeral hx hdecode
    have hsame : Decimal.interchanged.text x = Decimal.printed.text x := by
      rw [Decimal.Layout.text, Decimal.Layout.text, hdecode]
      rfl
    rw [hsame, htext, ← hvalue]
    exact ⟨opens_numeral n, readScalar_float hfractional⟩

/-! ### Texts -/

/-- Blanks between the parts of a value. -/
def Blanks (cs : List Char) : Prop := ∀ c ∈ cs, Cursor.isSpace c = true

theorem blanks_nil : Blanks [] := List.forall_mem_nil _

/-- The values without parts that are no strings. An integer must be short enough to be read, and reading must give a
    binary number back. -/
inductive IsScalar : Json → Prop
  | null : IsScalar .null
  | bool (b : Bool) : IsScalar (.bool b)
  | int {i : Int} : IsShort i → IsScalar (.int i)
  | float {x : Float} : Decimal.ReadsBack x → IsScalar (.float x)

mutual
/-- The texts of a value. -/
inductive Spells : List Char → Json → Prop
  | scalar {cs : List Char} {v : Json} : IsScalar v → cs = (scalarText v).toList → Spells cs v
  | string {cs : List Char} {s : String} : cs = (stringText s).toList → Spells cs (.string s)
  | emptyArray {bs : List Char} : Blanks bs → Spells ('[' :: (bs ++ [']'])) (.array [])
  | array {cs : List Char} {vs : List Json} : SpellsItems cs vs → Spells ('[' :: cs) (.array vs)
  | emptyObject {bs : List Char} : Blanks bs → Spells ('\x7b' :: (bs ++ ['\x7d'])) (.object [])
  | object {cs : List Char} {ms : List (String × Json)} :
      SpellsMembers cs ms → (ms.map Prod.fst).Nodup → Spells ('\x7b' :: cs) (.object ms)

/-- What follows the opening bracket of an array with items. -/
inductive SpellsItems : List Char → List Json → Prop
  | last {as bs cs : List Char} {v : Json} :
      Blanks as → Spells cs v → Blanks bs → SpellsItems (as ++ (cs ++ (bs ++ [']']))) [v]
  | more {as bs cs ds : List Char} {v : Json} {vs : List Json} :
      Blanks as → Spells cs v → Blanks bs → SpellsItems ds vs → SpellsItems (as ++ (cs ++ (bs ++ ',' :: ds))) (v :: vs)

/-- What follows the opening brace of an object with members. -/
inductive SpellsMembers : List Char → List (String × Json) → Prop
  | last {as bs cs : List Char} {m : String × Json} :
      Blanks as → SpellsMember cs m → Blanks bs → SpellsMembers (as ++ (cs ++ (bs ++ ['\x7d']))) [m]
  | more {as bs cs ds : List Char} {m : String × Json} {ms : List (String × Json)} :
      Blanks as → SpellsMember cs m → Blanks bs → SpellsMembers ds ms →
      SpellsMembers (as ++ (cs ++ (bs ++ ',' :: ds))) (m :: ms)

/-- A name and a value with a colon between them. -/
inductive SpellsMember : List Char → String × Json → Prop
  | mk {ks as bs cs : List Char} {k : String} {v : Json} :
      ks = (stringText k).toList → Blanks as → Blanks bs → Spells cs v →
      SpellsMember (ks ++ (as ++ ':' :: (bs ++ cs))) (k, v)
end

theorem IsScalar.reads {v : Json} (h : IsScalar v) : ReadsScalar (scalarText v).toList v := by
  cases h with
  | null => exact readsScalar_word (by simp [words, scalarText])
  | bool b => cases b <;> exact readsScalar_word (by simp [words, scalarText])
  | int hi => exact readsScalar_int hi
  | float hx => exact readsScalar_float hx

/-! ### First characters -/

/-- Can a value begin with the character? -/
def opens (c : Char) : Bool := opensScalar c || ['\x22', '[', '\x7b'].contains c

theorem ne_of_opens {c d : Char} (hc : opens c = true) (hd : opens d = false) : c ≠ d := by
  rintro rfl
  rw [hc] at hd
  cases hd

theorem isSpace_of_opens {c : Char} (h : opens c = true) : Cursor.isSpace c = false := by
  simp only [Cursor.isSpace, Bool.or_eq_false_iff, decide_eq_false_iff_not]
  exact ⟨⟨⟨ne_of_opens h rfl, ne_of_opens h rfl⟩, ne_of_opens h rfl⟩, ne_of_opens h rfl⟩

theorem Spells.exists_cons {cs : List Char} {v : Json} (h : Spells cs v) : ∃ c ds, cs = c :: ds ∧ opens c = true := by
  cases h with
  | scalar hv htext =>
    obtain ⟨c, ds, h, hc⟩ := hv.reads.opens
    exact ⟨c, ds, htext.trans h, by rw [opens, hc]; rfl⟩
  | string htext => exact ⟨'\x22', _, htext.trans (toList_stringText _), rfl⟩
  | emptyArray _ | array _ => exact ⟨'[', _, rfl, rfl⟩
  | emptyObject _ | object _ _ => exact ⟨'\x7b', _, rfl, rfl⟩

theorem SpellsMember.exists_cons {cs : List Char} {m : String × Json} (h : SpellsMember cs m) :
    ∃ ds, cs = '\x22' :: ds := by
  obtain ⟨rfl, _, _, _⟩ := h
  exact ⟨_, by rw [toList_stringText, List.cons_append]⟩

theorem SpellsMember.opens {cs : List Char} {m : String × Json} (h : SpellsMember cs m) :
    ∃ c ds, cs = c :: ds ∧ Json.opens c = true := by
  obtain ⟨ds, rfl⟩ := h.exists_cons
  exact ⟨_, ds, rfl, rfl⟩

/-! ### Between the parts -/

theorem continues_of_isSpace {c : Char} (h : Cursor.isSpace c = true) : continues c = false := by
  simp only [Cursor.isSpace, Bool.or_eq_true, decide_eq_true_eq] at h
  rcases h with ((rfl | rfl) | rfl) | rfl <;> rfl

theorem Stops.blanks {bs rest : List Char} (hbs : Blanks bs) (h : Stops rest) : Stops (bs ++ rest) := by
  cases bs with
  | nil => exact h
  | cons b bs => exact stops_cons (continues_of_isSpace (hbs b List.mem_cons_self)) _

/-- Blanks are skipped up to the first other character. -/
theorem skipSpace_blanks {bs : List Char} (hbs : Blanks bs) {c : Char} (hc : Cursor.isSpace c = false)
    (rest : List Char) (offset : Nat) :
    Cursor.skipSpace ⟨bs ++ c :: rest, offset⟩ = ⟨c :: rest, offset + bs.length⟩ := by
  have htake : (bs ++ c :: rest).takeWhile Cursor.isSpace = bs := by
    rw [List.takeWhile_append_of_pos hbs, List.takeWhile_cons_of_neg (by simp [hc]), List.append_nil]
  rw [Cursor.skipSpace, Cursor.drop]
  dsimp only
  rw [htake, List.drop_left]

end Json
end TypedImp
