import TypedImp.Proofs.Json.Reading

/-! The printer writes a text of the value, on one line as well as over several lines, so that the reader finds the
    value again. -/

namespace TypedImp
namespace Json

/-- The values that a file can hold: their numbers are found again, and no object has two members of one name. -/
inductive Writable : Json → Prop
  | scalar {v : Json} : IsScalar v → Writable v
  | string (s : String) : Writable (.string s)
  | array {vs : List Json} : (∀ v ∈ vs, Writable v) → Writable (.array vs)
  | object {ms : List (String × Json)} :
      (∀ m ∈ ms, Writable m.2) → (ms.map Prod.fst).Nodup → Writable (.object ms)

/-! ### Parts in a row -/

section
variable {blanks : String} (hblanks : Blanks blanks.toList) {es : List Char} (hes : Blanks es)
include hblanks hes

/-- Items with commas and blanks between them, up to the end of the array. -/
theorem spellsItems_intercalate (text : Json → String) {as : List Char} (has : Blanks as) {v : Json} {vs : List Json}
    (htext : ∀ w ∈ v :: vs, Spells (text w).toList w) :
    SpellsItems (as ++ ((("," ++ blanks).intercalate ((v :: vs).map text)).toList ++ (es ++ [']']))) (v :: vs) := by
  induction vs generalizing as v with
  | nil =>
    rw [List.map_singleton, String.intercalate_singleton]
    exact .last has (htext v List.mem_cons_self) hes
  | cons w vs ih =>
    have hmore := ih hblanks fun u hu => htext u (List.mem_cons_of_mem _ hu)
    have := SpellsItems.more has (htext v List.mem_cons_self) blanks_nil hmore
    rw [List.map_cons, List.map_cons, String.intercalate_cons_cons]
    simpa using this

/-- Members with commas and blanks between them, up to the end of the object. -/
theorem spellsMembers_intercalate (text : String × Json → String) {as : List Char} (has : Blanks as)
    {m : String × Json} {ms : List (String × Json)} (htext : ∀ n ∈ m :: ms, SpellsMember (text n).toList n) :
    SpellsMembers (as ++ ((("," ++ blanks).intercalate ((m :: ms).map text)).toList ++ (es ++ ['\x7d'])))
      (m :: ms) := by
  induction ms generalizing as m with
  | nil =>
    rw [List.map_singleton, String.intercalate_singleton]
    exact .last has (htext m List.mem_cons_self) hes
  | cons n ms ih =>
    have hmore := ih hblanks fun u hu => htext u (List.mem_cons_of_mem _ hu)
    have := SpellsMembers.more has (htext m List.mem_cons_self) blanks_nil hmore
    rw [List.map_cons, List.map_cons, String.intercalate_cons_cons]
    simpa using this

end

theorem blanks_space : Blanks (" " : String).toList := fun c hc => by
  rw [List.mem_singleton.mp hc]
  rfl

/-- A name and the text of a value with a colon and a space between them. -/
theorem spellsMember_text {text : Json → String} {m : String × Json} (h : Spells (text m.2).toList m.2) :
    SpellsMember (stringText m.1 ++ ": " ++ text m.2).toList m := by
  simpa using SpellsMember.mk rfl blanks_nil blanks_space h

/-! ### On one line -/

theorem compactItems_eq_map (vs : List Json) : compactItems vs = vs.map compact := by
  induction vs with
  | nil => rfl
  | cons v vs ih => rw [compactItems, ih, List.map_cons]

theorem compactMembers_eq_map (ms : List (String × Json)) :
    compactMembers ms = ms.map fun m => stringText m.1 ++ ": " ++ compact m.2 := by
  induction ms with
  | nil => rfl
  | cons m ms ih => rw [compactMembers, ih, List.map_cons]

theorem compact_scalar {v : Json} (h : IsScalar v) : v.compact = scalarText v := by
  cases h <;> rfl

theorem spells_compact {v : Json} : Writable v → Spells v.compact.toList v
  | .scalar hv => .scalar hv (by rw [compact_scalar hv])
  | .string _ => .string rfl
  | @Writable.array [] _ => .emptyArray blanks_nil
  | @Writable.array (v :: vs) h => by
    have := spellsItems_intercalate blanks_space blanks_nil compact blanks_nil fun w hw => spells_compact (h w hw)
    rw [compact, compactItems_eq_map]
    simpa using Spells.array this
  | @Writable.object [] _ _ => .emptyObject blanks_nil
  | @Writable.object (m :: ms) h hnames => by
    have := spellsMembers_intercalate blanks_space blanks_nil _ blanks_nil fun n hn =>
      spellsMember_text (spells_compact (h n hn))
    rw [compact, compactMembers_eq_map]
    simpa using Spells.object this hnames

/-! ### Over several lines -/

theorem indentedItems_eq_map (depth : Nat) (vs : List Json) : indentedItems depth vs = vs.map (indented depth) := by
  induction vs with
  | nil => rfl
  | cons v vs ih => rw [indentedItems, ih, List.map_cons]

theorem indentedMembers_eq_map (depth : Nat) (ms : List (String × Json)) :
    indentedMembers depth ms = ms.map fun m => stringText m.1 ++ ": " ++ indented depth m.2 := by
  induction ms with
  | nil => rfl
  | cons m ms ih => rw [indentedMembers, ih, List.map_cons]

theorem blanks_indentation (depth : Nat) : Blanks (indentation depth).toList := fun c hc => by
  rw [indentation, String.toList_append] at hc
  rcases List.mem_append.mp hc with hc | hc
  · rw [List.mem_singleton.mp hc]
    rfl
  · rw [String.toList_ofList] at hc
    rw [(List.mem_replicate.mp hc).2]
    rfl

theorem indented_scalar {v : Json} (h : IsScalar v) (depth : Nat) : v.indented depth = scalarText v := by
  cases h <;> rfl

theorem spells_indented {v : Json} : Writable v → ∀ depth : Nat, Spells (v.indented depth).toList v
  | .scalar hv, depth => .scalar hv (by rw [indented_scalar hv])
  | .string _, _ => .string rfl
  | @Writable.array [] _, depth => by simpa [indented, indentedItems, spread] using Spells.emptyArray blanks_nil
  | @Writable.array (v :: vs) h, depth => by
    have := spellsItems_intercalate (blanks_indentation (depth + 1)) (blanks_indentation depth)
      (indented (depth + 1)) (blanks_indentation (depth + 1)) fun w hw => spells_indented (h w hw) (depth + 1)
    rw [indented, indentedItems_eq_map]
    simpa [spread] using Spells.array this
  | @Writable.object [] _ _, depth => by simpa [indented, indentedMembers, spread] using Spells.emptyObject blanks_nil
  | @Writable.object (m :: ms) h hnames, depth => by
    have := spellsMembers_intercalate (blanks_indentation (depth + 1)) (blanks_indentation depth) _
      (blanks_indentation (depth + 1)) fun n hn => spellsMember_text (spells_indented (h n hn) (depth + 1))
    rw [indented, indentedMembers_eq_map]
    simpa [spread] using Spells.object this hnames

/-- What is written is read again, on one line or over several. -/
theorem read_compact {v : Json} (h : Writable v) : Json.read v.compact = .ok v := read_of_spells (spells_compact h)

theorem read_indented {v : Json} (h : Writable v) (depth : Nat) : Json.read (v.indented depth) = .ok v :=
  read_of_spells (spells_indented h depth)

end Json
end TypedImp
