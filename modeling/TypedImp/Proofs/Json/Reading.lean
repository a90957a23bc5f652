import TypedImp.Proofs.Json.Texts

/-! The reader finds a value in each of its texts. One equation says what the reader does in front of each kind of
    part, and the texts are read by recursion on how they spell their values. A text as long as the fuel is never cut
    off. -/

namespace TypedImp
namespace Json

/-! ### One step of the reader -/

section
variable {fuel offset : Nat} {cs rest : List Char} {c c' : Cursor}

theorem readValue_scalar {v : Json} (h : ReadsScalar cs v) (hrest : Stops rest) :
    readValue (fuel + 1) ⟨cs ++ rest, offset⟩ = .ok (v, ⟨rest, offset + cs.length⟩) := by
  rw [← h.reads hrest]
  obtain ⟨d, ds, rfl, hd⟩ := h.opens
  rw [readValue]
  split
  all_goals first
    | rfl
    | next heq =>
      cases heq
      cases hd

theorem readValue_string (s : String) :
    readValue (fuel + 1) ⟨(stringText s).toList ++ rest, offset⟩ =
      .ok (.string s, ⟨rest, offset + (stringText s).toList.length⟩) := by
  have hread := readString_stringText s rest offset
  rw [toList_stringText, List.cons_append] at hread ⊢
  simp only [readValue, hread]
  rfl

theorem readValue_emptyArray (hend : (Cursor.skipSpace ⟨cs, offset + 1⟩).rest = ']' :: rest) :
    readValue (fuel + 1) ⟨'[' :: cs, offset⟩ = .ok (.array [], (Cursor.skipSpace ⟨cs, offset + 1⟩).drop 1) := by
  simp [readValue, Cursor.drop, hend]

theorem readValue_array {vs : List Json} (hitem : ∀ ds, (Cursor.skipSpace ⟨cs, offset + 1⟩).rest ≠ ']' :: ds)
    (hitems : readItems fuel (Cursor.skipSpace ⟨cs, offset + 1⟩) = .ok (vs, c')) :
    readValue (fuel + 1) ⟨'[' :: cs, offset⟩ = .ok (.array vs, c') := by
  simp only [readValue, Cursor.drop, List.drop_succ_cons, List.drop_zero, hitems]
  rfl

theorem readValue_emptyObject (hend : (Cursor.skipSpace ⟨cs, offset + 1⟩).rest = '\x7d' :: rest) :
    readValue (fuel + 1) ⟨'\x7b' :: cs, offset⟩ = .ok (.object [], (Cursor.skipSpace ⟨cs, offset + 1⟩).drop 1) := by
  simp [readValue, Cursor.drop, hend]

theorem readValue_object {ms : List (String × Json)}
    (hmember : ∀ ds, (Cursor.skipSpace ⟨cs, offset + 1⟩).rest ≠ '\x7d' :: ds)
    (hmembers : readMembers fuel (Cursor.skipSpace ⟨cs, offset + 1⟩) = .ok (ms, c')) :
    readValue (fuel + 1) ⟨'\x7b' :: cs, offset⟩ = .ok (.object (Assoc.ofList ms), c') := by
  simp only [readValue, Cursor.drop, List.drop_succ_cons, List.drop_zero, hmembers]
  rfl

theorem readItems_last {v : Json} (hvalue : readValue fuel c = .ok (v, c')) (hend : c'.skipSpace.rest = ']' :: rest) :
    readItems (fuel + 1) c = .ok ([v], c'.skipSpace.drop 1) := by
  simp only [readItems, bind, Except.bind, hvalue, hend]

theorem readItems_more {v : Json} {vs : List Json} {c'' : Cursor} (hvalue : readValue fuel c = .ok (v, c'))
    (hcomma : c'.skipSpace.rest = ',' :: rest)
    (hitems : readItems fuel (c'.skipSpace.drop 1).skipSpace = .ok (vs, c'')) :
    readItems (fuel + 1) c = .ok (v :: vs, c'') := by
  simp only [readItems, bind, Except.bind, hvalue, hcomma, hitems]

/-- From a place on the reader finds a name, a colon and a value. -/
structure ReadsMember (fuel : Nat) (c : Cursor) (m : String × Json) (c' : Cursor) : Prop where
  quote : ∃ ds, c.rest = '\x22' :: ds
  member : ∃ d ds, readString c = .ok (m.1, d) ∧ d.skipSpace.rest = ':' :: ds ∧
    readValue fuel (d.skipSpace.drop 1).skipSpace = .ok (m.2, c')

theorem readMembers_last {m : String × Json} (h : ReadsMember fuel c m c') (hend : c'.skipSpace.rest = '\x7d' :: rest) :
    readMembers (fuel + 1) c = .ok ([m], c'.skipSpace.drop 1) := by
  obtain ⟨⟨_, hquote⟩, d, _, hname, hcolon, hvalue⟩ := h
  simp only [readMembers, hquote, bind, Except.bind, hname, hcolon, hvalue, hend]

theorem readMembers_more {m : String × Json} {ms : List (String × Json)} {c'' : Cursor}
    (h : ReadsMember fuel c m c') (hcomma : c'.skipSpace.rest = ',' :: rest)
    (hmembers : readMembers fuel (c'.skipSpace.drop 1).skipSpace = .ok (ms, c'')) :
    readMembers (fuel + 1) c = .ok (m :: ms, c'') := by
  obtain ⟨⟨_, hquote⟩, d, _, hname, hcolon, hvalue⟩ := h
  simp only [readMembers, hquote, bind, Except.bind, hname, hcolon, hvalue, hcomma, hmembers]

end

/-! ### Whole texts -/

theorem SpellsItems.exists_append {cs : List Char} {vs : List Json} (h : SpellsItems cs vs) :
    ∃ as c ds, cs = as ++ c :: ds ∧ Blanks as ∧ opens c = true := by
  cases h with
  | last has h _ | more has h _ _ =>
    obtain ⟨c, ds, rfl, hc⟩ := h.exists_cons
    exact ⟨_, c, _, rfl, has, hc⟩

theorem SpellsMembers.exists_append {cs : List Char} {ms : List (String × Json)} (h : SpellsMembers cs ms) :
    ∃ as ds, cs = as ++ '\x22' :: ds ∧ Blanks as := by
  cases h with
  | last has h _ | more has h _ _ =>
    obtain ⟨ds, rfl⟩ := h.exists_cons
    exact ⟨_, _, rfl, has⟩

/-- Blanks in front of a value are skipped. -/
theorem skipSpace_append {as cs : List Char} (has : Blanks as) (hcs : ∃ c ds, cs = c :: ds ∧ opens c = true)
    (rest : List Char) (offset : Nat) :
    Cursor.skipSpace ⟨as ++ (cs ++ rest), offset⟩ = ⟨cs ++ rest, offset + as.length⟩ := by
  obtain ⟨c, ds, rfl, hc⟩ := hcs
  exact skipSpace_blanks has (isSpace_of_opens hc) (ds ++ rest) offset

theorem exists_fuel {n fuel : Nat} (h : n + 1 ≤ fuel) : ∃ m, fuel = m + 1 ∧ n ≤ m :=
  ⟨fuel - 1, by omega, by omega⟩

mutual
/-- The reader finds a value in each of its texts, and stands behind it. -/
theorem Spells.read {cs : List Char} {v : Json} :
    Spells cs v → ∀ {rest : List Char}, Stops rest → ∀ {fuel : Nat}, cs.length ≤ fuel → ∀ offset : Nat,
      readValue fuel ⟨cs ++ rest, offset⟩ = .ok (v, ⟨rest, offset + cs.length⟩)
  | .scalar hv htext, rest, hrest, fuel, hfuel, offset => by
    obtain ⟨c, ds, hcons, -⟩ := hv.reads.opens
    have hlength : ds.length + 1 ≤ fuel := by
      rw [htext, hcons] at hfuel
      exact hfuel
    obtain ⟨fuel, rfl, -⟩ := exists_fuel hlength
    rw [htext]
    exact readValue_scalar hv.reads hrest
  | .string htext, rest, _, fuel, hfuel, offset => by
    rw [htext, toList_stringText] at hfuel
    obtain ⟨fuel, rfl, -⟩ := exists_fuel hfuel
    rw [htext]
    exact readValue_string _
  | .emptyArray hbs, rest, _, fuel, hfuel, offset => by
    obtain ⟨fuel, rfl, -⟩ := exists_fuel hfuel
    have hskip := skipSpace_blanks hbs (c := ']') rfl rest (offset + 1)
    rw [List.cons_append, List.append_assoc, List.singleton_append, readValue_emptyArray (by rw [hskip]), hskip]
    simp [Cursor.drop]
    omega
  | .array h, rest, hrest, fuel, hfuel, offset => by
    obtain ⟨fuel, rfl, hle⟩ := exists_fuel hfuel
    have hitems := h.read rest hle (offset + 1)
    obtain ⟨as, c, ds, rfl, has, hc⟩ := h.exists_append
    have hitem : ∀ es, (Cursor.skipSpace ⟨as ++ c :: ds ++ rest, offset + 1⟩).rest ≠ ']' :: es := fun es => by
      rw [List.append_assoc, List.cons_append, skipSpace_blanks has (isSpace_of_opens hc)]
      exact fun heq => ne_of_opens hc rfl (List.cons.inj heq).1
    rw [List.cons_append, readValue_array hitem hitems, List.length_cons, Nat.add_right_comm, Nat.add_assoc]
  | .emptyObject hbs, rest, _, fuel, hfuel, offset => by
    obtain ⟨fuel, rfl, -⟩ := exists_fuel hfuel
    have hskip := skipSpace_blanks hbs (c := '\x7d') rfl rest (offset + 1)
    rw [List.cons_append, List.append_assoc, List.singleton_append, readValue_emptyObject (by rw [hskip]), hskip]
    simp [Cursor.drop]
    omega
  | .object h hnames, rest, hrest, fuel, hfuel, offset => by
    obtain ⟨fuel, rfl, hle⟩ := exists_fuel hfuel
    have hmembers := h.read rest hle (offset + 1)
    obtain ⟨as, ds, rfl, has⟩ := h.exists_append
    have hmember : ∀ es, (Cursor.skipSpace ⟨as ++ '\x22' :: ds ++ rest, offset + 1⟩).rest ≠ '\x7d' :: es := fun es => by
      rw [List.append_assoc, List.cons_append, skipSpace_blanks has rfl]
      exact fun heq => absurd (List.cons.inj heq).1 (by decide)
    rw [List.cons_append, readValue_object hmember hmembers, Assoc.ofList_eq_self hnames, List.length_cons,
      Nat.add_right_comm, Nat.add_assoc]

theorem SpellsItems.read {cs : List Char} {vs : List Json} :
    SpellsItems cs vs → ∀ (rest : List Char) {fuel : Nat}, cs.length ≤ fuel → ∀ offset : Nat,
      readItems fuel (Cursor.skipSpace ⟨cs ++ rest, offset⟩) = .ok (vs, ⟨rest, offset + cs.length⟩)
  | @SpellsItems.last as bs cs v has h hbs, rest, fuel, hfuel, offset => by
    simp only [List.length_append, List.length_singleton] at hfuel
    obtain ⟨fuel, rfl, hle⟩ := exists_fuel (show cs.length + 1 ≤ fuel by omega)
    have hvalue := h.read ((stops_cons (c := ']') rfl rest).blanks hbs) hle (offset + as.length)
    have hend := skipSpace_blanks hbs (c := ']') rfl rest (offset + as.length + cs.length)
    simp only [List.append_assoc, List.singleton_append, skipSpace_append has h.exists_cons]
    rw [readItems_last hvalue (by rw [hend]), hend]
    simp [Cursor.drop]
    omega
  | @SpellsItems.more as bs cs ds v vs has h hbs hmore, rest, fuel, hfuel, offset => by
    simp only [List.length_append, List.length_cons] at hfuel
    obtain ⟨fuel, rfl, hle⟩ := exists_fuel (show cs.length + 1 ≤ fuel by omega)
    have hvalue := h.read ((stops_cons (c := ',') rfl (ds ++ rest)).blanks hbs) hle (offset + as.length)
    have hcomma := skipSpace_blanks hbs (c := ',') rfl (ds ++ rest) (offset + as.length + cs.length)
    have hitems := hmore.read rest (show ds.length ≤ fuel by omega) (offset + as.length + cs.length + bs.length + 1)
    simp only [List.append_assoc, List.cons_append, skipSpace_append has h.exists_cons]
    rw [readItems_more hvalue (by rw [hcomma]) (by rw [hcomma]; exact hitems)]
    simp only [List.length_append, List.length_cons]
    congr 3
    omega

theorem SpellsMembers.read {cs : List Char} {ms : List (String × Json)} :
    SpellsMembers cs ms → ∀ (rest : List Char) {fuel : Nat}, cs.length ≤ fuel → ∀ offset : Nat,
      readMembers fuel (Cursor.skipSpace ⟨cs ++ rest, offset⟩) = .ok (ms, ⟨rest, offset + cs.length⟩)
  | @SpellsMembers.last as bs cs m has h hbs, rest, fuel, hfuel, offset => by
    simp only [List.length_append, List.length_singleton] at hfuel
    obtain ⟨fuel, rfl, hle⟩ := exists_fuel (show cs.length + 1 ≤ fuel by omega)
    have hmember := h.read ((stops_cons (c := '\x7d') rfl rest).blanks hbs) hle (offset + as.length)
    have hend := skipSpace_blanks hbs (c := '\x7d') rfl rest (offset + as.length + cs.length)
    simp only [List.append_assoc, List.singleton_append, skipSpace_append has h.opens]
    rw [readMembers_last hmember (by rw [hend]), hend]
    simp [Cursor.drop]
    omega
  | @SpellsMembers.more as bs cs ds m ms has h hbs hmore, rest, fuel, hfuel, offset => by
    simp only [List.length_append, List.length_cons] at hfuel
    obtain ⟨fuel, rfl, hle⟩ := exists_fuel (show cs.length + 1 ≤ fuel by omega)
    have hmember := h.read ((stops_cons (c := ',') rfl (ds ++ rest)).blanks hbs) hle (offset + as.length)
    have hcomma := skipSpace_blanks hbs (c := ',') rfl (ds ++ rest) (offset + as.length + cs.length)
    have hmembers := hmore.read rest (show ds.length ≤ fuel by omega) (offset + as.length + cs.length + bs.length + 1)
    simp only [List.append_assoc, List.cons_append, skipSpace_append has h.opens]
    rw [readMembers_more hmember (by rw [hcomma]) (by rw [hcomma]; exact hmembers)]
    simp only [List.length_append, List.length_cons]
    congr 3
    omega

theorem SpellsMember.read {cs : List Char} {m : String × Json} :
    SpellsMember cs m → ∀ {rest : List Char}, Stops rest → ∀ {fuel : Nat}, cs.length ≤ fuel → ∀ offset : Nat,
      ReadsMember fuel ⟨cs ++ rest, offset⟩ m ⟨rest, offset + cs.length⟩
  | @SpellsMember.mk ks as bs cs k v htext has hbs h, rest, hrest, fuel, hfuel, offset => by
    simp only [List.length_append, List.length_cons] at hfuel
    have hname := readString_stringText k (as ++ ':' :: (bs ++ (cs ++ rest))) offset
    have hcolon := skipSpace_blanks has (c := ':') rfl (bs ++ (cs ++ rest)) (offset + ks.length)
    have hvalue := h.read hrest (show cs.length ≤ fuel by omega) (offset + ks.length + as.length + 1 + bs.length)
    rw [← htext] at hname
    refine ⟨?_, ⟨as ++ ':' :: (bs ++ (cs ++ rest)), offset + ks.length⟩, bs ++ (cs ++ rest), ?_, ?_, ?_⟩
    · exact ⟨_, by rw [htext, toList_stringText]; rfl⟩
    · simpa using hname
    · rw [hcolon]
    · rw [hcolon]
      show readValue fuel (Cursor.skipSpace ⟨bs ++ (cs ++ rest), offset + ks.length + as.length + 1⟩) = _
      rw [skipSpace_append hbs h.exists_cons, hvalue]
      simp only [List.length_append, List.length_cons]
      congr 3
      omega
end

/-- A text of a value is read as the value. -/
theorem read_of_spells {text : String} {v : Json} (h : Spells text.toList v) : Json.read text = .ok v := by
  have hvalue := h.read stops_nil (show text.toList.length ≤ 2 * text.toList.length + 2 by omega) 0
  obtain ⟨c, ds, hcons, hc⟩ := h.exists_cons
  have hskip : Cursor.skipSpace ⟨text.toList, 0⟩ = ⟨text.toList, 0⟩ := by
    rw [hcons]
    exact skipSpace_blanks blanks_nil (isSpace_of_opens hc) ds 0
  rw [List.append_nil] at hvalue
  unfold Json.read
  dsimp only
  split
  · next heq =>
    rw [hcons] at heq
    exact absurd (List.cons.inj heq).1 (ne_of_opens hc rfl)
  · rw [hskip, hvalue]
    rfl

end Json
end TypedImp
