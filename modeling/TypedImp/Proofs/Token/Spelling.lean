import Mathlib.Data.List.TakeWhile
import TypedImp.Proofs.Syntax.Derivation

/-! How tokens are spelled. A spelling is a row of characters in front of some rest that is cut off as one
    token; the rest matters, because a token is never followed by what could continue it. The scanner
    finds nothing but trivia, spelled tokens, the end of the text and faults. -/

namespace TypedImp
namespace Scanner
open Token (AreDigits)

/-! ### Moving on -/

theorem rest_advance (n : Nat) (s : Scanner) : (s.advance n).rest = s.rest.drop n := by
  induction n generalizing s with
  | zero => rfl
  | succ n ih =>
    unfold advance
    split
    · next h => simp [h]
    · next c cs h => rw [ih, h, List.drop_succ_cons]

theorem advance_advance (m n : Nat) (s : Scanner) : (s.advance m).advance n = s.advance (m + n) := by
  induction m generalizing s with
  | zero => simp [advance]
  | succ m ih =>
    rw [Nat.succ_add, advance, advance]
    split
    · next h =>
      cases n with
      | zero => rfl
      | succ n => rw [advance, h]
    · exact ih _

/-- No character of a class stands in front. -/
def NotAhead (p : Char → Bool) (cs : List Char) : Prop := ∀ c ∈ cs.head?, p c = false

theorem notAhead_dropWhile (p : Char → Bool) (cs : List Char) : NotAhead p (cs.dropWhile p) := by
  intro c hc
  have := List.head?_dropWhile_not p cs
  rw [Option.mem_def.mp hc] at this
  simpa using this

theorem takeWhile_append_of_notAhead {p : Char → Bool} {cs rest : List Char} (h : ∀ c ∈ cs, p c = true)
    (hr : NotAhead p rest) : (cs ++ rest).takeWhile p = cs := by
  rw [List.takeWhile_append_of_pos h]
  cases rest with
  | nil => simp
  | cons c rest =>
    rw [List.takeWhile_cons_of_neg (by simpa using hr c rfl), List.append_nil]

/-! ### Spellings -/

/-- The characters `raw` in front of `rest` are a token of kind `k` with the text `text`. -/
inductive Spells : Token.Kind → List Char → String → List Char → Prop
  | integer {raw rest : List Char} : raw ≠ [] → AreDigits raw → NotAhead Text.isAsciiDigit rest →
      NotAhead (· == '.') rest → Spells .integer raw (String.ofList raw) rest
  | float {whole fraction rest : List Char} : whole ≠ [] → AreDigits whole → AreDigits fraction →
      NotAhead Text.isAsciiDigit rest →
      Spells .float (whole ++ '.' :: fraction) (String.ofList (whole ++ '.' :: fraction)) rest
  | word {c : Char} {cs rest : List Char} : isIdentStart c = true → (∀ d ∈ cs, isIdentChar d = true) →
      NotAhead isIdentChar rest →
      Spells (wordKind (String.ofList (c :: cs))) (c :: cs) (String.ofList (c :: cs)) rest
  | char {c : Char} {rest : List Char} : c ≠ '\n' → c ≠ '\x27' →
      Spells .char ['\x27', c, '\x27'] (String.singleton c) rest
  | string {raw content rest : List Char} :
      stringContent (raw ++ '\x22' :: rest) = some (content, raw.length) →
      Spells .string ('\x22' :: (raw ++ ['\x22'])) (String.ofList content) rest
  | pair {k : Token.Kind} {rest : List Char} : k ∈ Token.Kind.pairs → Spells k k.text.toList k.text rest
  | single {k : Token.Kind} {rest : List Char} : k ∈ Token.Kind.singles →
      symbolKind? Token.Kind.pairs (String.ofList ((k.text.toList ++ rest).take 2)) = none →
      Spells k k.text.toList k.text rest

/-- What the scanner finds in front of a text that no trivia begins: the end, a spelled token or a fault. -/
inductive Finds (s : Scanner) : Token × Scanner → Prop
  | eof : s.rest = [] → Finds s (⟨.eof, "", s.position⟩, s)
  | token {k : Token.Kind} {raw : List Char} {text : String} (rest : List Char) :
      s.rest = raw ++ rest → Spells k raw text rest → Finds s (⟨k, text, s.position⟩, s.advance raw.length)
  | fault {text : String} {s' : Scanner} : Finds s (⟨.invalid, text, s.position⟩, s')

/-! ### The readers find spelled tokens -/

theorem readNumber_finds {s : Scanner} {c : Char} {cs : List Char} (hs : s.rest = c :: cs)
    (hc : Text.isAsciiDigit c = true) : Finds s s.readNumber := by
  have hwhole : AreDigits (s.rest.takeWhile Text.isAsciiDigit) := fun d hd => List.mem_takeWhile_imp hd
  have hne : s.rest.takeWhile Text.isAsciiDigit ≠ [] := by
    rw [hs, List.takeWhile_cons_of_pos hc]
    exact List.cons_ne_nil _ _
  have hsplit := List.takeWhile_append_dropWhile (p := Text.isAsciiDigit) (l := s.rest)
  have hdrop : s.rest.drop (s.rest.takeWhile Text.isAsciiDigit).length = s.rest.dropWhile Text.isAsciiDigit := by
    have hleft : (s.rest.takeWhile Text.isAsciiDigit ++ s.rest.dropWhile Text.isAsciiDigit).drop
        (s.rest.takeWhile Text.isAsciiDigit).length = s.rest.dropWhile Text.isAsciiDigit := List.drop_left
    rwa [hsplit] at hleft
  have hstop := notAhead_dropWhile Text.isAsciiDigit s.rest
  unfold readNumber numberLexeme
  dsimp only
  rw [hdrop]
  split
  · next rest hrest =>
    have hfraction : AreDigits (rest.takeWhile Text.isAsciiDigit) := fun d hd => List.mem_takeWhile_imp hd
    refine .token (rest.dropWhile Text.isAsciiDigit) ?_
      (.float hne hwhole hfraction (notAhead_dropWhile _ _))
    rw [List.append_assoc, List.cons_append, List.takeWhile_append_dropWhile, ← hrest, hsplit]
  · next hpoint =>
    refine .token _ hsplit.symm (.integer hne hwhole hstop fun d hd => ?_)
    obtain ⟨es, hes⟩ := List.head?_eq_some_iff.mp (Option.mem_def.mp hd)
    rw [beq_eq_false_iff_ne]
    rintro rfl
    exact hpoint es hes

theorem readIdentifier_finds {s : Scanner} {c : Char} {cs : List Char} (hs : s.rest = c :: cs)
    (hc : isIdentStart c = true) : Finds s s.readIdentifier := by
  have hchar : isIdentChar c = true := by simp [isIdentChar, hc]
  have htake : s.rest.takeWhile isIdentChar = c :: cs.takeWhile isIdentChar := by
    rw [hs, List.takeWhile_cons_of_pos hchar]
  unfold readIdentifier
  rw [htake]
  refine .token (cs.dropWhile isIdentChar) ?_
    (.word hc (fun d hd => List.mem_takeWhile_imp hd) (notAhead_dropWhile _ _))
  rw [hs, List.cons_append, List.takeWhile_append_dropWhile]

theorem readChar_finds {s : Scanner} {cs : List Char} (hs : s.rest = '\x27' :: cs) : Finds s s.readChar := by
  unfold readChar
  rw [hs, List.drop_succ_cons, List.drop_zero]
  cases cs with
  | nil => exact .fault
  | cons c cs =>
    dsimp only
    split
    · exact .fault
    · next hc =>
      simp only [Bool.or_eq_true, decide_eq_true_eq, not_or] at hc
      split
      · next hq =>
        obtain ⟨rest, rfl⟩ := List.head?_eq_some_iff.mp hq
        exact .token rest hs (.char hc.1 hc.2)
      · exact .fault

/-- The content of a string ends in front of a double quote. -/
theorem stringContent_split {cs content : List Char} {n : Nat} (h : stringContent cs = some (content, n)) :
    ∃ raw rest, cs = raw ++ '\x22' :: rest ∧ raw.length = n := by
  fun_induction stringContent cs generalizing content n with
  | case1 => cases h
  | case2 cs =>
    cases h
    exact ⟨[], cs, rfl, rfl⟩
  | case3 hc cs ih =>
    obtain ⟨⟨content', n'⟩, h', heq⟩ := Option.map_eq_some_iff.mp h
    cases heq
    obtain ⟨raw, rest, rfl, rfl⟩ := ih h'
    exact ⟨'\\' :: '\x22' :: raw, rest, rfl, rfl⟩
  | case4 cs hc hq ih =>
    obtain ⟨⟨content', n'⟩, h', heq⟩ := Option.map_eq_some_iff.mp h
    cases heq
    obtain ⟨raw, rest, rfl, rfl⟩ := ih h'
    exact ⟨'\\' :: raw, rest, rfl, rfl⟩
  | case5 c cs hc hb ih =>
    obtain ⟨⟨content', n'⟩, h', heq⟩ := Option.map_eq_some_iff.mp h
    cases heq
    obtain ⟨raw, rest, rfl, rfl⟩ := ih h'
    exact ⟨c :: raw, rest, rfl, rfl⟩

theorem readString_finds {s : Scanner} {cs : List Char} (hs : s.rest = '\x22' :: cs) : Finds s s.readString := by
  unfold readString
  rw [hs, List.drop_succ_cons, List.drop_zero]
  split
  · exact .fault
  · next content n h =>
    obtain ⟨raw, rest, rfl, rfl⟩ := stringContent_split h
    have hraw : ('\x22' :: (raw ++ ['\x22'])).length = raw.length + 2 := by simp
    rw [← hraw]
    exact .token rest (by rw [hs]; simp) (.string h)

theorem symbolKind?_eq_some {kinds : List Token.Kind} {lexeme : String} {k : Token.Kind}
    (h : symbolKind? kinds lexeme = some k) : k ∈ kinds ∧ lexeme = k.text := by
  have htext := List.find?_some h
  exact ⟨List.mem_of_find?_eq_some h, (beq_iff_eq.mp htext).symm⟩

theorem length_pair {k : Token.Kind} (h : k ∈ Token.Kind.pairs) : k.text.toList.length = 2 := by
  revert k
  decide

theorem length_single {k : Token.Kind} (h : k ∈ Token.Kind.singles) : k.text.toList.length = 1 := by
  revert k
  decide

theorem readSymbol_finds (s : Scanner) : Finds s s.readSymbol := by
  unfold readSymbol
  dsimp only
  split
  · next k h =>
    obtain ⟨hk, htext⟩ := symbolKind?_eq_some h
    have hraw : s.rest.take 2 = k.text.toList := by rw [← htext, String.toList_ofList]
    rw [htext, ← length_pair hk]
    refine .token (s.rest.drop 2) ?_ (.pair hk)
    rw [← hraw, List.take_append_drop]
  · next hpair =>
    split
    · next k h =>
      obtain ⟨hk, htext⟩ := symbolKind?_eq_some h
      have hraw : s.rest.take 1 = k.text.toList := by rw [← htext, String.toList_ofList]
      have hrest : s.rest = k.text.toList ++ s.rest.drop 1 := by rw [← hraw, List.take_append_drop]
      rw [htext, ← length_single hk]
      refine .token _ hrest (.single hk ?_)
      rw [← hrest]
      exact hpair
    · exact .fault

/-! ### The scanner finds spelled tokens -/

theorem next_finds (s : Scanner) : Finds s.skipTrivia s.next := by
  unfold next
  dsimp only
  split
  · next h => exact .eof h
  · next c cs h =>
    split
    · next hc => exact readNumber_finds h hc
    · split
      · next hc => exact readIdentifier_finds h hc
      · split
        · next hc => exact readChar_finds (hc ▸ h)
        · split
          · next hc => exact readString_finds (hc ▸ h)
          · exact readSymbol_finds _

end Scanner
end TypedImp
