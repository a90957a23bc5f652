import Mathlib.Order.Bounds.Defs
import TypedImp.Proofs.Grammar.Lexing
import TypedImp.Proofs.Grammar.Pattern

/-! The scanner and the expressions of the terminals read the same texts. Blanks and comments are skipped as far as the
    ignored terminals match one after the other; a number, a word, a character or a string is read where its terminal
    matches, and to the same end. -/

namespace TypedImp
namespace Grammar
open Scanner (Finds Spells NotAhead isIdentStart isIdentChar triviaLength)

/-! ### Blanks and comments -/

/-- At the front of a text ignored terminals match one after the other, so many characters in all. -/
inductive IgnoredRun : List Char → Nat → Prop
  | nil {cs : List Char} : IgnoredRun cs 0
  | cons {t : Terminal} {cs : List Char} {k n : Nat} :
      t.isIgnored = true → t.pattern.matchLength? cs = some k → IgnoredRun (cs.drop k) n → IgnoredRun cs (k + n)

theorem IgnoredRun.le {cs : List Char} {n : Nat} (h : IgnoredRun cs n) : n ≤ triviaLength .between cs := by
  induction h with
  | nil => exact Nat.zero_le _
  | cons hignored hmatch _ ih =>
    rw [Terminal.matchLength?_pattern] at hmatch
    obtain ⟨-, htrivia⟩ := triviaLength_ignored hignored hmatch
    omega

theorem ignoredRun_triviaLength (s : Scanner) : IgnoredRun s.rest (triviaLength .between s.rest) := by
  induction s using skip_induction with
  | hclear s h =>
    rw [triviaLength_clear h]
    exact .nil
  | hskip s t n hignored hn ih =>
    rw [(triviaLength_ignored hignored hn).2]
    rw [Scanner.rest_advance] at ih
    exact .cons hignored (by rw [Terminal.matchLength?_pattern, hn]) ih

/-- The scanner skips the longest run of ignored terminals. -/
theorem isGreatest_triviaLength (s : Scanner) : IsGreatest {n | IgnoredRun s.rest n} (triviaLength .between s.rest) :=
  ⟨ignoredRun_triviaLength s, fun _ h => IgnoredRun.le h⟩

/-! ### Tokens -/

/-- The terminal matches in front of the scanner, and what was read is what the match writes, to the same end. -/
def Cuts (t : Terminal) (s : Scanner) (r : Token × Scanner) : Prop :=
  ∃ n, t.pattern.matchLength? s.rest = some n ∧ r.2 = s.advance n ∧
    r.1.text = (Lexeme.mk t (String.ofList (s.rest.take n)) s.position).content

/-- The terminal matches where a token of the kind was read, and only there. -/
def Coincides (t : Terminal) (k : Token.Kind) (s : Scanner) (r : Token × Scanner) : Prop :=
  if r.1.kind = k then Cuts t s r else t.pattern.matchLength? s.rest = none

section
variable {s : Scanner} {k : Token.Kind} {raw rest : List Char} {text : String} {c : Char} {cs : List Char}

theorem cuts_of_spells (hs : s.rest = raw ++ rest) (h : Spells k raw text rest) (hk : k ∉ Token.Kind.keywords) :
    Cuts k.terminal s (⟨k, text, s.position⟩, s.advance raw.length) := by
  have hmatch := Terminal.matchLength?_matched h
  rw [Token.Kind.matched, if_neg hk] at hmatch
  refine ⟨raw.length, by rw [Terminal.matchLength?_pattern, hs, hmatch], rfl, ?_⟩
  rw [hs, List.take_left]
  exact (writes_of_spells h s.position s.position).content.symm

/-- A spelled token begins as its kind says. -/
theorem familyOf_of_spells (hs : s.rest = c :: cs) (hraw : s.rest = raw ++ rest) (h : Spells k raw text rest) :
    Terminal.familyOf c = some k.matched.family := by
  have hmatch := Terminal.matchLength?_matched h
  rw [← hraw, hs] at hmatch
  exact Terminal.familyOf_of_match hmatch

/-- A quoted text is read where its terminal matches. -/
theorem coincides_quoted {r : Token × Scanner} (hs : s.rest = c :: cs) (hfamily : Terminal.familyOf c = some k.terminal)
    (hk : k = .string ∨ k = .char) (hfinds : Finds s r)
    (hvalid : ∀ n, k.terminal.matchLength? s.rest = some n → r.1.kind ≠ .invalid) : Coincides k.terminal k s r := by
  cases hfinds with
  | eof hnil => exact absurd (hs.symm.trans hnil) (List.cons_ne_nil c cs)
  | @token k' raw text rest hraw hspells =>
    have hmatched : k'.matched.family = k.terminal := by
      have := (familyOf_of_spells hs hraw hspells).symm.trans hfamily
      exact Option.some.inj this
    have heq : k' = k := by
      rcases hk with rfl | rfl <;> revert hmatched <;> cases k' <;> decide
    subst heq
    have hword : k' ∉ Token.Kind.keywords := by rcases hk with rfl | rfl <;> decide
    rw [Coincides, if_pos rfl]
    exact cuts_of_spells hraw hspells hword
  | fault =>
    have hne : Token.Kind.invalid ≠ k := by rcases hk with rfl | rfl <;> decide
    rw [Coincides, if_neg hne, Terminal.matchLength?_pattern]
    exact Option.eq_none_iff_forall_ne_some.mpr fun n hn => hvalid n hn rfl

theorem coincides_string (hs : s.rest = '\x22' :: cs) : Coincides .string .string s s.readString :=
  coincides_quoted (k := .string) hs rfl (.inl rfl) (Scanner.readString_finds hs) fun _ => Terminal.readString_valid

theorem coincides_char (hs : s.rest = '\x27' :: cs) : Coincides .char .char s s.readChar :=
  coincides_quoted (k := .char) hs rfl (.inr rfl) (Scanner.readChar_finds hs) fun _ => Terminal.readChar_valid

/-- No number with a point stands where the scanner finds an integer. -/
theorem floatLength?_of_integer (h : Spells k raw text rest) (hk : k = .integer) :
    Terminal.floatLength? (raw ++ rest) = none := by
  cases h with
  | integer hne hdigits hrest hpoint => exact Terminal.floatLength?_none hne hdigits hrest hpoint
  | word =>
    rcases Scanner.wordKind_cases (String.ofList _) with ⟨hkind, -⟩ | ⟨hkind, -⟩ | hkind
    · exact nomatch hkind.symm.trans hk
    · rw [hk] at hkind
      exact absurd hkind (by decide)
    · exact nomatch hkind.symm.trans hk
  | pair hpair =>
    subst hk
    exact absurd hpair (by decide)
  | single hsingle =>
    subst hk
    exact absurd hsingle (by decide)
  | _ => exact nomatch hk

/-- A number is read where the terminal of numbers with a point matches, and otherwise where that of integers does. -/
theorem coincides_number (hs : s.rest = c :: cs) (hc : Text.isAsciiDigit c = true) :
    Coincides .float .float s s.readNumber ∧
      (s.readNumber.1.kind ≠ .float → s.readNumber.1.kind = .integer ∧ Cuts .int s s.readNumber) := by
  have hfinds := Scanner.readNumber_finds hs hc
  have hvalid := Terminal.readNumber_valid s
  generalize s.readNumber = r at *
  cases hfinds with
  | eof hnil => exact absurd (hs.symm.trans hnil) (List.cons_ne_nil c cs)
  | fault => exact absurd rfl hvalid
  | @token k raw text rest hraw hspells =>
    have hfamily := (familyOf_of_spells hs hraw hspells).symm.trans (Terminal.familyOf_digit hc)
    have hk : k = .integer ∨ k = .float := by
      have := Option.some.inj hfamily
      revert this
      cases k <;> decide
    rcases hk with rfl | rfl
    · have hne : Token.Kind.integer ≠ .float := nofun
      refine ⟨?_, fun _ => ⟨rfl, cuts_of_spells hraw hspells (by decide)⟩⟩
      rw [Coincides, if_neg hne, Terminal.matchLength?_pattern, hraw]
      exact floatLength?_of_integer hspells rfl
    · refine ⟨?_, fun h => absurd rfl h⟩
      rw [Coincides, if_pos rfl]
      exact cuts_of_spells hraw hspells (by decide)

theorem word_of_boolean {word : String} (h : Scanner.wordKind word = .boolean) : word = "true" ∨ word = "false" := by
  rcases Scanner.wordKind_cases word with ⟨-, htext⟩ | ⟨hkeyword, -⟩ | hident
  · exact htext
  · rw [h] at hkeyword
    exact absurd hkeyword (by decide)
  · cases hident.symm.trans h

/-- What is neither a character nor a string is written as it is. -/
theorem cuts_of_plain {t : Terminal} (hs : s.rest = raw ++ rest) (hchar : t ≠ .char) (hstring : t ≠ .string)
    (hmatch : t.matchLength? (raw ++ rest) = some raw.length) (k : Token.Kind) :
    Cuts t s (⟨k, String.ofList raw, s.position⟩, s.advance raw.length) := by
  refine ⟨raw.length, by rw [Terminal.matchLength?_pattern, hs, hmatch], rfl, ?_⟩
  rw [Lexeme.content_of_plain hchar hstring, hs, List.take_left]

theorem readIdentifier_eq (hs : s.rest = c :: cs) (hc : isIdentStart c = true) :
    ∃ word rest, s.rest = (c :: word) ++ rest ∧ (∀ d ∈ c :: word, isIdentChar d = true) ∧ NotAhead isIdentChar rest ∧
      s.readIdentifier = (⟨Scanner.wordKind (String.ofList (c :: word)), String.ofList (c :: word), s.position⟩,
        s.advance (c :: word).length) := by
  have hword : s.rest.takeWhile isIdentChar = c :: cs.takeWhile isIdentChar := by
    rw [hs, List.takeWhile_cons_of_pos (by simp [isIdentChar, hc])]
  refine ⟨cs.takeWhile isIdentChar, s.rest.dropWhile isIdentChar, ?_, ?_, ?_, ?_⟩
  · rw [← hword, List.takeWhile_append_dropWhile]
  · rw [← hword]
    exact fun d hd => List.mem_takeWhile_imp hd
  · exact Scanner.notAhead_dropWhile isIdentChar s.rest
  · rw [Scanner.readIdentifier, hword]

/-- A word is read where the terminal of names matches, and it is a truth value where that terminal matches too. -/
theorem coincides_word (hs : s.rest = c :: cs) (hc : isIdentStart c = true) :
    Coincides .bool .boolean s s.readIdentifier ∧ Cuts .name s s.readIdentifier := by
  obtain ⟨word, rest, hsplit, hchars, hrest, hread⟩ := readIdentifier_eq hs hc
  rw [hread]
  constructor
  · by_cases hkind : Scanner.wordKind (String.ofList (c :: word)) = .boolean
    · have hmatch := Terminal.boolLength?_append (word_of_boolean hkind) hrest
      rw [String.toList_ofList] at hmatch
      rw [Coincides, if_pos hkind]
      exact cuts_of_plain (t := .bool) hsplit (by decide) (by decide) hmatch _
    · rw [Coincides, if_neg hkind, Terminal.matchLength?_pattern, hsplit]
      refine Option.eq_none_iff_forall_ne_some.mpr fun n hn => hkind ?_
      rcases Terminal.word_of_boolLength? hchars hrest hn with htrue | hfalse
      · rw [htrue]
        rfl
      · rw [hfalse]
        rfl
  · have hmatch := Terminal.nameLength?_append hc (fun d hd => hchars d (List.mem_cons_of_mem c hd)) hrest
    exact cuts_of_plain (t := .name) hsplit (by decide) (by decide) hmatch _

end

/-- The terminals and the readers of the scanner read the same texts. -/
theorem terminals_read_alike (s : Scanner) :
    (∃ n, IsGreatest {n | IgnoredRun s.rest n} n ∧ s.skipTrivia = s.advance n) ∧
      ∀ c cs, s.rest = c :: cs →
        (c = '\x22' → Coincides .string .string s s.readString) ∧
        (c = '\x27' → Coincides .char .char s s.readChar) ∧
        (Text.isAsciiDigit c = true → Coincides .float .float s s.readNumber ∧
          (s.readNumber.1.kind ≠ .float → s.readNumber.1.kind = .integer ∧ Cuts .int s s.readNumber)) ∧
        (isIdentStart c = true → Coincides .bool .boolean s s.readIdentifier ∧ Cuts .name s s.readIdentifier) := by
  refine ⟨⟨triviaLength .between s.rest, isGreatest_triviaLength s, rfl⟩, fun c cs hs => ⟨?_, ?_, ?_, ?_⟩⟩
  · rintro rfl
    exact coincides_string hs
  · rintro rfl
    exact coincides_char hs
  · exact coincides_number hs
  · exact coincides_word hs

/-- A number that ends in its point, in front of a comment that is not closed. -/
theorem pointedNumber_read_alike :
    Coincides .float .float (Scanner.ofText "1./*") (Scanner.ofText "1./*").readNumber ∧
      (Scanner.ofText "1./*").readNumber.1.text = "1." ∧
      ∃ n, IsGreatest {n | IgnoredRun ['/', '*'] n} n := by
  have hread := (terminals_read_alike (Scanner.ofText "1./*")).2 '1' ['.', '/', '*'] (by decide +kernel)
  have hcomment := (terminals_read_alike ⟨['/', '*'], 2, ⟨1, 3⟩⟩).1
  exact ⟨(hread.2.2.1 rfl).1, by decide +kernel, hcomment.imp fun _ h => h.1⟩

end Grammar
end TypedImp
