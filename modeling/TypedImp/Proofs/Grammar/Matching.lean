import TypedImp.Grammar.Lexeme
import TypedImp.Proofs.Token.Progress

/-! Which terminals match in front of a text. The first character of a lexeme determines the few terminals whose
    lexemes can begin so. In front of a spelled token only its own terminal matches, but for five cases: digits in
    front of a point are also an integer, the sign of equality begins with one of assignment, a truth value is
    also a name, and a word is one too and may begin with a keyword. -/

namespace TypedImp

/-- The terminal of the tokens of a kind. -/
def Token.Kind.terminal : Token.Kind → Grammar.Terminal
  | ifWord => .ifWord
  | elseWord => .elseWord
  | whileWord => .whileWord
  | forWord => .forWord
  | returnWord => .returnWord
  | varWord => .varWord
  | printWord => .printWord
  | inputWord => .inputWord
  | funcWord => .funcWord
  | integer => .int
  | float => .float
  | char => .char
  | boolean => .bool
  | string => .string
  | ident => .name
  | plus | minus => .additive
  | star | slash | percent => .multiplicative
  | assign => .equal
  | eq | ne => .equality
  | lt | le | gt | ge => .relational
  | and => .and
  | or => .or
  | lparen => .lparen
  | rparen => .rparen
  | lbrace => .lbrace
  | rbrace => .rbrace
  | comma => .comma
  | semicolon => .semicolon
  | colon => .colon
  | eof | invalid => .endOfText

/-- The terminal by which a token of the kind is cut off; a keyword is cut off as a name. -/
def Token.Kind.matched (k : Token.Kind) : Grammar.Terminal := if k ∈ keywords then .name else k.terminal

namespace Grammar
open Scanner (isIdentStart isIdentChar isSpace NotAhead Spells wordKind)

namespace Terminal

/-! ### Families -/

/-- The terminals whose lexemes can begin with the same characters, by one of them. -/
def family : Terminal → Terminal
  | int => float
  | bool => name
  | blockComment | lineComment => multiplicative
  | equal => equality
  | t => if t.keyword?.isSome then name else t

/-- The family of the lexemes that begin with a character. -/
def familyOf (c : Char) : Option Terminal :=
  if Text.isAsciiDigit c then some float
  else if isIdentStart c then some name
  else if isSpace c then some blank
  else
    match c with
    | '\x22' => some string
    | '\x27' => some char
    | '<' | '>' => some relational
    | '=' | '!' => some equality
    | '&' => some and
    | '|' => some or
    | '*' | '/' | '%' => some multiplicative
    | '+' | '-' => some additive
    | ':' => some colon
    | ',' => some comma
    | '\x7b' => some lbrace
    | '(' => some lparen
    | '\x7d' => some rbrace
    | ')' => some rparen
    | ';' => some semicolon
    | _ => none

variable {t : Terminal} {c : Char} {cs : List Char} {n : Nat}

theorem literalLength?_eq_some {texts : List String} (h : literalLength? texts cs = some n) :
    ∃ s ∈ texts, s.toList <+: cs ∧ s.length = n := by
  obtain ⟨s, hs, hn⟩ := Option.map_eq_some_iff.mp h
  have hprefix := List.find?_some hs
  exact ⟨s, List.mem_of_find?_eq_some hs, List.isPrefixOf_iff_prefix.mp hprefix, hn⟩

theorem familyOf_literal {texts : List String} {f : Terminal} (h : literalLength? texts (c :: cs) = some n)
    (hf : ∀ s ∈ texts, s.toList.head?.bind familyOf = some f) : familyOf c = some f := by
  obtain ⟨s, hs, ⟨ds, hds⟩, -⟩ := literalLength?_eq_some h
  have hs := hf s hs
  cases hlist : s.toList with
  | nil => simp [hlist] at hs
  | cons d es =>
    rw [hlist, List.cons_append] at hds
    rw [← (List.cons.inj hds).1]
    simpa [hlist] using hs

theorem familyOf_digit (h : Text.isAsciiDigit c = true) : familyOf c = some float := by
  unfold familyOf
  rw [if_pos h]

theorem not_digit_of_isIdentStart (h : isIdentStart c = true) : Text.isAsciiDigit c = false := by
  simp only [isIdentStart, Bool.or_eq_true, Bool.and_eq_true, decide_eq_true_eq, Char.le_def,
    UInt32.le_iff_toNat_le] at h
  rw [Bool.eq_false_iff]
  intro hd
  simp only [Text.isAsciiDigit, Bool.and_eq_true, decide_eq_true_eq, Char.le_def, UInt32.le_iff_toNat_le] at hd
  rcases h with (⟨h, -⟩ | ⟨h, -⟩) | rfl
  · have := Nat.le_trans h hd.2
    revert this
    decide
  · have := Nat.le_trans h hd.2
    revert this
    decide
  · revert hd
    decide

theorem familyOf_identStart (h : isIdentStart c = true) : familyOf c = some name := by
  unfold familyOf
  rw [not_digit_of_isIdentStart h, if_neg Bool.false_ne_true, if_pos h]

theorem familyOf_space (h : isSpace c = true) : familyOf c = some blank := by
  simp only [isSpace, Bool.or_eq_true, decide_eq_true_eq] at h
  rcases h with (((rfl | rfl) | rfl) | rfl) | rfl <;> decide

theorem rowLength?_eq_some {p : Char → Bool} (h : rowLength? p (c :: cs) = some n) : p c = true := by
  by_contra hc
  simp [rowLength?, hc] at h

/-- The lexeme of a terminal begins as its family says. -/
theorem familyOf_of_match (h : t.matchLength? (c :: cs) = some n) : familyOf c = some t.family := by
  cases t with
  | float =>
    obtain ⟨m, hm, -⟩ := Option.bind_eq_some_iff.mp h
    exact familyOf_digit (rowLength?_eq_some hm)
  | bool =>
    obtain ⟨m, hm, -⟩ := Option.bind_eq_some_iff.mp h
    exact familyOf_literal hm (by decide)
  | name =>
    simp only [matchLength?, nameLength?] at h
    split at h
    · next hc => exact familyOf_identStart hc
    · cases h
  | string =>
    simp only [matchLength?] at h
    unfold stringLength? at h
    split at h
    · next heq =>
      cases heq
      rfl
    · cases h
  | blockComment =>
    simp only [matchLength?] at h
    unfold blockCommentLength? at h
    split at h
    · next heq =>
      cases heq
      rfl
    · cases h
  | blank => exact familyOf_space (rowLength?_eq_some h)
  | lineComment =>
    simp only [matchLength?] at h
    unfold lineCommentLength? at h
    split at h
    · next heq =>
      cases heq
      rfl
    · cases h
  | int => exact familyOf_digit (rowLength?_eq_some h)
  | char =>
    simp only [matchLength?] at h
    unfold charLength? at h
    split at h
    · next heq =>
      cases heq
      rfl
    · cases h
  | endOfText => cases h
  | _ => exact familyOf_literal h (by decide)

/-! ### The terminal of a spelled token -/

theorem rowLength?_append {p : Char → Bool} {rest : List Char} (hne : cs ≠ []) (h : ∀ c ∈ cs, p c = true)
    (hrest : NotAhead p rest) : rowLength? p (cs ++ rest) = some cs.length := by
  unfold rowLength?
  rw [Scanner.takeWhile_append_of_notAhead h hrest]
  obtain ⟨c, cs, rfl⟩ := List.exists_cons_of_ne_nil hne
  rfl

theorem notAhead_point (fraction : List Char) : NotAhead Text.isAsciiDigit ('.' :: fraction) := by
  intro c hc
  cases hc
  decide

theorem floatLength?_append {whole fraction rest : List Char} (hne : whole ≠ []) (hwhole : Token.AreDigits whole)
    (hfraction : Token.AreDigits fraction) (hrest : NotAhead Text.isAsciiDigit rest) :
    floatLength? (whole ++ '.' :: fraction ++ rest) = some (whole ++ '.' :: fraction).length := by
  have hrow : rowLength? Text.isAsciiDigit (whole ++ '.' :: (fraction ++ rest)) = some whole.length :=
    rowLength?_append hne hwhole (notAhead_point _)
  unfold floatLength?
  rw [List.append_assoc, List.cons_append, hrow]
  simp only [Option.bind_eq_bind, Option.bind_some, List.drop_left,
    Scanner.takeWhile_append_of_notAhead hfraction hrest]
  simp [Nat.add_assoc, Nat.add_comm 1]

theorem nameLength?_append {rest : List Char} (hc : isIdentStart c = true) (hcs : ∀ d ∈ cs, isIdentChar d = true)
    (hrest : NotAhead isIdentChar rest) : nameLength? (c :: cs ++ rest) = some (c :: cs).length := by
  rw [List.cons_append, nameLength?, if_pos hc, Scanner.takeWhile_append_of_notAhead hcs hrest]
  rfl

theorem boolLength?_append {word : String} {rest : List Char} (hword : word = "true" ∨ word = "false")
    (hrest : NotAhead isIdentChar rest) : boolLength? (word.toList ++ rest) = some word.toList.length := by
  have hahead : ((rest.head?.map isIdentChar).getD false) = false := by
    cases rest with
    | nil => rfl
    | cons d rest => exact hrest d rfl
  rcases hword with rfl | rfl
  · have hliteral : literalLength? ["true", "false"] ("true".toList ++ rest) = some 4 := rfl
    have hdrop : ("true".toList ++ rest).drop 4 = rest := rfl
    simp only [boolLength?, hliteral, hdrop, Option.bind_eq_bind, Option.bind_some, hahead]
    rfl
  · have hliteral : literalLength? ["true", "false"] ("false".toList ++ rest) = some 5 := rfl
    have hdrop : ("false".toList ++ rest).drop 5 = rest := rfl
    simp only [boolLength?, hliteral, hdrop, Option.bind_eq_bind, Option.bind_some, hahead]
    rfl

theorem stringRest?_eq (cs : List Char) : stringRest? cs = (Scanner.stringContent cs).map fun r => r.2 + 1 := by
  fun_induction Scanner.stringContent cs with
  | case1 => rfl
  | case2 cs => simp [stringRest?.eq_def]
  | case3 hc cs ih => simp [stringRest?, ih, Function.comp_def]
  | case4 cs hc hq ih =>
    rw [stringRest?.eq_def]
    simp [ih, Function.comp_def]
  | case5 c cs hc hb ih =>
    rw [stringRest?.eq_def]
    simp [hc, hb, ih, Function.comp_def]

theorem literalLength?_skip {text : String} {texts : List String} (h : ¬ text.toList <+: cs) :
    literalLength? (text :: texts) cs = literalLength? texts cs := by
  unfold literalLength?
  rw [List.find?_cons_of_neg (by rwa [List.isPrefixOf_iff_prefix])]

/-- Where no operator of two characters begins, none is there. -/
theorem not_prefix_of_no_pair {k : Token.Kind} (hk : k ∈ Token.Kind.pairs)
    (h : Scanner.symbolKind? Token.Kind.pairs (String.ofList (cs.take 2)) = none) : ¬ k.text.toList <+: cs := by
  intro hprefix
  have htake : cs.take 2 = k.text.toList := by
    rw [← Scanner.length_pair hk]
    exact (List.prefix_iff_eq_take.mp hprefix).symm
  have hne := List.find?_eq_none.mp h k hk
  rw [htake, String.ofList_toList] at hne
  exact hne (beq_self_eq_true _)

open Token.Kind in
/-- A spelled token is matched by the terminal of its kind. -/
theorem matchLength?_matched {k : Token.Kind} {raw rest : List Char} {text : String} (h : Spells k raw text rest) :
    k.matched.matchLength? (raw ++ rest) = some raw.length := by
  cases h with
  | integer hne hdigits hrest _ => exact rowLength?_append hne hdigits hrest
  | float hne hwhole hfraction hrest => exact floatLength?_append hne hwhole hfraction hrest
  | @word c cs _ hc hcs hrest =>
    have hname := nameLength?_append hc hcs hrest
    rcases Scanner.wordKind_cases (String.ofList (c :: cs)) with ⟨hkind, htext⟩ | ⟨hkind, -⟩ | hkind
    · rw [hkind]
      have := boolLength?_append htext hrest
      rwa [String.toList_ofList] at this
    · rw [matched, if_pos hkind]
      exact hname
    · rw [hkind]
      exact hname
  | @char c _ hnewline hquote =>
    show Terminal.char.matchLength? _ = _
    simp [matchLength?, charLength?, hnewline, hquote]
  | @string raw content _ hcontent =>
    show Terminal.string.matchLength? _ = _
    simp [matchLength?, stringLength?, stringRest?_eq, hcontent]
  | pair hk =>
    cases k with
    | eq | ne | le | ge | and | or => rfl
    | _ => exact absurd hk (by decide)
  | single hk hpair =>
    have hle := not_prefix_of_no_pair (k := .le) (by decide) hpair
    have hge := not_prefix_of_no_pair (k := .ge) (by decide) hpair
    cases k with
    | lt => exact literalLength?_skip hle
    | gt => exact (literalLength?_skip hle).trans (literalLength?_skip hge)
    | plus | minus | star | slash | percent | assign | lparen | rparen | lbrace | rbrace | comma | semicolon
    | colon => rfl
    | _ => exact absurd hk (by decide)

/-! ### Other terminals in front of a spelled token -/

theorem floatLength?_none {rest : List Char} (hne : cs ≠ []) (hcs : Token.AreDigits cs)
    (hrest : NotAhead Text.isAsciiDigit rest) (hpoint : NotAhead (· == '.') rest) : floatLength? (cs ++ rest) = none := by
  unfold floatLength?
  rw [rowLength?_append hne hcs hrest]
  simp only [Option.bind_eq_bind, Option.bind_some, List.drop_left]
  split
  · exact absurd (hpoint '.' rfl) (by decide)
  · rfl

/-- A word that a truth value is cut off from is that truth value. -/
theorem word_of_boolLength? {word : List Char} {rest : List Char} (hword : ∀ d ∈ word, isIdentChar d = true)
    (hrest : NotAhead isIdentChar rest) (h : boolLength? (word ++ rest) = some n) :
    String.ofList word = "true" ∨ String.ofList word = "false" := by
  obtain ⟨m, hm, h⟩ := Option.bind_eq_some_iff.mp h
  obtain ⟨s, hs, ⟨rest', hrest'⟩, rfl⟩ := literalLength?_eq_some hm
  have hahead : NotAhead isIdentChar rest' := by
    rw [← hrest', ← String.length_toList, List.drop_left] at h
    intro c hc
    by_contra hne
    simp [Option.mem_def.mp hc, hne] at h
  have hchars : ∀ d ∈ s.toList, isIdentChar d = true := by
    have key : ∀ s ∈ ["true", "false"], s.toList.all isIdentChar = true := by decide
    exact List.all_eq_true.mp (key s hs)
  have heq : word = s.toList := by
    rw [← Scanner.takeWhile_append_of_notAhead hword hrest, ← hrest',
      Scanner.takeWhile_append_of_notAhead hchars hahead]
  rw [heq, String.ofList_toList]
  simpa using hs

theorem terminal_of_number (h : t.family = .float) : t = .float ∨ t = .int := by
  have key : ∀ t ∈ Terminal.all, t.family = .float → t = .float ∨ t = .int := by decide
  exact key t (mem_all t) h

theorem terminal_of_word (h : t.family = .name) : t = .bool ∨ t = .name ∨ t.keyword?.isSome = true := by
  have key : ∀ t ∈ Terminal.all, t.family = .name → t = .bool ∨ t = .name ∨ t.keyword?.isSome = true := by decide
  exact key t (mem_all t) h

theorem terminal_of_quote (h : t.family = .char ∨ t.family = .string) : t = t.family := by
  have key : ∀ t ∈ Terminal.all, t.family = .char ∨ t.family = .string → t = t.family := by decide
  exact key t (mem_all t) h

theorem terminal_of_pair {k : Token.Kind} (hk : k ∈ Token.Kind.pairs)
    (hfamily : k.text.toList.head?.bind familyOf = some t.family) :
    t = k.matched ∨ t = .equal ∧ (k = .eq ∨ k = .ne) := by
  have key : ∀ k ∈ Token.Kind.pairs, ∀ t ∈ Terminal.all, k.text.toList.head?.bind familyOf = some t.family →
      t = k.matched ∨ t = .equal ∧ (k = .eq ∨ k = .ne) := by decide
  exact key k hk t (mem_all t) hfamily

theorem terminal_of_single {k : Token.Kind} (hk : k ∈ Token.Kind.singles) (hignored : t.isIgnored = false)
    (hfamily : k.text.toList.head?.bind familyOf = some t.family) :
    t = k.matched ∨ t = .equality ∧ k = .assign := by
  have key : ∀ k ∈ Token.Kind.singles, ∀ t ∈ Terminal.all, t.isIgnored = false →
      k.text.toList.head?.bind familyOf = some t.family → t = k.matched ∨ t = .equality ∧ k = .assign := by decide
  exact key k hk t (mem_all t) hignored hfamily

/-- What else can match in front of a spelled token of kind `k` with `length` characters. -/
inductive Rival (k : Token.Kind) (length : Nat) : Terminal → Nat → Prop
  | digits {n : Nat} : k = .float → Rival k length .int n
  | sign : k = .eq → Rival k length .equal 1
  | truth : k = .boolean → Rival k length .name length
  | keyword {t : Terminal} {n : Nat} : t.keyword?.isSome = true → Rival k length t n

/-- In front of a spelled token its own terminal matches, or a rival. -/
theorem eq_matched_or_rival {k : Token.Kind} {raw rest : List Char} {text : String} (h : Spells k raw text rest)
    (ht : t.matchLength? (raw ++ rest) = some n) (hignored : t.isIgnored = false) :
    t = k.matched ∨ Rival k raw.length t n := by
  have hfamily : (raw.head?.bind familyOf) = some t.family := by
    obtain ⟨c, cs, rfl⟩ := List.exists_cons_of_ne_nil h.raw_ne_nil
    exact familyOf_of_match ht
  cases h with
  | integer hne hdigits hrest hpoint =>
    obtain ⟨c, cs, rfl⟩ := List.exists_cons_of_ne_nil hne
    have hnumber := (familyOf_digit (hdigits c (by simp))).symm.trans hfamily
    rcases terminal_of_number (Option.some_inj.mp hnumber).symm with rfl | rfl
    · have hnone := floatLength?_none hne hdigits hrest hpoint
      exact nomatch hnone.symm.trans ht
    · exact .inl rfl
  | float hne hwhole hfraction hrest =>
    obtain ⟨c, cs, rfl⟩ := List.exists_cons_of_ne_nil hne
    have hnumber := (familyOf_digit (hwhole c (by simp))).symm.trans hfamily
    rcases terminal_of_number (Option.some_inj.mp hnumber).symm with rfl | rfl
    · exact .inl rfl
    · exact .inr (.digits rfl)
  | @word c cs _ hc hcs hrest =>
    have hword := (familyOf_identStart hc).symm.trans hfamily
    have hname := nameLength?_append hc hcs hrest
    rcases terminal_of_word (Option.some_inj.mp hword).symm with rfl | rfl | hkeyword
    · have hchars : ∀ d ∈ c :: cs, isIdentChar d = true :=
        List.forall_mem_cons.mpr ⟨by simp [isIdentChar, hc], hcs⟩
      have hkind : wordKind (String.ofList (c :: cs)) = .boolean := by
        rcases word_of_boolLength? hchars hrest ht with h | h <;> rw [h] <;> decide
      rw [hkind]
      exact .inl rfl
    · rcases Scanner.wordKind_cases (String.ofList (c :: cs)) with ⟨hkind, -⟩ | ⟨hkind, -⟩ | hkind
      · obtain rfl : n = _ := Option.some_inj.mp (ht.symm.trans hname)
        exact .inr (.truth hkind)
      · exact .inl (if_pos hkind).symm
      · rw [hkind]
        exact .inl rfl
    · exact .inr (.keyword hkeyword)
  | char =>
    have hchar : t.family = .char := (Option.some_inj.mp hfamily).symm
    exact .inl ((terminal_of_quote (.inl hchar)).trans hchar)
  | string =>
    have hstring : t.family = .string := (Option.some_inj.mp hfamily).symm
    exact .inl ((terminal_of_quote (.inr hstring)).trans hstring)
  | pair hk =>
    rcases terminal_of_pair hk hfamily with h | ⟨rfl, rfl | rfl⟩
    · exact .inl h
    · obtain rfl : n = 1 := Option.some_inj.mp ht.symm
      exact .inr (.sign rfl)
    · cases ht
  | single hk hpair =>
    rcases terminal_of_single hk hignored hfamily with h | ⟨rfl, rfl⟩
    · exact .inl h
    · obtain ⟨s, hs, hprefix, -⟩ := literalLength?_eq_some ht
      simp only [List.mem_cons, List.not_mem_nil, or_false] at hs
      rcases hs with rfl | rfl
      · exact absurd hprefix (not_prefix_of_no_pair (k := .eq) (by decide) hpair)
      · exact absurd hprefix (not_prefix_of_no_pair (k := .ne) (by decide) hpair)

/-! ### Faults -/

theorem readNumber_valid (s : Scanner) : s.readNumber.1.kind ≠ .invalid := by
  unfold Scanner.readNumber
  dsimp only
  split <;> decide

theorem wordKind_valid (word : String) : wordKind word ≠ .invalid := by
  rcases Scanner.wordKind_cases word with ⟨hkind, -⟩ | ⟨hkind, -⟩ | hkind
  · rw [hkind]
    decide
  · intro heq
    rw [heq] at hkind
    exact absurd hkind (by decide)
  · rw [hkind]
    decide

theorem readChar_valid {s : Scanner} (h : charLength? s.rest = some n) : s.readChar.1.kind ≠ .invalid := by
  unfold charLength? at h
  split at h
  · next c cs heq =>
    split at h
    · cases h
    · next hc =>
      simp [Scanner.readChar, heq, hc]
  · cases h

theorem readString_valid {s : Scanner} (h : stringLength? s.rest = some n) : s.readString.1.kind ≠ .invalid := by
  unfold stringLength? at h
  split at h
  · next cs heq =>
    rw [stringRest?_eq] at h
    unfold Scanner.readString
    rw [heq, List.drop_succ_cons, List.drop_zero]
    split
    · next hnone => simp [hnone] at h
    · simp
  · cases h

theorem readSymbol_valid {s : Scanner} {texts : List String} (h : literalLength? texts s.rest = some n)
    (htexts : ∀ text ∈ texts, (∃ k ∈ Token.Kind.pairs, k.text = text) ∨ ∃ k ∈ Token.Kind.singles, k.text = text) :
    s.readSymbol.1.kind ≠ .invalid := by
  obtain ⟨text, htext, hprefix, -⟩ := literalLength?_eq_some h
  unfold Scanner.readSymbol
  dsimp only
  split
  · next k hk =>
    rintro rfl
    exact absurd (Scanner.symbolKind?_eq_some hk).1 (by decide)
  · next hpair =>
    split
    · next k hk =>
      rintro rfl
      exact absurd (Scanner.symbolKind?_eq_some hk).1 (by decide)
    · next hsingle =>
      exfalso
      rcases htexts text htext with ⟨k, hk, rfl⟩ | ⟨k, hk, rfl⟩
      · exact not_prefix_of_no_pair hk hpair hprefix
      · have htake : s.rest.take 1 = k.text.toList := by
          rw [← Scanner.length_single hk]
          exact (List.prefix_iff_eq_take.mp hprefix).symm
        have hne := List.find?_eq_none.mp hsingle k hk
        rw [htake, String.ofList_toList] at hne
        exact hne (beq_self_eq_true _)

theorem family_of_symbol {f : Terminal} (hdigit : Text.isAsciiDigit c = false) (hstart : isIdentStart c = false)
    (hchar : c ≠ '\x27') (hstring : c ≠ '\x22') (h : familyOf c = some f) : f ∉ [float, name, char, string] := by
  unfold familyOf at h
  rw [hdigit, hstart, if_neg Bool.false_ne_true, if_neg Bool.false_ne_true] at h
  split at h
  · cases h
    decide
  · split at h <;> first | contradiction | (cases h; decide)

/-- Where a terminal matches behind trivia, the next token is a valid one. -/
theorem next_valid {s : Scanner} (h : t.matchLength? s.skipTrivia.rest = some n) (hignored : t.isIgnored = false) :
    s.next.1.kind ≠ .invalid := by
  unfold Scanner.next
  dsimp only
  split
  · simp
  · next c cs hrest =>
    have hfamily := familyOf_of_match (hrest ▸ h)
    split
    · exact readNumber_valid _
    split
    · exact wordKind_valid _
    split
    · next hc =>
      have hchar : t.family = .char := by
        rw [hc] at hfamily
        exact (Option.some_inj.mp hfamily).symm
      rw [terminal_of_quote (.inl hchar), hchar] at h
      exact readChar_valid h
    split
    · next hc =>
      have hstring : t.family = .string := by
        rw [hc] at hfamily
        exact (Option.some_inj.mp hfamily).symm
      rw [terminal_of_quote (.inr hstring), hstring] at h
      exact readString_valid h
    · next hdigit hstart hchar hstring =>
      have hsymbol := family_of_symbol (Bool.eq_false_iff.mpr hdigit) (Bool.eq_false_iff.mpr hstart) hchar hstring hfamily
      cases t with
      | relational | equality | and | or | multiplicative | additive | colon | comma | equal | lbrace | lparen
      | rbrace | rparen | semicolon => exact readSymbol_valid h (by decide)
      | endOfText => cases h
      | blockComment | blank | lineComment => cases hignored
      | _ => exact absurd hsymbol (by decide)

end Terminal
end Grammar
end TypedImp
