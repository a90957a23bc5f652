import TypedImp.Proofs.Grammar.Lexing
import TypedImp.Proofs.Token.Digits

/-! Tokens written one after the other. Written with its usual characters and a blank behind it, a token of a text
    is found again; so the tokens of such a text are those that were written, with places of their own. -/

namespace TypedImp
namespace Token

/-! ### Characters -/

/-- The characters of a string between its quotes: a double quote gets a backslash in front. -/
def escaped : List Char → List Char
  | [] => []
  | c :: cs => if c = '\x22' then '\\' :: '\x22' :: escaped cs else c :: escaped cs

/-- The characters that a token is written with. -/
def spelling : Kind → String → List Char
  | .char, text => '\x27' :: (text.toList ++ ['\x27'])
  | .string, text => '\x22' :: (escaped text.toList ++ ['\x22'])
  | _, text => text.toList

/-- A token without a place: its kind and its text. -/
abbrev Word := Kind × String

/-- In front of a blank the characters of the token are the token. -/
def Word.Spelled (w : Word) : Prop := ∀ rest, Scanner.Spells w.1 (spelling w.1 w.2) w.2 (' ' :: rest)

/-- The place behind some characters. -/
def past (p : Position) (cs : List Char) : Position := cs.foldl Scanner.after p

/-- Each token with a blank behind it. -/
def source : List Word → List Char
  | [] => []
  | w :: ws => spelling w.1 w.2 ++ ' ' :: source ws

/-- The tokens with their places, the first one at `p`. -/
def placed (p : Position) : List Word → List Token
  | [] => []
  | w :: ws => ⟨w.1, w.2, p⟩ :: placed (past p (spelling w.1 w.2 ++ [' '])) ws

theorem placed_append (p : Position) (ws vs : List Word) :
    placed p (ws ++ vs) = placed p ws ++ placed (past p (source ws)) vs := by
  induction ws generalizing p with
  | nil => rfl
  | cons w ws ih =>
    rw [List.cons_append, placed, placed, ih, source, List.cons_append]
    simp only [past, List.foldl_append, List.foldl_cons, List.foldl_nil]

end Token

namespace Scanner

/-! ### Spelled tokens are found -/

theorem triviaLength_between {c : Char} {cs : List Char} (hspace : isSpace c = false)
    (hcomment : c = '/' → ∀ d ds, cs = d :: ds → d ≠ '/' ∧ d ≠ '*') : triviaLength .between (c :: cs) = 0 := by
  rw [triviaLength.eq_def]
  dsimp only
  rw [hspace, if_neg Bool.false_ne_true]
  split
  · next hc =>
    split
    · exact absurd rfl (hcomment hc _ _ rfl).1
    · exact absurd rfl (hcomment hc _ _ rfl).2
    · rfl
  · rfl

/-- Of the readers the one is chosen that the first character of a token calls for. -/
theorem next_of_rest {s : Scanner} {c : Char} {cs : List Char} (hs : s.rest = c :: cs) (hspace : isSpace c = false)
    (hcomment : c = '/' → ∀ d ds, cs = d :: ds → d ≠ '/' ∧ d ≠ '*') :
    s.next = if Text.isAsciiDigit c then s.readNumber
      else if isIdentStart c then s.readIdentifier
      else if c = '\x27' then s.readChar
      else if c = '\x22' then s.readString
      else s.readSymbol := by
  have hskip : s.skipTrivia = s := by
    rw [skipTrivia, hs, triviaLength_between hspace hcomment]
    rfl
  unfold next
  dsimp only
  rw [hskip]
  split
  · next h => rw [hs] at h; cases h
  · next d ds h =>
    rw [hs] at h
    cases h
    rfl

/-- No blank begins a word or a number. -/
theorem not_ahead_of_isSpace {c : Char} (h : isSpace c = true) :
    Text.isAsciiDigit c = false ∧ isIdentStart c = false := by
  simp only [isSpace, Bool.or_eq_true, decide_eq_true_eq] at h
  rcases h with (((rfl | rfl) | rfl) | rfl) | rfl <;> decide

theorem isSpace_of_digit {c : Char} (h : Text.isAsciiDigit c = true) : isSpace c = false := by
  rw [← Bool.not_eq_true]
  intro hspace
  rw [(not_ahead_of_isSpace hspace).1] at h
  cases h

theorem isSpace_of_identStart {c : Char} (h : isIdentStart c = true) : isSpace c = false := by
  rw [← Bool.not_eq_true]
  intro hspace
  rw [(not_ahead_of_isSpace hspace).2] at h
  cases h

theorem isAsciiDigit_of_identStart {c : Char} (h : isIdentStart c = true) : Text.isAsciiDigit c = false := by
  rw [← Bool.not_eq_true]
  intro hdigit
  obtain ⟨hlower, hupper⟩ := Token.digit_bounds hdigit
  simp only [isIdentStart, Bool.or_eq_true, Bool.and_eq_true, decide_eq_true_eq, Char.le_def,
    UInt32.le_iff_toNat_le] at h
  rcases h with (⟨h, -⟩ | ⟨h, -⟩) | rfl
  · have : (97 : Nat) ≤ c.toNat := h
    omega
  · have : (65 : Nat) ≤ c.toNat := h
    omega
  · exact absurd hupper (by decide)

section
variable {s : Scanner} {rest : List Char}

theorem next_of_digit {c : Char} {cs : List Char} (hs : s.rest = c :: cs) (hc : Text.isAsciiDigit c = true) :
    s.next = s.readNumber := by
  have hslash : c ≠ '/' := by
    rintro rfl
    exact absurd hc (by decide)
  rw [next_of_rest hs (isSpace_of_digit hc) (fun h => absurd h hslash), if_pos hc]

theorem next_integer {raw : List Char} (hs : s.rest = raw ++ rest) (hne : raw ≠ []) (hraw : Token.AreDigits raw)
    (hrest : NotAhead Text.isAsciiDigit rest) (hpoint : NotAhead (· == '.') rest) :
    s.next = (⟨.integer, String.ofList raw, s.position⟩, s.advance raw.length) := by
  have hlexeme : numberLexeme (raw ++ rest) = (raw, false) := by
    unfold numberLexeme
    rw [takeWhile_append_of_notAhead hraw hrest]
    dsimp only
    rw [List.drop_left]
    cases rest with
    | nil => rfl
    | cons d rest =>
      have hd := hpoint d rfl
      split
      · next h =>
        cases h
        cases hd
      · rfl
  have hnumber : s.next = s.readNumber := by
    obtain ⟨c, cs, rfl⟩ := List.exists_cons_of_ne_nil hne
    exact next_of_digit hs (hraw c List.mem_cons_self)
  rw [hnumber, readNumber, hs, hlexeme]
  rfl

theorem next_float {whole fraction : List Char} (hs : s.rest = whole ++ '.' :: fraction ++ rest) (hne : whole ≠ [])
    (hwhole : Token.AreDigits whole) (hfraction : Token.AreDigits fraction) (hrest : NotAhead Text.isAsciiDigit rest) :
    s.next = (⟨.float, String.ofList (whole ++ '.' :: fraction), s.position⟩,
      s.advance (whole ++ '.' :: fraction).length) := by
  rw [List.append_assoc, List.cons_append] at hs
  have hlexeme : numberLexeme (whole ++ '.' :: (fraction ++ rest)) = (whole ++ '.' :: fraction, true) := by
    have hpoint : NotAhead Text.isAsciiDigit ('.' :: (fraction ++ rest)) := fun d hd => by
      cases hd
      decide
    unfold numberLexeme
    rw [takeWhile_append_of_notAhead hwhole hpoint]
    dsimp only
    rw [List.drop_left]
    show (whole ++ '.' :: (fraction ++ rest).takeWhile Text.isAsciiDigit, true) = _
    rw [takeWhile_append_of_notAhead hfraction hrest]
  have hnumber : s.next = s.readNumber := by
    obtain ⟨c, cs, rfl⟩ := List.exists_cons_of_ne_nil hne
    exact next_of_digit hs (hwhole c List.mem_cons_self)
  rw [hnumber, readNumber, hs, hlexeme]
  rfl

theorem next_word {c : Char} {cs : List Char} (hs : s.rest = c :: cs ++ rest) (hc : isIdentStart c = true)
    (hcs : ∀ d ∈ cs, isIdentChar d = true) (hrest : NotAhead isIdentChar rest) :
    s.next = (⟨wordKind (String.ofList (c :: cs)), String.ofList (c :: cs), s.position⟩,
      s.advance (c :: cs).length) := by
  have hslash : c ≠ '/' := by
    rintro rfl
    exact absurd hc (by decide)
  have hword : ∀ d ∈ c :: cs, isIdentChar d = true :=
    List.forall_mem_cons.mpr ⟨by rw [isIdentChar, hc, Bool.true_or], hcs⟩
  rw [next_of_rest hs (isSpace_of_identStart hc) (fun h => absurd h hslash),
    if_neg (Bool.not_eq_true _ ▸ isAsciiDigit_of_identStart hc), if_pos hc]
  unfold readIdentifier
  dsimp only
  rw [hs, takeWhile_append_of_notAhead hword hrest]

theorem next_char {c : Char} (hs : s.rest = '\x27' :: c :: '\x27' :: rest) (hnewline : c ≠ '\n') (hquote : c ≠ '\x27') :
    s.next = (⟨.char, String.singleton c, s.position⟩, s.advance 3) := by
  rw [next_of_rest hs (by decide) (fun h => absurd h (by decide)), if_neg (by decide), if_neg (by decide), if_pos rfl]
  unfold readChar
  rw [hs]
  simp [hnewline, hquote]

theorem next_string {raw content : List Char} (hs : s.rest = '\x22' :: (raw ++ '\x22' :: rest))
    (h : stringContent (raw ++ '\x22' :: rest) = some (content, raw.length)) :
    s.next = (⟨.string, String.ofList content, s.position⟩, s.advance (raw.length + 2)) := by
  rw [next_of_rest hs (by decide) (fun h => absurd h (by decide)), if_neg (by decide), if_neg (by decide),
    if_neg (by decide), if_pos rfl]
  unfold readString
  rw [hs, List.drop_succ_cons, List.drop_zero, h]

/-- Does the character open a comment behind a slash? -/
def marksComment (c : Char) : Bool := c = '/' || c = '*'

/-- Characters that call for no other reader than that of signs. -/
def opensSymbol : List Char → Bool
  | c :: _ => !isSpace c && !Text.isAsciiDigit c && !isIdentStart c && c != '\x27' && c != '\x22'
  | [] => false

theorem symbol_begins {k : Token.Kind} (h : k ∈ Token.Kind.pairs ++ Token.Kind.singles) :
    ∃ c cs, k.text.toList = c :: cs ∧ isSpace c = false ∧ Text.isAsciiDigit c = false ∧ isIdentStart c = false ∧
      c ≠ '\x27' ∧ c ≠ '\x22' := by
  have key : ∀ k ∈ Token.Kind.pairs ++ Token.Kind.singles, opensSymbol k.text.toList = true := by decide
  have hopens := key k h
  cases hcs : k.text.toList with
  | nil =>
    rw [hcs] at hopens
    cases hopens
  | cons c cs =>
    rw [hcs] at hopens
    simp only [opensSymbol, Bool.and_eq_true, Bool.not_eq_true', bne_iff_ne] at hopens
    obtain ⟨⟨⟨⟨hspace, hdigit⟩, hstart⟩, hchar⟩, hstring⟩ := hopens
    exact ⟨c, cs, rfl, hspace, hdigit, hstart, hchar, hstring⟩

/-- Only the sign of division begins with a slash. -/
theorem eq_slash {k : Token.Kind} (h : k ∈ Token.Kind.pairs ++ Token.Kind.singles)
    (hslash : k.text.toList.head? = some '/') : k = .slash := by
  have key : ∀ k ∈ Token.Kind.pairs ++ Token.Kind.singles, k.text.toList.head? = some '/' → k = .slash := by decide
  exact key k h hslash

theorem next_symbol {k : Token.Kind} (hk : k ∈ Token.Kind.pairs ++ Token.Kind.singles)
    (hs : s.rest = k.text.toList ++ rest) (hcomment : k = .slash → NotAhead marksComment rest) :
    s.next = s.readSymbol := by
  obtain ⟨c, cs, hcs, hspace, hdigit, hstart, hchar, hstring⟩ := symbol_begins hk
  rw [hcs, List.cons_append] at hs
  have hcomment : c = '/' → ∀ d ds, cs ++ rest = d :: ds → d ≠ '/' ∧ d ≠ '*' := by
    rintro rfl d ds hds
    have hkind := eq_slash hk (by rw [hcs]; rfl)
    subst hkind
    cases hcs
    have hd := hcomment rfl d (by rw [List.nil_append] at hds; rw [hds]; rfl)
    simpa [marksComment] using hd
  rw [next_of_rest hs hspace hcomment, if_neg (by simp [hdigit]), if_neg (by simp [hstart]), if_neg hchar,
    if_neg hstring]

/-- A spelled token is what the scanner finds, unless it is a slash that opens a comment. -/
theorem next_spelled {k : Token.Kind} {raw : List Char} {text : String} (hs : s.rest = raw ++ rest)
    (h : Spells k raw text rest) (hcomment : k = .slash → NotAhead marksComment rest) :
    s.next = (⟨k, text, s.position⟩, s.advance raw.length) := by
  cases h with
  | integer hne hraw hrest hpoint => exact next_integer hs hne hraw hrest hpoint
  | float hne hwhole hfraction hrest => exact next_float hs hne hwhole hfraction hrest
  | word hc hcs hrest => exact next_word hs hc hcs hrest
  | char hnewline hquote => exact next_char hs hnewline hquote
  | @string raw content _ hcontent =>
    rw [List.cons_append, List.append_assoc, List.singleton_append] at hs
    rw [next_string hs hcontent, List.length_cons, List.length_append, List.length_singleton]
  | pair hk =>
    have hkind : symbolKind? Token.Kind.pairs k.text = some k := by
      have key : ∀ k ∈ Token.Kind.pairs, symbolKind? Token.Kind.pairs k.text = some k := by decide
      exact key k hk
    have htake : String.ofList (s.rest.take 2) = k.text := by
      rw [hs, ← length_pair hk, List.take_left, String.ofList_toList]
    rw [next_symbol (List.mem_append_left _ hk) hs hcomment, readSymbol, htake, hkind, length_pair hk]
  | single hk hpairs =>
    have hkind : symbolKind? Token.Kind.singles k.text = some k := by
      have key : ∀ k ∈ Token.Kind.singles, symbolKind? Token.Kind.singles k.text = some k := by decide
      exact key k hk
    have htake : String.ofList (s.rest.take 1) = k.text := by
      rw [hs, ← length_single hk, List.take_left, String.ofList_toList]
    rw [← hs] at hpairs
    rw [next_symbol (List.mem_append_right _ hk) hs hcomment, readSymbol, hpairs, htake, hkind, length_single hk]

/-! ### Texts of spelled tokens -/

theorem position_advance (n : Nat) (s : Scanner) :
    (s.advance n).position = Token.past s.position (s.rest.take n) := by
  induction n generalizing s with
  | zero => rfl
  | succ n ih =>
    unfold advance
    split
    · next h =>
      rw [h]
      rfl
    · next c cs h =>
      rw [ih, h]
      rfl

/-- A blank in front does not matter. -/
theorem tokens_blank {cs : List Char} (hs : s.rest = ' ' :: cs) : s.tokens = (s.advance 1).tokens := by
  have hskip : s.skipTrivia = (s.advance 1).skipTrivia := by
    rw [skipTrivia, skipTrivia, rest_advance, hs, List.drop_one, List.tail_cons,
      Grammar.triviaLength_space (by decide), Nat.add_comm, ← advance_advance]
  have hnext : s.next = (s.advance 1).next := by rw [next, next, hskip]
  rw [tokens_eq, tokens_eq (s.advance 1), hnext]

/-- The tokens of a text of spelled tokens are these, at their places. -/
theorem tokens_source {ws : List Token.Word} (hws : ∀ w ∈ ws, w.Spelled) (hs : s.rest = Token.source ws) :
    ∃ place, s.tokens = Token.placed s.position ws ++ [⟨.eof, "", place⟩] := by
  induction ws generalizing s with
  | nil =>
    have hskip := length_rest_skipTrivia s
    rw [hs] at hskip
    exact ⟨_, Grammar.tokens_of_end (List.length_eq_zero_iff.mp (Nat.le_zero.mp hskip))⟩
  | cons w ws ih =>
    rw [List.forall_mem_cons] at hws
    have hspells := hws.1 (Token.source ws)
    have hnext := next_spelled hs hspells fun _ => by
      rintro c ⟨⟩
      rfl
    have hrest : (s.advance (Token.spelling w.1 w.2).length).rest = ' ' :: Token.source ws := by
      rw [rest_advance, hs, Token.source, List.drop_left]
    have hfinal : s.next.1.kind.isFinal = false := by
      rw [hnext]
      exact Grammar.isFinal_of_spells hspells
    obtain ⟨place, hplace⟩ := ih (s := (s.advance (Token.spelling w.1 w.2).length).advance 1) hws.2
      (by rw [rest_advance, hrest, List.drop_one, List.tail_cons])
    refine ⟨place, ?_⟩
    have hposition : ((s.advance (Token.spelling w.1 w.2).length).advance 1).position =
        Token.past s.position (Token.spelling w.1 w.2 ++ [' ']) := by
      rw [position_advance, position_advance, hrest, hs, Token.source, List.take_left, Token.past, Token.past,
        Token.past, List.foldl_append]
      rfl
    rw [tokens_eq, hfinal, if_neg Bool.false_ne_true, hnext, Token.placed, tokens_blank hrest, hplace, hposition]
    rfl

end

end Scanner

namespace Token

/-! ### Words that are spelled -/

theorem spelling_wordKind (word : String) : spelling (Scanner.wordKind word) word = word.toList := by
  rcases Scanner.wordKind_cases word with ⟨hkind, -⟩ | ⟨hkind, -⟩ | hkind
  · rw [hkind]
    rfl
  · have key : ∀ k ∈ Kind.keywords, k ≠ .char ∧ k ≠ .string := by decide
    obtain ⟨hchar, hstring⟩ := key _ hkind
    unfold spelling
    split <;> first | contradiction | rfl
  · rw [hkind]
    rfl

/-- A word with the kind that the scanner gives it. -/
theorem spelled_word {word : String} {c : Char} {cs : List Char} (hword : word.toList = c :: cs)
    (hc : Scanner.isIdentStart c = true) (hcs : ∀ d ∈ cs, Scanner.isIdentChar d = true) {k : Kind}
    (hk : Scanner.wordKind word = k) : Word.Spelled (k, word) := by
  subst hk
  intro rest
  show Scanner.Spells (Scanner.wordKind word) (spelling (Scanner.wordKind word) word) word _
  rw [spelling_wordKind, hword]
  have hspells : Scanner.Spells _ (c :: cs) _ (' ' :: rest) := .word hc hcs fun d hd => by cases hd; decide
  rwa [← hword, String.ofList_toList, hword] at hspells

theorem spelled_symbol {k : Kind} (h : k ∈ Kind.pairs ++ Kind.singles) : Word.Spelled (k, k.text) := by
  intro rest
  have hplain : spelling k k.text = k.text.toList := by
    have key : ∀ k ∈ Kind.pairs ++ Kind.singles, spelling k k.text = k.text.toList := by decide
    exact key k h
  show Scanner.Spells k (spelling k k.text) k.text _
  rw [hplain]
  rcases List.mem_append.mp h with hpair | hsingle
  · exact .pair hpair
  · refine .single hsingle ?_
    have key : ∀ k ∈ Kind.singles,
        Scanner.symbolKind? Kind.pairs (String.ofList (k.text.toList ++ [' '])) = none := by decide
    have hone := Scanner.length_single hsingle
    rw [List.take_append, hone, List.take_of_length_le (by omega)]
    exact key k hsingle

theorem spelled_integer (n : Nat) : Word.Spelled (.integer, n.repr) := by
  intro rest
  show Scanner.Spells .integer n.repr.toList n.repr _
  have hspells : Scanner.Spells _ (Nat.toDigits 10 n) _ (' ' :: rest) :=
    .integer Nat.toDigits_ne_nil (areDigits_toDigits n) (fun d hd => by cases hd; decide) fun d hd => by cases hd; decide
  rwa [← Nat.repr_eq_ofList_toDigits, ← Nat.toList_repr] at hspells

theorem spelled_float {text : String} {whole fraction : List Char} (htext : text.toList = whole ++ '.' :: fraction)
    (hne : whole ≠ []) (hwhole : AreDigits whole) (hfraction : AreDigits fraction) : Word.Spelled (.float, text) := by
  intro rest
  show Scanner.Spells .float text.toList text _
  have hspells : Scanner.Spells _ (whole ++ '.' :: fraction) _ (' ' :: rest) :=
    .float hne hwhole hfraction fun d hd => by cases hd; decide
  rwa [← htext, String.ofList_toList] at hspells

theorem spelled_char {c : Char} (hnewline : c ≠ '\n') (hquote : c ≠ '\x27') :
    Word.Spelled (.char, String.singleton c) := by
  intro rest
  show Scanner.Spells .char ('\x27' :: ((String.singleton c).toList ++ ['\x27'])) (String.singleton c) _
  rw [String.toList_singleton]
  exact .char hnewline hquote

/-- Where the characters of a string begin with a double quote, there are none of them before the closing one. -/
theorem escaped_quote {cs rest ds : List Char} (h : escaped cs ++ '\x22' :: rest = '\x22' :: ds) : cs = [] := by
  cases cs with
  | nil => rfl
  | cons c cs =>
    unfold escaped at h
    split at h
    · cases h
    · next hc =>
      rw [List.cons_append] at h
      exact absurd (List.cons.inj h).1 hc

/-- The backslashes in front of double quotes are taken away again. -/
theorem stringContent_escaped {cs rest : List Char} (h : cs.getLast? ≠ some '\\') :
    Scanner.stringContent (escaped cs ++ '\x22' :: rest) = some (cs, (escaped cs).length) := by
  induction cs with
  | nil => exact Grammar.stringContent_quote rest
  | cons c cs ih =>
    have hlast : cs.getLast? ≠ some '\\' := by
      cases cs with
      | nil => simp
      | cons d cs => rwa [List.getLast?_cons_cons] at h
    unfold escaped
    split
    · next hc =>
      rw [List.cons_append, List.cons_append, Grammar.stringContent_escape, ih hlast, hc]
      rfl
    · next hc =>
      have hescape : c = '\\' → ∀ ds, escaped cs ++ '\x22' :: rest ≠ '\x22' :: ds := by
        rintro rfl ds hds
        rw [escaped_quote hds] at h
        exact h rfl
      rw [List.cons_append, Grammar.stringContent_plain hc hescape, ih hlast]
      rfl

theorem spelled_string {text : String} (h : text.toList.getLast? ≠ some '\\') : Word.Spelled (.string, text) := by
  intro rest
  show Scanner.Spells .string ('\x22' :: (escaped text.toList ++ ['\x22'])) text _
  have hspells : Scanner.Spells _ ('\x22' :: (escaped text.toList ++ ['\x22'])) _ (' ' :: rest) :=
    .string (stringContent_escaped h)
  rwa [String.ofList_toList] at hspells

end Token

/-- The tokens of a text of spelled tokens, each with a blank behind it. -/
theorem tokenize_source {ws : List Token.Word} (hws : ∀ w ∈ ws, w.Spelled) :
    ∃ place, tokenize (String.ofList (Token.source ws)) = Token.placed ⟨1, 1⟩ ws ++ [⟨.eof, "", place⟩] :=
  Scanner.tokens_source hws (s := Scanner.ofText _) String.toList_ofList

end TypedImp
