import Mathlib.Data.List.DropRight
import TypedImp.Proofs.Token.Gaps
import TypedImp.Proofs.Token.Respelling

/-! Tokens over a text. The tokens of a text stand at parts of it, one behind the other, with nothing but gaps in front
    of them; each is what its part spells, at the place that the text in front gives it, and none could be longer. -/

namespace TypedImp
namespace Token

/-! ### Places and parts of a text -/

/-- The place behind the first characters of a text: each newline begins a line, and columns count from it. -/
def placeBehind (cs : List Char) : Position :=
  ⟨1 + cs.count '\n', 1 + (cs.rtakeWhile fun c => c ≠ '\n').length⟩

theorem placeBehind_concat (cs : List Char) (c : Char) :
    placeBehind (cs ++ [c]) = Scanner.after (placeBehind cs) c := by
  unfold placeBehind Scanner.after
  split
  · next hc =>
    subst hc
    rw [List.rtakeWhile_concat_neg _ _ _ (by simp), List.count_append, List.count_singleton_self]
    rfl
  · next hc =>
    rw [List.rtakeWhile_concat_pos _ _ _ (by simpa using hc), List.count_append,
      List.count_singleton, List.length_append]
    simp [hc, Nat.add_assoc]

theorem past_start (cs : List Char) : past ⟨1, 1⟩ cs = placeBehind cs := by
  induction cs using List.reverseRecOn with
  | nil => rfl
  | append_singleton cs c ih =>
    rw [placeBehind_concat, ← ih, past, List.foldl_append]
    rfl

/-- A part of a text, by the numbers of characters in front of its start and of its stop. -/
structure Span where
  start : Nat
  stop : Nat
  deriving DecidableEq, Repr

/-- The characters of the part. -/
def Span.of (i : Span) (cs : List Char) : List Char := (cs.take i.stop).drop i.start

theorem Span.of_eq_take (cs : List Char) (n l : Nat) : Span.of ⟨n, n + l⟩ cs = (cs.drop n).take l := by
  rw [Span.of, List.drop_take, Nat.add_sub_cancel_left]

/-- Between the two parts there is only a gap. -/
def Separated (cs : List Char) (i j : Span) : Prop :=
  i.stop ≤ j.start ∧ IsGap (Span.of ⟨i.stop, j.start⟩ cs) (cs.drop j.start)

/-! ### What a part of a text says -/

/-- The quote at both ends of a literal. -/
def Kind.quote? : Kind → Option Char
  | .char => some '\x27'
  | .string => some '\x22'
  | _ => none

/-- The characters are the text of the token, with quotes around it if it is a literal that has them and then with a
    backslash in front of double quotes. -/
def IsWritten (t : Token) (raw : List Char) : Prop :=
  match t.kind.quote? with
  | some q => ∃ content, raw = q :: (content ++ [q]) ∧ t.text = String.ofList (Grammar.unescaped content)
  | none => t.text = String.ofList raw

/-- The kinds of words. -/
def Kind.words : List Kind := boolean :: ident :: keywords

/-- Would a token of the kind go on with the character behind it? A slash does where a comment begins with it. -/
def Kind.goesOn (k : Kind) (c : Char) : Bool :=
  if k ∈ Kind.words then Scanner.isIdentChar c
  else if k ∈ Kind.singles then
    Kind.pairs.any (fun l => l.text.toList = k.text.toList ++ [c]) || (k = .slash && Scanner.marksComment c)
  else if k = .integer then Text.isAsciiDigit c || c = '.'
  else k = .float && Text.isAsciiDigit c

/-- The characters in front of the rest are the token, and they are all of it. -/
structure IsRead (t : Token) (raw rest : List Char) : Prop where
  nonempty : raw ≠ []
  spelled : Scanner.Spells t.kind raw t.text rest
  written : t.IsWritten raw
  longest : Scanner.NotAhead t.kind.goesOn rest

/-- The token stands at the part of the text. The part of a final token is what is left of the text: nothing, or
    characters that no token begins. -/
structure Covers (cs : List Char) (t : Token) (i : Span) : Prop where
  ordered : i.start ≤ i.stop
  inside : i.stop ≤ cs.length
  position : t.position = placeBehind (cs.take i.start)
  plain : t.kind.isFinal = false → t.IsRead (i.of cs) (cs.drop i.stop)
  final : t.kind.isFinal = true → i.stop = cs.length
  eof : t.kind = .eof → i.start = cs.length
  invalid : t.kind = .invalid → i.start < cs.length ∧
    ∀ k raw text rest, cs.drop i.start = raw ++ rest → ¬Scanner.Spells k raw text rest

theorem Covers.start_lt {cs : List Char} {t : Token} {i : Span} (h : Covers cs t i) (hfinal : t.kind.isFinal = false) :
    i.start < i.stop := by
  have hlength := List.length_pos_iff.mpr (h.plain hfinal).nonempty
  rw [Span.of, List.length_drop, List.length_take] at hlength
  omega

/-! ### Spelled tokens are written out and cannot be longer -/

theorem wordKind_mem_words (word : String) : Scanner.wordKind word ∈ Kind.words := by
  rcases Scanner.wordKind_cases word with ⟨hkind, -⟩ | ⟨hkind, -⟩ | hkind
  · rw [hkind]
    decide
  · exact List.mem_cons_of_mem _ (List.mem_cons_of_mem _ hkind)
  · rw [hkind]
    decide

theorem unescaped_singleton (c : Char) : Grammar.unescaped [c] = [c] := by
  rw [Grammar.unescaped.eq_def]
  dsimp only
  split
  · next hc => rw [hc, Grammar.unescaped]
  · rw [Grammar.unescaped]

theorem isWritten_of_spells {k : Kind} {raw rest : List Char} {text : String} (h : Scanner.Spells k raw text rest)
    (p : Position) : IsWritten ⟨k, text, p⟩ raw := by
  have hplain : ∀ k ∈ Kind.words ++ Kind.pairs ++ Kind.singles, k.quote? = none := by decide
  have hwritten : k.quote? = none → text = String.ofList raw → IsWritten ⟨k, text, p⟩ raw := by
    intro hquote htext
    rw [IsWritten, hquote]
    exact htext
  cases h with
  | integer | float => exact rfl
  | word =>
    exact hwritten (hplain _ (List.mem_append_left _ (List.mem_append_left _ (wordKind_mem_words _)))) rfl
  | @char c => exact ⟨[c], rfl, by rw [unescaped_singleton]; rfl⟩
  | @string raw content _ hcontent =>
    exact ⟨raw, rfl, congrArg String.ofList (Grammar.unescaped_of_stringContent hcontent).symm⟩
  | pair hk =>
    exact hwritten (hplain _ (List.mem_append_left _ (List.mem_append_right _ hk))) String.ofList_toList.symm
  | single hk => exact hwritten (hplain _ (List.mem_append_right _ hk)) String.ofList_toList.symm

theorem goesOn_of_words {k : Kind} (hk : k ∈ Kind.words) : k.goesOn = Scanner.isIdentChar := by
  funext c
  rw [Kind.goesOn, if_pos hk]

theorem goesOn_of_singles {k : Kind} (hk : k ∈ Kind.singles) (c : Char) : k.goesOn c =
    (Kind.pairs.any (fun l => l.text.toList = k.text.toList ++ [c]) || (k = .slash && Scanner.marksComment c)) := by
  have key : ∀ k ∈ Kind.singles, k ∉ Kind.words := by decide
  rw [Kind.goesOn, if_neg (key k hk), if_pos hk]

theorem goesOn_of_pairs {k : Kind} (hk : k ∈ Kind.pairs) (c : Char) : k.goesOn c = false := by
  have key : ∀ k ∈ Kind.pairs, k ∉ Kind.words ∧ k ∉ Kind.singles ∧ k ≠ .integer ∧ k ≠ .float := by decide
  obtain ⟨hwords, hsingles, hinteger, hfloat⟩ := key k hk
  rw [Kind.goesOn, if_neg hwords, if_neg hsingles, if_neg hinteger, decide_eq_false hfloat, Bool.false_and]

/-- No operator of two characters stands where the character behind the first does not go on with it. -/
theorem symbolKind?_eq_none_iff {k : Kind} {rest : List Char} (hk : k ∈ Kind.singles) :
    Scanner.symbolKind? Kind.pairs (String.ofList ((k.text.toList ++ rest).take 2)) = none ↔
      Scanner.NotAhead (fun c => Kind.pairs.any (fun l => l.text.toList = k.text.toList ++ [c])) rest := by
  have hlength := Scanner.length_single hk
  cases rest with
  | nil =>
    have key : ∀ k ∈ Kind.singles, Scanner.symbolKind? Kind.pairs (String.ofList k.text.toList) = none := by decide
    rw [List.append_nil, List.take_of_length_le (by omega)]
    exact ⟨fun _ => nofun, fun _ => key k hk⟩
  | cons c rest =>
    have htake : (k.text.toList ++ c :: rest).take 2 = k.text.toList ++ [c] := by
      rw [List.take_append, hlength, List.take_of_length_le (by omega)]
      rfl
    have hahead (p : Char → Bool) : Scanner.NotAhead p (c :: rest) ↔ p c = false := by simp [Scanner.NotAhead]
    rw [htake, hahead, Scanner.symbolKind?, List.find?_eq_none, List.any_eq_false]
    refine forall₂_congr fun l _ => not_congr ?_
    rw [beq_iff_eq, decide_eq_true_eq, ← String.toList_inj, String.toList_ofList]

theorem notAhead_of_spells {k : Kind} {raw rest : List Char} {text : String} (h : Scanner.Spells k raw text rest)
    (hcomment : k = .slash → Scanner.NotAhead Scanner.marksComment rest) : Scanner.NotAhead k.goesOn rest := by
  cases h with
  | integer _ _ hrest hpoint =>
    intro c hc
    exact Bool.or_eq_false_iff.mpr ⟨hrest c hc, hpoint c hc⟩
  | float _ _ _ hrest => exact hrest
  | word _ _ hrest => rwa [goesOn_of_words (wordKind_mem_words _)]
  | char | string => exact fun c _ => rfl
  | pair hk => exact fun c _ => goesOn_of_pairs hk c
  | single hk hpairs =>
    intro c hc
    rw [goesOn_of_singles hk, Bool.or_eq_false_iff, Bool.and_eq_false_imp]
    exact ⟨(symbolKind?_eq_none_iff hk).mp hpairs c hc, fun hslash => hcomment (of_decide_eq_true hslash) c hc⟩

end Token

namespace Scanner
open Token (Span Covers Separated placeBehind)

/-! ### The scanner within a text -/

/-- The scanner with the first `n` characters of the text behind it. -/
def behind (cs : List Char) (n : Nat) : Scanner := advance n ⟨cs, 0, ⟨1, 1⟩⟩

variable (cs : List Char) (n : Nat)

theorem rest_behind : (behind cs n).rest = cs.drop n := rest_advance n _

theorem position_behind : (behind cs n).position = placeBehind (cs.take n) := by
  rw [behind, position_advance, Token.past_start]

theorem advance_behind (l : Nat) : (behind cs n).advance l = behind cs (n + l) := advance_advance n l _

/-- In front of a slash that the scanner does not skip no comment begins. -/
theorem notAhead_marksComment {s : Scanner} {rest : List Char} (hs : s.skipTrivia.rest = '/' :: rest) :
    NotAhead marksComment rest := by
  have hclear := Grammar.triviaLength_clear (Grammar.isClear_skipTrivia s)
  rw [hs] at hclear
  intro c hc
  obtain ⟨rest, rfl⟩ := List.head?_eq_some_iff.mp hc
  rw [← Bool.not_eq_true, marksComment, Bool.or_eq_true, decide_eq_true_eq, decide_eq_true_eq]
  rintro (rfl | rfl) <;> cases hclear

theorem spells_slash {raw rest : List Char} {text : String} (h : Spells .slash raw text rest) : raw = ['/'] := by
  generalize hk : Token.Kind.slash = k at h
  cases h with
  | @word c cs =>
    have hmem := Token.wordKind_mem_words (String.ofList (c :: cs))
    rw [← hk] at hmem
    exact absurd hmem (by decide)
  | pair | single => subst hk; rfl
  | _ => cases hk

theorem next_skipTrivia (s : Scanner) : s.skipTrivia.next = s.next := by
  rw [next, next, Grammar.skipTrivia_of_isClear (Grammar.isClear_skipTrivia s)]

theorem kind_next_of_end {s : Scanner} (h : s.skipTrivia.rest = []) : s.next.1.kind = .eof := by
  unfold next
  dsimp only
  rw [h]

variable {cs} {i : Span}

/-- In front of the next token the scanner skips a gap. -/
theorem exists_gap (hi : i.stop ≤ cs.length) : ∃ m, (behind cs i.stop).skipTrivia = behind cs m ∧ m ≤ cs.length ∧
    ∀ stop, Separated cs i ⟨m, stop⟩ := by
  refine ⟨i.stop + triviaLength .between (cs.drop i.stop), ?_, ?_, fun stop => ⟨Nat.le_add_right _ _, ?_⟩⟩
  · rw [skipTrivia, advance_behind, rest_behind]
  · have hle := triviaLength_le .between (cs.drop i.stop)
    rw [List.length_drop] at hle
    omega
  · have hgap := isGap_take (cs.drop i.stop)
    rwa [← Span.of_eq_take, List.drop_drop] at hgap

/-- The end of input stands behind all characters. -/
theorem covers_eof (cs : List Char) :
    Covers cs ⟨.eof, "", placeBehind (cs.take cs.length)⟩ ⟨cs.length, cs.length⟩ :=
  ⟨Nat.le_refl _, Nat.le_refl _, rfl, nofun, fun _ => rfl, fun _ => rfl, nofun⟩

/-- A token that is spelled behind a gap covers its characters. -/
theorem covers_spelled {k : Token.Kind} {raw rest : List Char} {text : String} {m : Nat} (hm : m ≤ cs.length)
    (hrest : cs.drop m = raw ++ rest) (hspells : Spells k raw text rest)
    (hcomment : k = .slash → NotAhead marksComment rest) :
    Covers cs ⟨k, text, placeBehind (cs.take m)⟩ ⟨m, m + raw.length⟩ := by
  have hfinal := Grammar.isFinal_of_spells hspells
  have hlength := congrArg List.length hrest
  rw [List.length_drop, List.length_append] at hlength
  have hraw : Span.of ⟨m, m + raw.length⟩ cs = raw := by rw [Span.of_eq_take, hrest, List.take_left]
  have hdrop : cs.drop (m + raw.length) = rest := by rw [← List.drop_drop, hrest, List.drop_left]
  refine ⟨Nat.le_add_right _ _, ?_, rfl, fun _ => ?_, fun h => ?_, fun h => ?_, fun h => ?_⟩
  · show m + raw.length ≤ cs.length
    omega
  · rw [hraw, hdrop]
    exact ⟨hspells.raw_ne_nil, hspells, Token.isWritten_of_spells hspells _, Token.notAhead_of_spells hspells hcomment⟩
  · exact nomatch hfinal.symm.trans h
  · exact nomatch hfinal.symm.trans (congrArg Token.Kind.isFinal h)
  · exact nomatch hfinal.symm.trans (congrArg Token.Kind.isFinal h)

/-- What the scanner finds next covers a part of the text behind a gap, and if it is not final the scanner then
    stands behind this part. -/
theorem next_covers (hi : i.stop ≤ cs.length) :
    ∃ j, Separated cs i j ∧ Covers cs (behind cs i.stop).next.1 j ∧
      ((behind cs i.stop).next.1.kind.isFinal = false → (behind cs i.stop).next.2 = behind cs j.stop) := by
  obtain ⟨m, hskip, hm, hgap⟩ := exists_gap hi
  have hnext : (behind cs i.stop).next = (behind cs m).next := by rw [← next_skipTrivia, hskip]
  have hfinds := next_finds (behind cs i.stop)
  have hend := @kind_next_of_end (behind cs i.stop)
  have hslash := @notAhead_marksComment (behind cs i.stop)
  rw [hskip, hnext] at hfinds
  rw [hskip, hnext, rest_behind] at hend
  rw [hskip, rest_behind] at hslash
  have hcomment : ∀ {k raw text rest}, cs.drop m = raw ++ rest → Spells k raw text rest → k = .slash →
      NotAhead marksComment rest := by
    rintro k raw text rest hrest hspells rfl
    rw [spells_slash hspells] at hrest
    exact hslash hrest
  -- a spelled token would have been found, so that none begins where a fault is
  have hspelled : ∀ k raw text rest, cs.drop m = raw ++ rest → Spells k raw text rest →
      (behind cs m).next.1.kind.isFinal = false := by
    intro k raw text rest hrest hspells
    rw [next_spelled ((rest_behind cs m).trans hrest) hspells (hcomment hrest hspells)]
    exact Grammar.isFinal_of_spells hspells
  rw [hnext]
  generalize (behind cs m).next = r at hfinds hend hspelled
  cases hfinds with
  | eof hrest =>
    rw [rest_behind, List.drop_eq_nil_iff] at hrest
    obtain rfl := Nat.le_antisymm hm hrest
    rw [position_behind]
    exact ⟨_, hgap _, covers_eof cs, nofun⟩
  | token rest hrest hspells =>
    rw [rest_behind] at hrest
    rw [position_behind, advance_behind]
    exact ⟨_, hgap _, covers_spelled hm hrest hspells (hcomment hrest hspells), fun _ => rfl⟩
  | fault =>
    have hstart : m < cs.length := Nat.lt_of_not_le fun hle => nomatch hend (List.drop_eq_nil_of_le hle)
    have hnone : ∀ k raw text rest, cs.drop m = raw ++ rest → ¬Spells k raw text rest :=
      fun k raw text rest hrest hspells => nomatch hspelled k raw text rest hrest hspells
    refine ⟨⟨m, cs.length⟩, hgap _, ?_, nofun⟩
    exact ⟨hm, Nat.le_refl _, position_behind cs m, nofun, fun _ => rfl, nofun, fun _ => ⟨hstart, hnone⟩⟩

/-- From behind any part of the text on, the tokens cover parts of it, one behind the other. -/
theorem tokens_cover (i : Span) (hi : i.stop ≤ cs.length) :
    ∃ spans, List.IsChain (Separated cs) (i :: spans) ∧ List.Forall₂ (Covers cs) (behind cs i.stop).tokens spans := by
  obtain ⟨j, hgap, hcovers, hnext⟩ := next_covers hi
  rw [tokens_eq]
  split
  · exact ⟨[j], .cons_cons hgap (.singleton j), .cons hcovers .nil⟩
  · next hfinal =>
    have hplain := Bool.eq_false_iff.mpr hfinal
    have hlt := Nat.lt_of_le_of_lt hgap.1 (hcovers.start_lt hplain)
    obtain ⟨spans, hchain, hforall⟩ := tokens_cover j hcovers.inside
    rw [hnext hplain]
    exact ⟨j :: spans, .cons_cons hgap hchain, .cons hcovers hforall⟩
termination_by cs.length - i.stop
decreasing_by exact Nat.sub_lt_sub_left (Nat.lt_of_lt_of_le hlt hcovers.inside) hlt

end Scanner

/-- The tokens of a text end in a final one and no other of them is final, and they stand at parts of the text, one
    behind the other, with nothing but gaps in front of them. -/
theorem tokenize_covers (text : String) :
    (∃ body last, tokenize text = body ++ [last] ∧ last.kind.isFinal = true ∧ ∀ t ∈ body, t.kind.isFinal = false) ∧
    ∃ spans, List.IsChain (Token.Separated text.toList) (⟨0, 0⟩ :: spans) ∧
      List.Forall₂ (Token.Covers text.toList) (tokenize text) spans :=
  ⟨Scanner.tokens_closed _, Scanner.tokens_cover ⟨0, 0⟩ (Nat.zero_le _)⟩

end TypedImp
