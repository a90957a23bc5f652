import TypedImp.Proofs.Token.Cover

/-! Other gaps between the same tokens. The scanner skips every gap as a whole, whatever a comment in it holds, and a
    blank ends every token; so the text between two tokens may be replaced by other blanks and comments that begin
    with a blank, and the text in front of the first token by any. The tokens keep their kinds and texts, and only
    their places change. -/

namespace TypedImp
namespace Token

/-! ### Closed trivia -/

/-- Blanks and comments, each comment closed: by a newline, or by a star and a slash. -/
inductive IsTrivia : List Char → Prop
  | nil : IsTrivia []
  | blank {c : Char} {cs : List Char} : Scanner.isSpace c = true → IsTrivia cs → IsTrivia (c :: cs)
  | lineComment {body cs : List Char} : '\n' ∉ body → IsTrivia cs → IsTrivia ('/' :: '/' :: (body ++ '\n' :: cs))
  | blockComment {body cs : List Char} : IsUnclosed body → IsTrivia cs →
      IsTrivia ('/' :: '*' :: (body ++ '*' :: '/' :: cs))

/-- Closed trivia are a gap in front of everything. -/
theorem IsTrivia.isGap {cs : List Char} (h : IsTrivia cs) (rest : List Char) : IsGap cs rest := by
  induction h with
  | nil => exact .nil
  | blank hc _ ih => exact .blank hc ih
  | lineComment hbody _ ih =>
    refine .lineComment hbody (fun c hc => ?_) (.blank (by decide) ih)
    cases hc
    rfl
  | blockComment hbody _ ih => exact .blockComment hbody ih

theorem IsUnclosed.of_cons {c : Char} {cs : List Char} (h : IsUnclosed (c :: cs)) :
    (c = '*' → cs.head? ≠ some '/') ∧ IsUnclosed cs := by
  refine ⟨?_, fun hinfix => h (List.infix_cons hinfix)⟩
  rintro rfl hhead
  obtain ⟨ds, rfl⟩ := List.head?_eq_some_iff.mp hhead
  exact h ⟨[], ds, rfl⟩

/-- A gap in front of some characters is one in front of all others that begin with the same character. -/
theorem IsGap.congr {cs rest rest' : List Char} (h : IsGap cs rest) (hhead : rest'.head? = rest.head?) :
    IsGap cs rest' := by
  induction h with
  | nil => exact .nil
  | blank hc _ ih => exact .blank hc (ih hhead)
  | lineComment hbody hnewline _ ih =>
    refine .lineComment hbody (fun c hc => hnewline c ?_) (ih hhead)
    rwa [List.head?_append, hhead, ← List.head?_append] at hc
  | blockComment hbody _ ih => exact .blockComment hbody (ih hhead)
  | openComment hbody =>
    rw [List.head?_nil, List.head?_eq_none_iff] at hhead
    rw [hhead]
    exact .openComment hbody

end Token

namespace Scanner
open Token (IsGap IsUnclosed)

/-! ### Gaps are skipped as a whole -/

theorem triviaLength_line {body : List Char} (hbody : '\n' ∉ body) {cs : List Char} (hcs : ∀ c ∈ cs.head?, c = '\n') :
    triviaLength .lineComment (body ++ cs) = body.length + triviaLength .between cs := by
  have htake : (body ++ cs).takeWhile (· ≠ '\n') = body := by
    have hplain : ∀ c ∈ body, decide (c ≠ '\n') = true := fun c hc => decide_eq_true fun hnewline => hbody (hnewline ▸ hc)
    refine takeWhile_append_of_notAhead hplain fun c hc => ?_
    rw [hcs c hc]
    rfl
  rw [Grammar.triviaLength_lineComment, htake, List.drop_left]

theorem triviaLength_block_cons {c : Char} {cs : List Char} (hc : c = '*' → cs.head? ≠ some '/') :
    triviaLength .blockComment (c :: cs) = triviaLength .blockComment cs + 1 := by
  rw [triviaLength.eq_def]
  dsimp only
  split
  · next hstar =>
    split
    · exact absurd rfl (hc hstar)
    · rfl
  · rfl

/-- Characters that close no comment are skipped within one. -/
theorem triviaLength_block {body cs : List Char} (hbody : IsUnclosed body) (hcs : cs.head? ≠ some '/') :
    triviaLength .blockComment (body ++ cs) = body.length + triviaLength .blockComment cs := by
  induction body with
  | nil => rw [List.nil_append, List.length_nil, Nat.zero_add]
  | cons c body ih =>
    obtain ⟨hhead, hrest⟩ := hbody.of_cons
    have hnext : c = '*' → (body ++ cs).head? ≠ some '/' := by
      intro hc
      cases body with
      | nil => exact hcs
      | cons d body => exact hhead hc
    rw [List.cons_append, triviaLength_block_cons hnext, ih hrest, List.length_cons]
    omega

/-- A gap is skipped, and then what is to skip behind it. -/
theorem triviaLength_gap {cs rest : List Char} (h : IsGap cs rest) :
    triviaLength .between (cs ++ rest) = cs.length + triviaLength .between rest := by
  induction h with
  | nil => rw [List.nil_append, List.length_nil, Nat.zero_add]
  | blank hc _ ih =>
    rw [List.cons_append, Grammar.triviaLength_space hc, ih, List.length_cons]
    omega
  | @lineComment body cs rest hbody hnewline _ ih =>
    have hopen : triviaLength .between ('/' :: '/' :: (body ++ (cs ++ rest))) =
        triviaLength .lineComment (body ++ (cs ++ rest)) + 2 := by simp [triviaLength, isSpace]
    rw [List.cons_append, List.cons_append, List.append_assoc, hopen, triviaLength_line hbody hnewline, ih]
    simp only [List.length_cons, List.length_append]
    omega
  | @blockComment body cs rest hbody _ ih =>
    have hopen : triviaLength .between ('/' :: '*' :: (body ++ '*' :: '/' :: (cs ++ rest))) =
        triviaLength .blockComment (body ++ '*' :: '/' :: (cs ++ rest)) + 2 := by simp [triviaLength, isSpace]
    have hclose : triviaLength .blockComment ('*' :: '/' :: (cs ++ rest)) = triviaLength .between (cs ++ rest) + 2 := by
      simp [triviaLength]
    have happend : '/' :: '*' :: (body ++ '*' :: '/' :: cs) ++ rest =
        '/' :: '*' :: (body ++ '*' :: '/' :: (cs ++ rest)) := by
      simp
    rw [happend, hopen, triviaLength_block hbody (by simp), hclose, ih]
    simp only [List.length_cons, List.length_append]
    omega
  | @openComment body hbody =>
    have hopen : triviaLength .between ('/' :: '*' :: body) = triviaLength .blockComment body + 2 := by
      simp [triviaLength, isSpace]
    have hskip := @triviaLength_block body [] hbody (by simp)
    rw [List.append_nil] at hskip
    rw [List.append_nil, hopen, hskip]
    rfl

/-- A gap in front does not change what is found next, but for its place. -/
theorem next_gap {s : Scanner} {cs rest : List Char} (hs : s.rest = cs ++ rest) (h : IsGap cs rest) :
    s.next = (s.advance cs.length).next := by
  have hskip : s.skipTrivia = (s.advance cs.length).skipTrivia := by
    rw [skipTrivia, skipTrivia, rest_advance, advance_advance, hs, List.drop_left, triviaLength_gap h]
  rw [← next_skipTrivia, hskip, next_skipTrivia]

/-! ### Tokens in front of other characters -/

/-- What is spelled as a token is so in front of all characters with which the token does not go on. -/
theorem Spells.congr {k : Token.Kind} {raw rest rest' : List Char} {text : String} (h : Spells k raw text rest)
    (hrest' : NotAhead k.goesOn rest') : Spells k raw text rest' := by
  cases h with
  | integer hne hraw _ _ =>
    exact .integer hne hraw (fun c hc => (Bool.or_eq_false_iff.mp (hrest' c hc)).1)
      fun c hc => (Bool.or_eq_false_iff.mp (hrest' c hc)).2
  | float hne hwhole hfraction _ => exact .float hne hwhole hfraction hrest'
  | word hc hcs _ =>
    rw [Token.goesOn_of_words (Token.wordKind_mem_words _)] at hrest'
    exact .word hc hcs hrest'
  | char hnewline hquote => exact .char hnewline hquote
  | string hcontent =>
    have hunescaped := Grammar.unescaped_of_stringContent hcontent
    exact .string (hunescaped ▸ Grammar.stringContent_congr hcontent rest')
  | pair hk => exact .pair hk
  | single hk _ =>
    refine .single hk ((Token.symbolKind?_eq_none_iff hk).mpr fun c hc => ?_)
    have hgoes := hrest' c hc
    rw [Token.goesOn_of_singles hk] at hgoes
    exact (Bool.or_eq_false_iff.mp hgoes).1

end Scanner

namespace Token

/-- No token goes on with a blank. -/
theorem goesOn_of_isSpace {c : Char} (k : Kind) (hc : Scanner.isSpace c = true) : k.goesOn c = false := by
  have key : ∀ k ∈ Kind.all, [' ', '\t', '\x0c', '\r', '\n'].any k.goesOn = false := by decide
  have hmem : c ∈ [' ', '\t', '\x0c', '\r', '\n'] := by simpa [Scanner.isSpace, or_assoc] using hc
  exact Bool.eq_false_iff.mpr (List.any_eq_false.mp (key k k.mem_all) c hmem)

/-! ### Texts with other gaps -/

/-- The token without its place. -/
def word (t : Token) : Word := (t.kind, t.text)

/-- The characters are the parts of the text with gaps in front of them: the gap that is there, behind part `i` for the
    first one, or any closed trivia that begin with a blank. -/
inductive Respaced (cs : List Char) : Span → List Span → List Char → Prop
  | nil {i : Span} : Respaced cs i [] []
  | kept {i j : Span} {spans : List Span} {out : List Char} : Respaced cs j spans out →
      Respaced cs i (j :: spans) (Span.of ⟨i.stop, j.start⟩ cs ++ (j.of cs ++ out))
  | replaced {i j : Span} {spans : List Span} {c : Char} {gap out : List Char} : Scanner.isSpace c = true →
      IsTrivia gap → Respaced cs j spans out → Respaced cs i (j :: spans) (c :: gap ++ (j.of cs ++ out))

theorem Span.of_append_drop (cs : List Char) {i : Span} (h : i.start ≤ i.stop) :
    i.of cs ++ cs.drop i.stop = cs.drop i.start := by
  obtain ⟨l, hl⟩ := Nat.exists_eq_add_of_le h
  obtain ⟨start, stop⟩ := i
  dsimp only at hl ⊢
  rw [hl, Span.of_eq_take, ← List.drop_drop, List.take_append_drop]

theorem notAhead_append {p : Char → Bool} {cs rest rest' : List Char} (h : Scanner.NotAhead p (cs ++ rest))
    (hrest : Scanner.NotAhead p rest → Scanner.NotAhead p rest') : Scanner.NotAhead p (cs ++ rest') := by
  cases cs with
  | nil => exact hrest h
  | cons c cs => exact h

/-- What does not stand behind a token does not stand there if the gaps are other ones, unless it is a blank. -/
theorem Respaced.notAhead {p : Char → Bool} (hp : ∀ c, Scanner.isSpace c = true → p c = false) {cs : List Char}
    {i : Span} {spans : List Span} {out : List Char} (h : Respaced cs i spans out) {ts : List Token}
    (hchain : List.IsChain (Separated cs) (i :: spans)) (hcovers : List.Forall₂ (Covers cs) ts spans)
    (hi : Scanner.NotAhead p (cs.drop i.stop)) : Scanner.NotAhead p out := by
  induction h generalizing ts with
  | nil => exact nofun
  | @kept i j spans out _ ih =>
    obtain ⟨⟨hle, -⟩, hchain⟩ := List.isChain_cons_cons.mp hchain
    obtain ⟨t, ts, ht, hcovers', rfl⟩ := List.forall₂_cons_right_iff.mp hcovers
    have hgap : Span.of ⟨i.stop, j.start⟩ cs ++ cs.drop j.start = cs.drop i.stop := Span.of_append_drop cs hle
    rw [← hgap] at hi
    refine notAhead_append hi fun hstart => ?_
    rw [← Span.of_append_drop cs ht.ordered] at hstart
    exact notAhead_append hstart (ih hchain hcovers')
  | replaced hc _ _ _ =>
    rintro d ⟨⟩
    exact hp _ hc

/-- One text is the other with other gaps. Each is kept or replaced by closed trivia, in front of the first token by any
    and between two tokens by such that begin with a blank. -/
inductive Respaces (text text' : String) : Prop
  | intro {j : Span} {spans : List Span} {gap out : List Char} :
      List.IsChain (Separated text.toList) (⟨0, 0⟩ :: j :: spans) →
      List.Forall₂ (Covers text.toList) (tokenize text) (j :: spans) →
      (gap = Span.of ⟨0, j.start⟩ text.toList ∨ IsTrivia gap) → Respaced text.toList j spans out →
      text'.toList = gap ++ (j.of text.toList ++ out) → Respaces text text'

/-! ### The tokens of both texts -/

section Tokens
variable {cs gap out : List Char} {t : Token} {ts : List Token} {j : Span} {spans : List Span} {s : Scanner}

/-- All gaps may be kept. -/
theorem respaced_self (hchain : List.IsChain (Separated cs) (j :: spans)) (ht : Covers cs t j)
    (hcovers : List.Forall₂ (Covers cs) ts spans) (proper : Syntax.Proper (t :: ts)) :
    Respaced cs j spans (cs.drop j.stop) := by
  induction spans generalizing j t ts with
  | nil =>
    obtain rfl := List.forall₂_nil_right_iff.mp hcovers
    have hfinal : t.kind.isFinal = true := by rw [proper.kind_of_singleton]; rfl
    rw [ht.final hfinal, List.drop_length]
    exact .nil
  | cons k spans ih =>
    obtain ⟨u, us, hu, hcovers', rfl⟩ := List.forall₂_cons_right_iff.mp hcovers
    obtain ⟨⟨hle, -⟩, hchain'⟩ := List.isChain_cons_cons.mp hchain
    have hgap : Span.of ⟨j.stop, k.start⟩ cs ++ cs.drop k.start = cs.drop j.stop := Span.of_append_drop cs hle
    rw [← hgap, ← Span.of_append_drop cs hu.ordered]
    exact .kept (ih hchain' hu hcovers' (proper.tail (List.cons_ne_nil u us)).2)

/-- Behind a gap a token is found that is written in front of the same characters or of a blank. -/
theorem next_of_isRead {raw rest : List Char} (hs : s.rest = gap ++ (raw ++ out)) (hgap : IsGap gap (raw ++ out))
    (ht : t.IsRead raw rest) (hout : Scanner.NotAhead t.kind.goesOn out) :
    s.next.1.word = t.word ∧ s.next.2.rest = out := by
  have hrest : (s.advance gap.length).rest = raw ++ out := by rw [Scanner.rest_advance, hs, List.drop_left]
  have hcomment : t.kind = .slash → Scanner.NotAhead Scanner.marksComment out := by
    intro hslash c hc
    have hgoes := hout c hc
    rw [hslash, goesOn_of_singles (by decide)] at hgoes
    exact (Bool.or_eq_false_iff.mp hgoes).2
  rw [(Scanner.next_gap hs hgap).trans (Scanner.next_spelled hrest (ht.spelled.congr hout) hcomment)]
  exact ⟨rfl, by rw [Scanner.rest_advance, hrest, List.drop_left]⟩

/-- A gap in front of a token is kept with it. -/
theorem isGap_kept (ht : Covers cs t j) (hspans : List.Forall₂ (Covers cs) ts spans) (proper : Syntax.Proper (t :: ts))
    (h : Respaced cs j spans out) (hgap : IsGap gap (cs.drop j.start)) : IsGap gap (j.of cs ++ out) := by
  refine hgap.congr ?_
  cases hfinal : t.kind.isFinal with
  | false =>
    obtain ⟨c, raw, hraw⟩ := List.exists_cons_of_ne_nil (ht.plain hfinal).nonempty
    rw [← Span.of_append_drop cs ht.ordered, hraw]
    rfl
  | true =>
    -- only the last token is final, and no part stands behind it
    obtain rfl : ts = [] := by
      by_contra hts
      exact nomatch hfinal.symm.trans (proper.tail hts).1
    obtain rfl := List.forall₂_nil_left_iff.mp hspans
    cases h
    have hstart := ht.eof proper.kind_of_singleton
    rw [Span.of, hstart, ht.final hfinal, List.take_length, List.drop_length]
    rfl

/-- Behind the last gap only the end of input is found. -/
theorem map_word_tokens_of_end (hs : s.rest = gap) (hgap : IsGap gap []) : s.tokens.map word = [(.eof, "")] := by
  have hskip : s.skipTrivia.rest = [] := by
    have hlength := Scanner.triviaLength_gap hgap
    rw [List.append_nil, ← hs] at hlength
    rw [Scanner.skipTrivia, Scanner.rest_advance, hlength]
    exact List.drop_eq_nil_of_le (by rw [hs]; exact Nat.le_add_right _ _)
  rw [Grammar.tokens_of_end hskip]
  rfl

theorem word_of_eof (ht : t.Fits) (hkind : t.kind = .eof) : t.word = (.eof, "") := by
  rw [Token.Fits, hkind] at ht
  rw [word, hkind, ht]

/-- Behind any gap the scanner finds the tokens of the parts that it finds in the text. -/
theorem map_word_tokens (hchain : List.IsChain (Separated cs) (j :: spans)) (ht : Covers cs t j)
    (hcovers : List.Forall₂ (Covers cs) ts spans) (proper : Syntax.Proper (t :: ts)) (h : Respaced cs j spans out)
    (hs : s.rest = gap ++ (j.of cs ++ out)) (hgap : IsGap gap (j.of cs ++ out)) :
    s.tokens.map word = (t :: ts).map word := by
  induction spans generalizing j t ts gap out s with
  | nil =>
    obtain rfl := List.forall₂_nil_right_iff.mp hcovers
    cases h
    have heof := proper.kind_of_singleton
    have hempty : j.of cs = [] := by rw [Span.of, ht.eof heof, List.drop_eq_nil_iff]; exact List.length_take_le' _ _
    rw [hempty, List.append_nil] at hs hgap
    rw [map_word_tokens_of_end (hs.trans (List.append_nil gap)) hgap, List.map_singleton,
      word_of_eof (proper.fits t (List.mem_singleton_self t)) heof]
  | cons k spans ih =>
    obtain ⟨u, us, hu, hcovers', rfl⟩ := List.forall₂_cons_right_iff.mp hcovers
    obtain ⟨⟨-, hgap'⟩, hchain'⟩ := List.isChain_cons_cons.mp hchain
    obtain ⟨hfinal, proper'⟩ := proper.tail (List.cons_ne_nil u us)
    have hread := ht.plain hfinal
    have hout := h.notAhead (fun c hc => goesOn_of_isSpace t.kind hc) hchain hcovers hread.longest
    obtain ⟨hword, hrest⟩ := next_of_isRead hs hgap hread hout
    have hkind : s.next.1.kind = t.kind := congrArg Prod.fst hword
    rw [Scanner.tokens_eq, hkind, if_neg (Bool.eq_false_iff.mp hfinal), List.map_cons, List.map_cons, hword]
    congr 1
    cases h with
    | kept h => exact ih hchain' hu hcovers' proper' h hrest (isGap_kept hu hcovers' proper' h hgap')
    | replaced hc htrivia h => exact ih hchain' hu hcovers' proper' h hrest (.blank hc (htrivia.isGap _))

end Tokens

end Token

theorem Token.Respaces.refl {text : String} (proper : Syntax.Proper (tokenize text)) : Token.Respaces text text := by
  obtain ⟨spans, hchain, hcovers⟩ := @Scanner.tokens_cover text.toList ⟨0, 0⟩ (Nat.zero_le _)
  change List.Forall₂ _ (tokenize text) spans at hcovers
  generalize hts : tokenize text = ts at proper hcovers
  cases hcovers with
  | nil => exact absurd proper.closed (by simp)
  | @cons t j ts spans ht hcovers =>
    obtain ⟨⟨hle, -⟩, hchain'⟩ := List.isChain_cons_cons.mp hchain
    have hgap : Token.Span.of ⟨0, j.start⟩ text.toList ++ text.toList.drop j.start = text.toList :=
      Token.Span.of_append_drop _ hle
    refine ⟨hchain, hts ▸ .cons ht hcovers, .inl rfl, Token.respaced_self hchain' ht hcovers proper, ?_⟩
    rw [Token.Span.of_append_drop _ ht.ordered, hgap]

/-- A text with other gaps has the same tokens, but for their places. -/
theorem map_word_tokenize {text text' : String} (proper : Syntax.Proper (tokenize text))
    (h : Token.Respaces text text') : (tokenize text').map Token.word = (tokenize text).map Token.word := by
  obtain ⟨hchain, hcovers, hgap, hrespaced, htext⟩ := h
  obtain ⟨⟨-, hfirst⟩, hchain⟩ := List.isChain_cons_cons.mp hchain
  obtain ⟨t, ts, ht, hcovers, hts⟩ := List.forall₂_cons_right_iff.mp hcovers
  rw [hts] at proper ⊢
  refine Token.map_word_tokens hchain ht hcovers proper hrespaced htext ?_
  rcases hgap with rfl | htrivia
  · exact Token.isGap_kept ht hcovers proper hrespaced hfirst
  · exact htrivia.isGap _

end TypedImp
