import TypedImp.Proofs.Syntax.Recognition
import TypedImp.Proofs.Token.Spelling

/-! The scanner moves on with every token, so that the tokens of a text end in a final one and no other of
    them is final. Every token has a text of its kind. -/

namespace TypedImp
namespace Scanner

/-! ### Moving on -/

theorem Spells.raw_ne_nil {k : Token.Kind} {raw rest : List Char} {text : String} (h : Spells k raw text rest) :
    raw ≠ [] := by
  cases h with
  | integer hne _ _ _ => exact hne
  | float => simp
  | word => exact List.cons_ne_nil _ _
  | char => exact List.cons_ne_nil _ _
  | string => exact List.cons_ne_nil _ _
  | pair hk => exact List.ne_nil_of_length_pos (by rw [length_pair hk]; decide)
  | single hk _ => exact List.ne_nil_of_length_pos (by rw [length_single hk]; decide)

theorem length_rest_skipTrivia (s : Scanner) : s.skipTrivia.rest.length ≤ s.rest.length := by
  rw [skipTrivia, length_rest_advance]
  exact Nat.sub_le _ _

/-- Every token that is not final takes a part of the text. -/
theorem length_rest_next {s : Scanner} (h : s.next.1.kind.isFinal = false) :
    s.next.2.rest.length < s.rest.length := by
  have hfinds := next_finds s
  have htrivia := length_rest_skipTrivia s
  generalize s.next = r at h hfinds
  cases hfinds with
  | eof hrest => cases h
  | fault => cases h
  | token rest hrest hspells =>
    have hraw := List.length_pos_iff.mpr hspells.raw_ne_nil
    rw [hrest, List.length_append] at htrivia
    rw [length_rest_advance, hrest, List.length_append]
    omega

theorem tokens_eq (s : Scanner) :
    s.tokens = if s.next.1.kind.isFinal then [s.next.1] else s.next.1 :: s.next.2.tokens := by
  rw [tokens]
  split
  · rfl
  · next h => rw [dif_pos (length_rest_next (Bool.eq_false_iff.mpr h))]

/-! ### Tokens within a bound -/

/-- The tokens of a text that is shorter than `n`, by recursion on `n`. -/
def tokensWithin : Nat → Scanner → List Token
  | 0, _ => []
  | n + 1, s => if s.next.1.kind.isFinal then [s.next.1] else s.next.1 :: tokensWithin n s.next.2

theorem tokensWithin_eq {n : Nat} {s : Scanner} (h : s.rest.length < n) : tokensWithin n s = s.tokens := by
  induction n generalizing s with
  | zero => omega
  | succ n ih =>
    rw [tokens_eq, tokensWithin]
    split
    · rfl
    · next hfinal =>
      have hlt := length_rest_next (Bool.eq_false_iff.mpr hfinal)
      rw [ih (by omega)]

/-! ### The end of the tokens -/

theorem tokens_closed (s : Scanner) :
    ∃ body last, s.tokens = body ++ [last] ∧ last.kind.isFinal = true ∧ ∀ t ∈ body, t.kind.isFinal = false := by
  rw [tokens_eq]
  split
  · next hfinal => exact ⟨[], s.next.1, rfl, hfinal, by simp⟩
  · next hfinal =>
    have hplain := Bool.eq_false_iff.mpr hfinal
    have := length_rest_next hplain
    obtain ⟨body, last, hts, hlast, hbody⟩ := tokens_closed s.next.2
    exact ⟨s.next.1 :: body, last, by rw [hts, List.cons_append], hlast, List.forall_mem_cons.mpr ⟨hplain, hbody⟩⟩
termination_by s.rest.length

/-! ### The texts of the tokens -/

theorem wordKind_cases (word : String) :
    (wordKind word = .boolean ∧ (word = "true" ∨ word = "false")) ∨
      (wordKind word ∈ Token.Kind.keywords ∧ word = (wordKind word).text) ∨ wordKind word = .ident := by
  by_cases hword : word = "true" ∨ word = "false"
  · exact .inl ⟨by simp [wordKind, hword], hword⟩
  · have hkind : wordKind word = (Token.Kind.keywords.find? fun k => k.text == word).getD .ident := by
      simp [wordKind, hword]
    cases hfind : Token.Kind.keywords.find? fun k => k.text == word with
    | none =>
      rw [hfind] at hkind
      exact .inr (.inr hkind)
    | some k =>
      rw [hfind] at hkind
      have htext := List.find?_some hfind
      exact .inr (.inl ⟨hkind ▸ List.mem_of_find?_eq_some hfind, hkind ▸ (beq_iff_eq.mp htext).symm⟩)

/-- A kind that has only one text fits with it. -/
theorem fits_text {k : Token.Kind} (h : k ∈ Token.Kind.keywords ++ Token.Kind.pairs ++ Token.Kind.singles)
    (p : Position) : Token.Fits ⟨k, k.text, p⟩ := by
  cases k with
  | integer | float | char | boolean | string | ident | eof | invalid => exact absurd h (by decide)
  | _ => exact rfl

theorem Spells.fits {k : Token.Kind} {raw rest : List Char} {text : String} (h : Spells k raw text rest)
    (p : Position) : Token.Fits ⟨k, text, p⟩ := by
  cases h with
  | integer hne hdigits _ _ =>
    show (String.ofList raw).toList ≠ [] ∧ Token.AreDigits (String.ofList raw).toList
    rw [String.toList_ofList]
    exact ⟨hne, hdigits⟩
  | float hne hwhole hfraction _ => exact ⟨_, _, String.toList_ofList .., hne, hwhole, hfraction⟩
  | @word c cs _ hstart hchars _ =>
    rcases wordKind_cases (String.ofList (c :: cs)) with ⟨hkind, htext⟩ | ⟨hkind, htext⟩ | hkind
    · rw [hkind]
      exact htext
    · have := fits_text (List.mem_append_left _ (List.mem_append_left _ hkind)) p
      rwa [← htext] at this
    · rw [hkind]
      exact ⟨c, cs, String.toList_ofList .., hstart, hchars, hkind⟩
  | char hnewline hquote => exact ⟨_, rfl, hnewline, hquote⟩
  | string => trivial
  | pair hk => exact fits_text (List.mem_append_left _ (List.mem_append_right _ hk)) p
  | single hk _ => exact fits_text (List.mem_append_right _ hk) p

theorem next_fits (s : Scanner) : s.next.1.Fits := by
  have hfinds := next_finds s
  generalize s.next = r at hfinds
  cases hfinds with
  | eof => exact rfl
  | token _ _ hspells => exact hspells.fits _
  | fault => trivial

theorem tokens_fit (s : Scanner) : ∀ t ∈ s.tokens, t.Fits := by
  rw [tokens_eq]
  split
  · simpa using next_fits s
  · next hfinal =>
    have := length_rest_next (Bool.eq_false_iff.mpr hfinal)
    exact List.forall_mem_cons.mpr ⟨next_fits s, tokens_fit s.next.2⟩
termination_by s.rest.length

end Scanner

theorem tokenize_eq_tokensWithin (text : String) :
    tokenize text = (Scanner.ofText text).tokensWithin (text.toList.length + 1) :=
  (Scanner.tokensWithin_eq (Nat.lt_succ_self _)).symm

/-! ### Reserved words -/

/-- The keywords and the two truth values. -/
def Token.reservedWords : List String := Token.Kind.keywords.map Token.Kind.text ++ ["true", "false"]

/-- The scanner reads every other word as a name. -/
theorem Scanner.wordKind_eq_ident {word : String} (h : word ∉ Token.reservedWords) : wordKind word = .ident := by
  rcases wordKind_cases word with ⟨-, rfl | rfl⟩ | ⟨hkind, htext⟩ | hkind
  · exact absurd (by decide) h
  · exact absurd (by decide) h
  · exact absurd (List.mem_append_left _ (List.mem_map.mpr ⟨_, hkind, htext.symm⟩)) h
  · exact hkind

theorem Ty.name_not_reserved (ty : Ty) : ty.name ∉ Token.reservedWords := by
  cases ty <;> decide

/-! ### Texts that are programs -/

namespace Syntax

/-- Statements are read up to an end of input. -/
theorem eof_mem_of_statements {n : Nat} {ts : TokenStream} {c c' : Cursor} {ss : List Stmt}
    (h : Parser.statements n ts c = .ok ss c') : ∃ i, (ts.get i).kind = .eof := by
  induction n generalizing c c' ss with
  | zero => exact absurd h throw_ne_ok
  | succ n ih =>
    obtain ⟨eof, d, hnext, h⟩ := bind_eq_ok.mp h
    obtain ⟨t, d', hpeek, hhas⟩ := bind_eq_ok.mp hnext
    obtain ⟨rfl, rfl⟩ := pure_eq_ok.mp hhas
    split at h
    · next heof =>
      unfold Parser.peek at hpeek
      dsimp only at hpeek
      split at hpeek
      · cases hpeek
      · cases hpeek
        exact ⟨_, (of_decide_eq_true heof).symm⟩
    · obtain ⟨s, d₂, -, h⟩ := bind_eq_ok.mp h
      obtain ⟨rest, d₃, hrest, -⟩ := bind_eq_ok.mp h
      exact ih hrest

/-- The tokens of a text that is cut up to its end. -/
theorem proper_tokenize_of_eof {text : String} (h : ∃ t ∈ tokenize text, t.kind = .eof) : Proper (tokenize text) := by
  obtain ⟨body, last, hts, hlast, hbody⟩ := Scanner.tokens_closed (Scanner.ofText text)
  have hplain : ∀ t ∈ body, t.kind ≠ .eof ∧ t.kind ≠ .invalid := fun t ht => by
    simpa [Token.Kind.isFinal] using hbody t ht
  rw [tokenize, hts] at h
  have heof : last.kind = .eof := by
    obtain ⟨t, ht, hkind⟩ := h
    rcases List.mem_append.mp ht with ht | ht
    · exact absurd hkind (hplain t ht).1
    · rwa [List.mem_singleton.mp ht] at hkind
  refine ⟨⟨body, last, hts, heof, fun t ht => (hplain t ht).1⟩, ?_, Scanner.tokens_fit _⟩
  rw [tokenize, hts]
  refine List.forall_mem_append.mpr ⟨fun t ht => (hplain t ht).2, List.forall_mem_singleton.mpr ?_⟩
  rw [heof]
  decide

/-- The tokens of a text that is a program. -/
theorem proper_tokenize {text : String} {p : Program} (h : Program.parse text = .ok p) :
    Proper (tokenize text) := by
  obtain ⟨body, last, hts, hlast, -⟩ := Scanner.tokens_closed (Scanner.ofText text)
  obtain ⟨c', hc'⟩ := answer_eq_ok.mp h
  obtain ⟨n, d, -, hread⟩ := bind_eq_ok.mp hc'
  obtain ⟨ss, d', hstatements, -⟩ := bind_eq_ok.mp hread
  obtain ⟨i, hi⟩ := eof_mem_of_statements hstatements
  have hmem := TokenStream.get_mem (TokenStream.ofList (tokenize text)) i
  rw [tokenize, hts, TokenStream.tokens_ofList hlast, ← hts, List.mem_toArray] at hmem
  exact proper_tokenize_of_eof ⟨_, hmem, hi⟩

/-- A text that is a program has tokens that derive it. -/
theorem derives_of_parse {text : String} {p : Program} (h : Program.parse text = .ok p) :
    Derives (tokenize text) p := by
  obtain ⟨s, hs, fits⟩ := (proper_tokenize h).source
  obtain ⟨c', hc'⟩ := answer_eq_ok.mp h
  rw [← hs] at hc' ⊢
  exact program_sound fits hc'

end Syntax
end TypedImp
