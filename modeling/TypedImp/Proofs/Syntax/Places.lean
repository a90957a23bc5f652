import TypedImp.Proofs.Syntax.Steps
import TypedImp.Proofs.Token.Respacing

/-! Places do not matter to the parser. Of tokens with the same kinds and texts it reads the same program, or it reports
    the same error at another place. So a text may be spaced and commented in any way. -/

namespace TypedImp

/-! ### Tokens and errors at other places -/

theorem Token.eq_moved {t t' : Token} (h : t'.word = t.word) : t' = t.moved t'.position := by
  cases t'
  simp only [Token.word, Prod.mk.injEq] at h
  obtain ⟨rfl, rfl⟩ := h
  rfl

theorem ParseError.diagnostic?_moved (e : ParseError) (place : Position) :
    (e.moved place).diagnostic? = e.diagnostic?.map fun d => { d with place := some place } := by
  cases e <;> rfl

/-- An error that is no error of the program text has no place. -/
theorem ParseError.moved_of_none {e : ParseError} (h : e.diagnostic? = none) (place : Position) :
    e.moved place = e := by
  cases e <;> first | rfl | cases h

namespace Syntax
open TypedImp.Parser

/-! ### The same tokens at other places -/

theorem TokenStream.getElem?_min (ts : TokenStream) (i : Nat) :
    ts.tokens[min i (ts.tokens.size - 1)]? = some (ts.get i) := by
  have := ts.size_pos
  exact Array.getElem?_eq_getElem (by omega)

theorem get_moved {ts ts' : TokenStream} (h : ts'.tokens.map Token.word = ts.tokens.map Token.word) (i : Nat) :
    ∃ place, ts'.get i = (ts.get i).moved place := by
  have hsize : ts'.tokens.size = ts.tokens.size := by simpa using congrArg Array.size h
  have hword := congrArg (·[min i (ts.tokens.size - 1)]?) h
  have hget := TokenStream.getElem?_min ts' i
  rw [hsize] at hget
  simp only [Array.getElem?_map, hget, TokenStream.getElem?_min, Option.map_some, Option.some.injEq] at hword
  exact ⟨_, Token.eq_moved hword⟩

/-- Of tokens with the same kinds and texts the same program is read, or the same error is reported but for its place.
    The steps of neither run are used up, so that the bound on them does not matter. -/
theorem parseTokens_of_words {ts ts' : List Token} (proper : Proper ts)
    (hwords : ts'.map Token.word = ts.map Token.word) :
    (∀ p, (Program.parseTokens ts).answer = .ok p → (Program.parseTokens ts').answer = .ok p) ∧
    ∀ e, (Program.parseTokens ts).answer = .error e →
      ∃ place, (Program.parseTokens ts').answer = .error (e.moved place) := by
  obtain ⟨s, rfl, -⟩ := proper.source
  have htokens' : (TokenStream.ofList ts').tokens = ts'.toArray := by
    rw [Source.tokens, List.map_append] at hwords
    obtain ⟨body', ends', rfl, -, hends⟩ := List.map_eq_append_iff.mp hwords
    obtain ⟨last', rfl, hlast⟩ := List.map_eq_singleton_iff.mp hends
    refine TokenStream.tokens_ofList ?_
    have hkind : last'.kind = s.last.kind := congrArg Prod.fst hlast
    rw [hkind, s.last_eof]
    rfl
  have hshared (n : Nat) : Shared s.stream (TokenStream.ofList ts') n := by
    refine ⟨s.get_valid, fun i _ => get_moved ?_ i⟩
    rw [htokens', s.stream_tokens]
    simpa using hwords
  have hends := program_ends (TokenStream.closed_ofList s.tokens) start (TokenStream.size_pos _)
  have hends' := program_ends (TokenStream.closed_ofList ts') start (TokenStream.size_pos _)
  have hsame := (program_alike (hshared _) start hends).2 (Nat.lt_succ_self _) hends'
  constructor
  · intro p hp
    obtain ⟨c, hrun⟩ := answer_eq_ok.mp hp
    rw [Source.stream, hrun] at hsame
    exact answer_eq_ok.mpr ⟨c, hsame⟩
  · intro e he
    obtain ⟨d, hrun⟩ := answer_eq_error.mp he
    rw [Source.stream, hrun] at hsame
    obtain ⟨place, hsame⟩ := hsame
    exact ⟨place, answer_eq_error.mpr ⟨d, hsame⟩⟩

/-! ### Texts with other gaps -/

/-- With other blanks and comments a text has tokens of the same kinds and with the same texts. So it is the same
    program, or it is refused with the same message; only the line and the column in the message may be others. -/
theorem respaced_parses_alike {text text' : String}
    (heof : (tokenize text).getLast?.map Token.kind = some .eof) (h : Token.Respaces text text') :
    (tokenize text').map Token.word = (tokenize text).map Token.word ∧
    (∀ p, Program.parse text = .ok p → Program.parse text' = .ok p) ∧
    ∀ e, Program.parse text = .error e → ∃ e' place, Program.parse text' = .error e' ∧
      e'.diagnostic? = e.diagnostic?.map (fun d => { d with place := some place }) ∧
      (e.diagnostic? = none → e' = e) := by
  obtain ⟨last, hlast, hkind⟩ := Option.map_eq_some_iff.mp heof
  have proper := proper_tokenize_of_eof ⟨last, List.mem_of_getLast? hlast, hkind⟩
  have hwords := map_word_tokenize proper h
  obtain ⟨hok, herror⟩ := parseTokens_of_words proper hwords
  refine ⟨hwords, hok, fun e he => ?_⟩
  obtain ⟨place, hmoved⟩ := herror e he
  exact ⟨e.moved place, place, hmoved, e.diagnostic?_moved place, fun hnone => e.moved_of_none hnone place⟩

/-- A name with a comment behind it. -/
def commentedText : String := "x//y\n;"

/-- The same name with other comments, which hold marks of comments and of strings. -/
def recommentedText : String := "/*\x22//**/x\t;\r///*\n"

theorem tokenize_commentedText : tokenize commentedText =
    [⟨.ident, "x", ⟨1, 1⟩⟩, ⟨.semicolon, ";", ⟨2, 1⟩⟩, ⟨.eof, "", ⟨2, 2⟩⟩] := by
  rw [tokenize_eq_tokensWithin]
  decide +kernel

theorem respaces_commentedText : Token.Respaces commentedText recommentedText := by
  have htext : commentedText.toList = ['x', '/', '/', 'y', '\n', ';'] := by decide
  have hname : Scanner.Spells .ident ['x'] "x" ['/', '/', 'y', '\n', ';'] :=
    @Scanner.Spells.word 'x' [] _ (by decide) (by simp) (by rintro _ ⟨⟩; rfl)
  have hsign : Scanner.Spells .semicolon [';'] ";" [] := .single (k := .semicolon) (by decide) (by decide)
  have hgap : Token.IsGap ['/', '/', 'y', '\n'] [';'] :=
    @Token.IsGap.lineComment ['y'] ['\n'] _ (by decide) (by rintro _ ⟨⟩; rfl) (.blank rfl .nil)
  have hchain : List.IsChain (Token.Separated commentedText.toList) [⟨0, 0⟩, ⟨0, 1⟩, ⟨5, 6⟩, ⟨6, 6⟩] := by
    rw [htext]
    exact .cons_cons ⟨by decide, .nil⟩ (.cons_cons ⟨by decide, hgap⟩ (.cons_cons ⟨by decide, .nil⟩ (.singleton _)))
  have hcovers : List.Forall₂ (Token.Covers commentedText.toList) (tokenize commentedText)
      [⟨0, 1⟩, ⟨5, 6⟩, ⟨6, 6⟩] := by
    rw [tokenize_commentedText, htext]
    exact .cons (Scanner.covers_spelled (m := 0) (by decide) rfl hname nofun)
      (.cons (Scanner.covers_spelled (m := 5) (by decide) rfl hsign nofun) (.cons (Scanner.covers_eof _) .nil))
  have hout : Token.Respaced commentedText.toList ⟨0, 1⟩ [⟨5, 6⟩, ⟨6, 6⟩]
      ['\t', ';', '\r', '/', '/', '/', '*', '\n'] := by
    rw [htext]
    have htrivia : Token.IsTrivia ['/', '/', '/', '*', '\n'] :=
      @Token.IsTrivia.lineComment ['/', '*'] [] (by decide) .nil
    exact .replaced (c := '\t') rfl .nil (.replaced (c := '\r') rfl htrivia .nil)
  have htrivia : Token.IsTrivia ['/', '*', '\x22', '/', '/', '*', '*', '/'] :=
    @Token.IsTrivia.blockComment ['\x22', '/', '/', '*'] [] (by decide) .nil
  refine .intro hchain hcovers (.inr htrivia) hout ?_
  rw [htext]
  decide

/-- Both texts are the same program. -/
theorem commentedText_parses_alike :
    (tokenize commentedText).getLast?.map Token.kind = some .eof ∧
      Token.Respaces commentedText recommentedText ∧
      Program.parse commentedText = .ok ⟨[.expr (.var "x")]⟩ ∧
      Program.parse recommentedText = .ok ⟨[.expr (.var "x")]⟩ := by
  have heof : (tokenize commentedText).getLast?.map Token.kind = some .eof := by
    rw [tokenize_commentedText]
    rfl
  have hparse : Program.parse commentedText = .ok ⟨[.expr (.var "x")]⟩ := by
    rw [Program.parse, tokenize_commentedText]
    rfl
  exact ⟨heof, respaces_commentedText, hparse, (respaced_parses_alike heof respaces_commentedText).2.1 _ hparse⟩

end Syntax
end TypedImp
