import TypedImp.Proofs.Syntax.Mending
import TypedImp.Proofs.Syntax.Recognition

/-! Errors stand at the first token that cannot fit. The tokens in front of it begin a program, and no program begins
    with them and it. Only a loop's header that begins with a name shows its fault one token later: the name could still
    be assigned to. -/

namespace TypedImp
namespace Syntax
open TypedImp.Parser

/-- Some program begins with these tokens. -/
def BeginsProgram (ts : List Token) : Prop :=
  ∃ us p, Proper (ts ++ us) ∧ (Program.parseTokens (ts ++ us)).answer = .ok p

/-- No list of tokens that begins so is a program, whatever follows. -/
def BeginsNothing (ts : List Token) : Prop := ∀ us p, (Program.parseTokens (ts ++ us)).answer ≠ .ok p

/-- A loop's header is refused at an identifier. -/
def IsHeaderName (e : ParseError) (t : Token) : Prop := (∃ place, e = .forInitializer place) ∧ t.kind = .ident

/-- Token `t` at place `i` is the first that cannot fit, or the name in front of it in a loop's header. -/
structure FirstUnfit (ts : List Token) (e : ParseError) (i : Nat) (t : Token) : Prop where
  before : BeginsProgram (ts.take i)
  here : ¬IsHeaderName e t → BeginsNothing (ts.take (i + 1))
  behind : IsHeaderName e t → BeginsProgram (ts.take (i + 1)) ∧ BeginsNothing (ts.take (i + 2))

theorem BeginsProgram.take {ts : List Token} {i j : Nat} (h : BeginsProgram (ts.take j)) (hij : i ≤ j) :
    BeginsProgram (ts.take i) := by
  obtain ⟨us, p, h⟩ := h
  obtain ⟨vs, hvs⟩ := List.take_prefix_take_left (l := ts) hij
  rw [← hvs, List.append_assoc] at h
  exact ⟨vs ++ us, p, h⟩

/-- What plain tokens complete to statements is completed by an end of input to a program. -/
theorem beginsProgram_of_completable {ts : List Token} (hts : Plain ts)
    (h : Completable (fun us => ∃ p : Program, Statements us p.body) ts) : BeginsProgram ts := by
  obtain ⟨us, hus, p, hp⟩ := h
  have hplain : Plain (ts ++ us) := hts.append hus
  let s : Source := ⟨ts ++ us, Token.sample .eof, rfl, fun t ht => (hplain t ht).2⟩
  have htokens : s.tokens = ts ++ (us ++ [Token.sample .eof]) := List.append_assoc _ _ _
  have valid : ∀ t ∈ s.tokens, t.kind ≠ .invalid :=
    List.forall_mem_append.mpr ⟨fun t ht => (hplain t ht).2.2, List.forall_mem_singleton.mpr nofun⟩
  have fits : ∀ t ∈ s.tokens, t.Fits :=
    List.forall_mem_append.mpr ⟨fun t ht => (hplain t ht).1, List.forall_mem_singleton.mpr (Token.sample_fits .eof)⟩
  have proper : Proper s.tokens :=
    ⟨⟨ts ++ us, Token.sample .eof, rfl, rfl, fun t ht => (hplain t ht).2.1⟩, valid, fits⟩
  have hread : (Program.parseTokens s.tokens).answer = .ok p :=
    answer_eq_ok.mpr (program_complete (fun t ht => (hplain t ht).1) hp)
  rw [htokens] at proper hread
  exact ⟨_, p, proper, hread⟩

section Errors
variable {s : Source} {e : ParseError} {d : Cursor}

theorem errorSight_of_header {ts : TokenStream} (h : IsHeaderName e (ts.get (errorAt e d))) :
    errorSight ts e d = errorAt e d + 1 := by
  obtain ⟨⟨place, rfl⟩, hname⟩ := h
  exact if_pos hname

theorem errorSight_of_not_header {ts : TokenStream} (h : ¬IsHeaderName e (ts.get (errorAt e d))) :
    errorSight ts e d = errorAt e d := by
  unfold errorSight
  split
  · next place => exact if_neg fun hname => h ⟨⟨place, rfl⟩, hname⟩
  · rfl

/-- What stands in front of the last token that was looked at begins a program, and that token fits no program. -/
theorem sight_splits (fits : ∀ t ∈ s.body, t.Fits) (hstop : program s.stream Parser.start = .error e d)
    (hd : e.diagnostic? ≠ none) :
    IsPlaced s e d ∧ errorSight s.stream e d < s.tokens.length ∧
      BeginsProgram (s.tokens.take (errorSight s.stream e d)) ∧
      BeginsNothing (s.tokens.take (errorSight s.stream e d + 1)) := by
  have hrun := (program_mends fits).run Parser.start (Nat.zero_le _)
  rw [hstop] at hrun
  obtain ⟨hplaced, us, vs, hus, hsight, hcomplete⟩ := hrun hd
  rw [s.ahead_start] at hus
  have hsight : errorSight s.stream e d = us.length := by rw [hsight, Parser.start, Nat.zero_add]
  have htokens : s.tokens = us ++ (vs ++ [s.last]) := by rw [Source.tokens, hus, List.append_assoc]
  have hlt : us.length < s.tokens.length := by simp [htokens]
  rw [hsight]
  refine ⟨hplaced, hlt, ?_, fun ws p hp => ?_⟩
  · have hplain : Plain us := fun t ht =>
      have hmem : t ∈ s.body := hus ▸ List.mem_append_left _ ht
      ⟨fits t hmem, s.body_plain t hmem⟩
    rw [htokens, List.take_left]
    exact beginsProgram_of_completable hplain hcomplete
  · obtain ⟨c', hc'⟩ := answer_eq_ok.mp hp
    have hsteps : e ≠ .outOfSteps := by
      rintro rfl
      exact hd rfl
    exact program_ne_ok (s.shared_take hlt ws) hsteps hstop (by rw [hsight]; exact Nat.lt_succ_self _) p c' hc'

theorem firstUnfit_of_error (fits : ∀ t ∈ s.body, t.Fits) (hstop : program s.stream Parser.start = .error e d)
    (hd : e.diagnostic? ≠ none) :
    s.tokens[errorAt e d]? = some (s.stream.get (errorAt e d)) ∧
      FirstUnfit s.tokens e (errorAt e d) (s.stream.get (errorAt e d)) := by
  obtain ⟨-, hlt, hbefore, hnothing⟩ := sight_splits fits hstop hd
  have hle := errorAt_le_errorSight s.stream e d
  have hat : errorAt e d < s.tokens.length := Nat.lt_of_le_of_lt hle hlt
  refine ⟨?_, hbefore.take hle, fun hheader => ?_, fun hheader => ?_⟩
  · rw [List.getElem?_eq_getElem hat, Source.stream, get_ofList hat]
  · rwa [errorSight_of_not_header hheader] at hnothing
  · rw [errorSight_of_header hheader] at hbefore hnothing
    exact ⟨hbefore, hnothing⟩

end Errors

/-- An error of a list of tokens stands at the place of its first token that cannot fit. Where tokens share a place,
    one of those at the place of the error is that token; where they do not, the place names the token. -/
theorem error_at_first_unfit {ts : List Token} (h : Proper ts) {e : ParseError} {dg : Diagnostic}
    (he : (Program.parseTokens ts).answer = .error e) (hd : e.diagnostic? = some dg) :
    dg.stage = .parsing ∧
    (∃ i t, ts[i]? = some t ∧ dg.place = some t.position ∧ FirstUnfit ts e i t) ∧
    ((ts.map Token.position).Nodup →
      ∀ i t, ts[i]? = some t → dg.place = some t.position → FirstUnfit ts e i t) := by
  obtain ⟨s, rfl, fits⟩ := h.source
  obtain ⟨d, hstop⟩ := answer_eq_error.mp he
  have hne : e.diagnostic? ≠ none := by simp [hd]
  obtain ⟨hplaced, -⟩ := sight_splits fits hstop hne
  obtain ⟨hstage, hplace⟩ := hplaced dg hd
  obtain ⟨hat, hunfit⟩ := firstUnfit_of_error fits hstop hne
  refine ⟨hstage, ⟨_, _, hat, hplace, hunfit⟩, fun hnodup i t ht htplace => ?_⟩
  have hi : i < s.tokens.length := (List.getElem?_eq_some_iff.mp ht).1
  have hposition : (s.tokens.map Token.position)[i]? = (s.tokens.map Token.position)[errorAt e d]? := by
    rw [List.getElem?_map, List.getElem?_map, ht, hat]
    exact htplace.symm.trans hplace
  obtain rfl := (List.getElem?_inj (by simpa using hi) hnodup).mp hposition
  rw [hat] at ht
  cases ht
  exact hunfit

/-- The tokens of an assignment of two numbers. -/
def twoNumbers : List Token :=
  [⟨.ident, "x", ⟨1, 1⟩⟩, ⟨.assign, "=", ⟨1, 3⟩⟩, ⟨.integer, "7", ⟨1, 5⟩⟩, ⟨.integer, "2", ⟨1, 7⟩⟩,
    ⟨.semicolon, ";", ⟨1, 8⟩⟩, ⟨.eof, "", ⟨1, 9⟩⟩]

/-- The tokens of a loop that begins with a name. -/
def nameInHeader : List Token :=
  [⟨.forWord, "for", ⟨1, 1⟩⟩, ⟨.lparen, "(", ⟨1, 5⟩⟩, ⟨.ident, "i", ⟨1, 6⟩⟩, ⟨.semicolon, ";", ⟨1, 7⟩⟩,
    ⟨.eof, "", ⟨1, 8⟩⟩]

theorem proper_twoNumbers : Proper twoNumbers where
  closed := ⟨twoNumbers.dropLast, ⟨.eof, "", ⟨1, 9⟩⟩, rfl, rfl, by decide⟩
  valid := by decide
  fits := by
    have digit (c : Char) (h : Text.isAsciiDigit c = true) : Token.AreDigits [c] := List.forall_mem_singleton.mpr h
    simp only [twoNumbers, List.forall_mem_cons, Token.Fits, Token.IsName]
    exact ⟨⟨'x', [], by decide, by decide, by simp, by decide⟩, by decide, ⟨by decide, digit '7' (by decide)⟩,
      ⟨by decide, digit '2' (by decide)⟩, by decide, by decide, by simp⟩

theorem proper_nameInHeader : Proper nameInHeader where
  closed := ⟨nameInHeader.dropLast, ⟨.eof, "", ⟨1, 8⟩⟩, rfl, rfl, by decide⟩
  valid := by decide
  fits := by
    simp only [nameInHeader, List.forall_mem_cons, Token.Fits, Token.IsName]
    exact ⟨by decide, by decide, ⟨'i', [], by decide, by decide, by simp, by decide⟩, by decide, by decide, by simp⟩

/-- The second number cannot fit, and the token behind the name in the header. -/
theorem error_at_second_number :
    Proper twoNumbers ∧
    (Program.parseTokens twoNumbers).answer = .error (.expected (.one .semicolon) (.lexeme "2") ⟨1, 7⟩) ∧
    BeginsProgram (twoNumbers.take 3) ∧ BeginsNothing (twoNumbers.take 4) ∧
    Proper nameInHeader ∧ (Program.parseTokens nameInHeader).answer = .error (.forInitializer ⟨1, 6⟩) ∧
    BeginsProgram (nameInHeader.take 3) ∧ BeginsNothing (nameInHeader.take 4) := by
  have hnumbers : (Program.parseTokens twoNumbers).answer =
      .error (.expected (.one .semicolon) (.lexeme "2") ⟨1, 7⟩) := by rfl
  have hheader : (Program.parseTokens nameInHeader).answer = .error (.forInitializer ⟨1, 6⟩) := by rfl
  have second := (error_at_first_unfit proper_twoNumbers hnumbers rfl).2.2 (by decide) 3 _ rfl rfl
  have name := (error_at_first_unfit proper_nameInHeader hheader rfl).2.2 (by decide) 2 _ rfl rfl
  obtain ⟨hname, hnothing⟩ := name.behind ⟨⟨_, rfl⟩, rfl⟩
  have hsecond := second.here fun h => absurd h.2 (by decide)
  exact ⟨proper_twoNumbers, hnumbers, second.before, hsecond, proper_nameInHeader, hheader, hname, hnothing⟩

end Syntax
end TypedImp
