import TypedImp.Proofs.FrontEnd
import TypedImp.Proofs.Token.Order

/-! Where the two front ends find a fault. The automaton can cut a text in another way than the scanner does, but
    only where it cannot go on: so it comes to a fault of the scanner at the very character where the scanner found
    it, or it has stopped before. In a text without faults it finds none. -/

namespace TypedImp
namespace Grammar
open Scanner (Spells position_lt_advance position_le_of_mem_tokens)

/-! ### Where nothing can be cut off -/

section
variable {accepted : List Terminal} {s s' : Scanner} {t : Terminal} {n : Nat}

/-- Blanks and comments have been skipped where nothing can be cut off. -/
theorem eq_of_cut_nothing (h : cut accepted s = .nothing s') : s' = s.skipTrivia := by
  cases cutsOff_of_eq h
  rfl

theorem position_of_cut {l : Lexeme} (h : cut accepted s = .lexeme l s') : l.position = s.skipTrivia.position := by
  cases cutsOff_of_eq h
  rfl

/-- Where some terminal matches but no accepted one does, what is there is unexpected. -/
theorem mismatch_of_match (accepted : List Terminal) (hclear : IsClear s) (hkeyword : t.keyword? = none)
    (h : t.matchLength? s.rest = some n) :
    ∃ found expected, mismatch accepted s = .unexpected found s.position expected := by
  have ht := mem_lexical_of_match h
  have htried : t ∈ tried Terminal.lexical := mem_tried.mpr ⟨ht, .inr ⟨ht, .inl hkeyword⟩⟩
  cases hfirst : firstMatch? (tried Terminal.lexical) s.rest with
  | none =>
    have hnone := List.findSome?_eq_none_iff.mp hfirst t htried
    rw [h] at hnone
    cases hnone
  | some r =>
    rw [mismatch, cut, cutUpTo_some hclear hfirst]
    exact ⟨_, _, rfl⟩

/-- Where no terminal matches, the character that is there is a fault. -/
theorem mismatch_of_fault (accepted : List Terminal) (h : s.next.1.kind = .invalid) :
    ∃ c, mismatch accepted s.skipTrivia = .unmatched c s.skipTrivia.position := by
  unfold mismatch
  split
  · next l s' hcut =>
    rw [← cut_skipTrivia] at hcut
    obtain ⟨t, -, hignored, n, hn⟩ := match_of_cut hcut
    exact absurd h (Terminal.next_valid hn hignored)
  · exact ⟨_, rfl⟩

end

/-! ### The answer of the parser -/

/-- What an answer says about the final token of the text: only a proper text is parsed, a character that nothing
    matches begins a fault, and what is unexpected stands in front of a fault. -/
def Agrees (last : Token) : Except Failure (Tree (.nonterminal .start)) → Prop
  | .ok _ => last.kind = .eof
  | .error (.unmatched _ place) => last.kind = .invalid ∧ place = last.position
  | .error (.unexpected _ place _) => last.kind = .invalid → place < last.position

section
variable {a : Automaton} {s : Scanner} {st : Stack} {k : Token.Kind} {raw rest : List Char} {text : String}
  {place : Position}

theorem keyword?_matched (k : Token.Kind) : k.matched.keyword? = none := by
  have key : ∀ k ∈ Token.Kind.all, k.matched.keyword? = none := by decide
  exact key k k.mem_all

/-- Behind one half of a sign of equality the other half is unexpected. -/
theorem parseRest_half (ha : a.isSafe = true) {i : Nat}
    (htarget : State.target? (a.state i).targets (.terminal .equal) = some st.place) (hs : s.rest = '=' :: rest) (n : Nat) :
    ∃ found expected, parseRest a (n + 1) s st place = .error (.unexpected found s.position expected) := by
  have hequal : Terminal.equal.matchLength? s.rest = some 1 := by
    rw [hs]
    rfl
  obtain ⟨found, expected, hmismatch⟩ :=
    mismatch_of_match (a.state st.place).accepted (isClear_equal hs) rfl hequal
  refine ⟨found, expected, ?_⟩
  simp only [parseRest, cut_half ha htarget hs, hmismatch]

/-- At the end of the text nothing but the text itself can be found. -/
theorem parseRest_end (hrest : s.skipTrivia.rest = []) (n : Nat) {last : Token} (hlast : last.kind = .eof) :
    Agrees last (parseRest a (n + 1) s st place) := by
  have hvalid : ¬ last.kind = .invalid := by
    rw [hlast]
    decide
  simp only [parseRest, cut_end hrest]
  split
  · exact hlast
  all_goals exact fun h => absurd h hvalid

theorem rest_ne_nil_of_fault (h : s.next.1.kind = .invalid) : s.skipTrivia.rest ≠ [] := by
  intro hrest
  unfold Scanner.next at h
  dsimp only at h
  rw [hrest] at h
  cases h

/-- In front of a fault nothing can be cut off. -/
theorem parseRest_fault (h : s.next.1.kind = .invalid) (n : Nat) :
    ∃ c, parseRest a (n + 1) s st place = .error (.unmatched c s.skipTrivia.position) := by
  obtain ⟨c, hc⟩ := mismatch_of_fault (a.state st.place).accepted h
  refine ⟨c, ?_⟩
  cases hcut : cut (a.state st.place).accepted s with
  | nothing s' =>
    obtain rfl := eq_of_cut_nothing hcut
    simp only [parseRest, hcut, hc]
  | lexeme l s' =>
    obtain ⟨t, -, hignored, m, hm⟩ := match_of_cut hcut
    exact absurd h (Terminal.next_valid hm hignored)
  | endOfText => exact absurd (rest_of_cut_end hcut) (rest_ne_nil_of_fault h)

/-- In front of a spelled token the parser stops there, or goes on behind the token, or has taken one half of a sign
    of equality for the whole. -/
theorem parseRest_spelled (ha : a.isSafe = true) (hst : st.Valid a) (hspells : Spells k raw text rest)
    (hs : s.skipTrivia.rest = raw ++ rest) (n : Nat) (place : Position) :
    (∃ found expected, parseRest a (n + 2) s st place = .error (.unexpected found s.skipTrivia.position expected)) ∨
      (∃ st', st'.Valid a ∧ parseRest a (n + 2) s st place =
        parseRest a (n + 1) (s.skipTrivia.advance raw.length) st' s.skipTrivia.position) ∨
      k = .eq ∧ ∃ found expected, parseRest a (n + 2) s st place =
        .error (.unexpected found (s.skipTrivia.advance 1).position expected) := by
  have hmatch : k.matched.matchLength? s.skipTrivia.rest = some raw.length := hs ▸ Terminal.matchLength?_matched hspells
  cases hcut : cut (a.state st.place).accepted s with
  | endOfText =>
    have hend := rest_of_cut_end hcut
    rw [hs] at hend
    exact absurd (List.append_eq_nil_iff.mp hend).1 hspells.raw_ne_nil
  | nothing s' =>
    obtain rfl := eq_of_cut_nothing hcut
    obtain ⟨found, expected, hmismatch⟩ :=
      mismatch_of_match (a.state st.place).accepted (isClear_skipTrivia s) (keyword?_matched k) hmatch
    exact .inl ⟨found, expected, by simp only [parseRest, hcut, hmismatch]⟩
  | lexeme l s' =>
    have hposition := position_of_cut hcut
    have hfollows := Stack.react_follows (t := l.terminal) ((st.length + 1) * Stack.chainBound) hst
    cases hreact : st.reactTo a l.terminal with
    | accept st' | stuck st' =>
      refine .inl ⟨.lexeme l.text, (a.state st'.place).accepted, ?_⟩
      rw [parseRest, hcut]
      simp only [hreact, hposition]
    | shift j st' =>
      rw [← Stack.reactTo, hreact] at hfollows
      obtain ⟨hvalid, -, haction⟩ := hfollows
      have htarget := Automaton.target_of_shift ha haction
      have hstep : parseRest a (n + 2) s st place =
          parseRest a (n + 1) s' (⟨j, .terminal l.terminal, .leaf l⟩ :: st') s.skipTrivia.position := by
        rw [parseRest, hcut]
        simp only [hreact, hposition]
      rw [hstep]
      rw [cut_skipTrivia] at hcut
      cases piece_of_cut ha hspells hs (isClear_skipTrivia s) hcut with
      | whole | reserved => exact .inr (.inl ⟨_, .cons htarget hvalid, rfl⟩)
      | half hk =>
        subst hk
        obtain rfl := raw_of_eq hspells
        have hhalf : (s.skipTrivia.advance 1).rest = '=' :: rest := by
          rw [Scanner.rest_advance, hs]
          rfl
        exact .inr (.inr ⟨rfl, parseRest_half ha htarget hhalf n⟩)

end

/-- Every answer agrees with the final token. -/
theorem parseRest_agrees {a : Automaton} (ha : a.isSafe = true) {n : Nat} {s : Scanner} {st : Stack} {place : Position}
    (hn : s.rest.length < n) (hst : st.Valid a) {body : List Token} {last : Token} (hts : s.tokens = body ++ [last]) :
    Agrees last (parseRest a n s st place) := by
  induction n generalizing s st place body with
  | zero => exact absurd hn (Nat.not_lt_zero _)
  | succ n ih =>
    have hbegins := tokens_begin s
    rw [hts] at hbegins
    generalize hlist : body ++ [last] = ts at hbegins
    cases hbegins with
    | eof hrest =>
      obtain ⟨-, hlist⟩ := List.append_eq_singleton_iff.mp hlist |>.resolve_right (by simp)
      exact parseRest_end hrest n (by rw [(List.cons.inj hlist).1])
    | fault hkind =>
      obtain ⟨-, hlist⟩ := List.append_eq_singleton_iff.mp hlist |>.resolve_right (by simp)
      obtain ⟨c, hc⟩ : ∃ c, parseRest a (n + 1) s st place = .error (.unmatched c s.skipTrivia.position) :=
        parseRest_fault hkind n
      rw [hc, (List.cons.inj hlist).1]
      exact ⟨rfl, rfl⟩
    | @token k raw text rest hrest hspells hlt =>
      have hlast : last ∈ (s.skipTrivia.advance raw.length).tokens := by
        obtain ⟨us, final, hus, -⟩ := Scanner.tokens_closed (s.skipTrivia.advance raw.length)
        rw [hus, ← List.cons_append] at hlist
        rw [hus, (List.cons.inj (List.append_inj' hlist rfl).2).1]
        simp
      have hle := position_le_of_mem_tokens hlast
      have hne : s.skipTrivia.rest ≠ [] := by
        rw [hrest]
        exact List.append_ne_nil_of_left_ne_nil hspells.raw_ne_nil _
      have hraw := List.length_pos_of_ne_nil hspells.raw_ne_nil
      obtain ⟨n, rfl⟩ := Nat.exists_eq_succ_of_ne_zero (show n ≠ 0 by omega)
      rcases parseRest_spelled ha hst hspells hrest n place with
        ⟨found, expected, hstop⟩ | ⟨st', hvalid, hstep⟩ | ⟨rfl, found, expected, hstop⟩
      · rw [hstop]
        exact fun _ => (position_lt_advance hraw hne).trans_le hle
      · rw [hstep]
        obtain ⟨us, final, hus, -⟩ := Scanner.tokens_closed (s.skipTrivia.advance raw.length)
        rw [hus, ← List.cons_append] at hlist
        exact ih (by omega) hvalid (by rw [hus, (List.cons.inj (List.append_inj' hlist rfl).2).1])
      · rw [hstop]
        obtain rfl := raw_of_eq hspells
        have hhalf : (s.skipTrivia.advance 1).rest ≠ [] := by
          rw [Scanner.rest_advance, hrest]
          exact List.cons_ne_nil _ _
        have hlt := position_lt_advance (n := 1) Nat.one_pos hhalf
        rw [Scanner.advance_advance] at hlt
        exact fun _ => hlt.trans_le hle

theorem parse_agrees {text : String} {body : List Token} {last : Token} (hts : tokenize text = body ++ [last]) :
    Agrees last (parse text) := by
  unfold parse
  exact parseRest_agrees automaton_isSafe (Nat.lt_succ_self _) .nil hts

/-! ### The value of a tree -/

/-- No fault of a character. -/
def IsSyntactic (e : ParseError) : Prop := ∀ d, e.diagnostic? = some d → d.stage = .parsing

/-- Whatever errors the computation has are syntactic. -/
def Judges {α : Type} (x : Except ParseError α) : Prop := ∀ e, x = .error e → IsSyntactic e

theorem judges_ok {α : Type} (a : α) : Judges (.ok a) := nofun

theorem Judges.bind {α β : Type} {x : Except ParseError α} {f : α → Except ParseError β} (hx : Judges x)
    (hf : ∀ a, Judges (f a)) : Judges (x >>= f) := by
  cases x with
  | error e =>
    rintro _ ⟨⟩
    exact hx e rfl
  | ok a => exact hf a

theorem judges_typeNamed (read : String → Option Ty) (l : Lexeme) : Judges (typeNamed read l) := by
  unfold typeNamed
  split
  · exact judges_ok _
  · rintro _ ⟨⟩ _ ⟨⟩
    rfl

theorem judges_intLiteral (l : Lexeme) : Judges (intLiteral l) := by
  unfold intLiteral
  split
  · rintro _ ⟨⟩ _ ⟨⟩
  · rintro _ ⟨⟩ _ ⟨⟩
  · split
    · rintro _ ⟨⟩ _ ⟨⟩
      rfl
    · exact judges_ok _

theorem judges_floatLiteral (l : Lexeme) : Judges (floatLiteral l) := by
  unfold floatLiteral
  split
  · rintro _ ⟨⟩ _ ⟨⟩
  · exact judges_ok _

theorem judges_functionOf (name : Lexeme) (params : List Param) (result : Lexeme) (body : List Stmt) :
    Judges (functionOf name params result body) :=
  (judges_typeNamed _ _).bind fun _ => judges_ok _

theorem judges_build (r : Rule) (vs : Values r.rhs) : Judges (r.build vs) := by
  cases r with
  | varDecl | varDeclInit | param => exact (judges_typeNamed _ _).bind fun _ => judges_ok _
  | functionNone | functionOne | functionMore => exact judges_functionOf _ _ _ _
  | int => exact judges_intLiteral _
  | float => exact judges_floatLiteral _
  | _ => exact judges_ok _

mutual
/-- A derivation is refused for names of types and for numbers only. -/
theorem Tree.judges {s : Symbol} : (tree : Tree s) → Judges tree.value
  | .leaf l => judges_ok l
  | .node r children => children.judges.bind fun vs => judges_build r vs

theorem Forest.judges {ss : List Symbol} : (trees : Forest ss) → Judges trees.values
  | .nil => judges_ok ()
  | .cons tree trees => tree.judges.bind fun v => trees.judges.bind fun vs => judges_ok (v, vs)
end

/-! ### Programs -/

section
variable {text : String} {body : List Token} {last : Token}

/-- Where the tokens end in a fault, the fault is found or something in front of it. -/
theorem programOf_fault (hts : tokenize text = body ++ [last]) (hlast : last.kind = .invalid) :
    ∃ e d place, programOf text = .error e ∧ e.diagnostic? = some d ∧ d.place = some place ∧
      (d.stage = .lexing ∧ place = last.position ∨ d.stage = .parsing ∧ place < last.position) := by
  have hagrees := parse_agrees hts
  unfold programOf
  cases hparse : parse text with
  | ok tree =>
    rw [hparse] at hagrees
    exact nomatch hlast.symm.trans hagrees
  | error f =>
    rw [hparse] at hagrees
    cases f with
    | unmatched c place => exact ⟨_, _, place, rfl, rfl, rfl, .inl ⟨rfl, hagrees.2⟩⟩
    | unexpected found place expected => exact ⟨_, _, place, rfl, rfl, rfl, .inr ⟨rfl, hagrees hlast⟩⟩

/-- Where they do not, no character is refused. -/
theorem judges_programOf (hts : tokenize text = body ++ [last]) (hlast : last.kind = .eof) : Judges (programOf text) := by
  have hagrees := parse_agrees hts
  unfold programOf
  cases hparse : parse text with
  | ok tree => exact tree.judges
  | error f =>
    rw [hparse] at hagrees
    cases f with
    | unmatched c place => exact nomatch hlast.symm.trans hagrees.1
    | unexpected found place expected =>
      rintro _ ⟨⟩ _ ⟨⟩
      rfl

end

end Grammar

/-! ### Both front ends -/

namespace FrontEnd

/-- Where the tokens of a text end in a fault, neither front end finds a program; the automaton either refuses the very
    character where the fault begins, or something in front of it. Where they do not, it refuses no character. -/
theorem grammar_finds_fault {text : String} {last : Token} (hlast : (tokenize text).getLast? = some last) :
    (last.kind = .invalid →
      (∀ (f : FrontEnd) (p : Program), f.parse text ≠ .ok p) ∧
      ∃ e d place, grammar.parse text = .error e ∧ e.diagnostic? = some d ∧ d.place = some place ∧
        (d.stage = .lexing ∧ place = last.position ∨ d.stage = .parsing ∧ place < last.position)) ∧
    (last.kind = .eof → ∀ e d, grammar.parse text = .error e → e.diagnostic? = some d → d.stage ≠ .lexing) := by
  obtain ⟨body, hbody⟩ := List.getLast?_eq_some_iff.mp hlast
  constructor
  · intro hinvalid
    obtain ⟨e, d, place, herror, hfault⟩ := Grammar.programOf_fault hbody hinvalid
    refine ⟨fun f p hp => ?_, e, d, place, herror, hfault⟩
    cases f with
    | descent => exact (Syntax.proper_tokenize hp).valid last (List.mem_of_getLast? hlast) hinvalid
    | grammar => exact nomatch herror.symm.trans hp
  · intro heof e d he hd hlexing
    have hparsing := Grammar.judges_programOf hbody heof e he d hd
    exact nomatch hparsing.symm.trans hlexing

/-- A comment of two lines, a string, and a sign that no text holds by itself. -/
def faultyText : String := "print(\"a\nb\" /* a\nb */ & 1);"

theorem tokenize_faultyText : tokenize faultyText =
    [⟨.printWord, "print", ⟨1, 1⟩⟩, ⟨.lparen, "(", ⟨1, 6⟩⟩, ⟨.string, "a\nb", ⟨1, 7⟩⟩,
      ⟨.invalid, "unexpected character '&'", ⟨3, 6⟩⟩] := by
  rw [tokenize_eq_tokensWithin]
  decide +kernel

/-- The fault is found on the third line. -/
theorem grammar_finds_ampersand :
    (tokenize faultyText).getLast? = some ⟨.invalid, "unexpected character '&'", ⟨3, 6⟩⟩ ∧
      (∀ (f : FrontEnd) (p : Program), f.parse faultyText ≠ .ok p) ∧
      ∃ e d place, grammar.parse faultyText = .error e ∧ e.diagnostic? = some d ∧ d.place = some place ∧
        (d.stage = .lexing ∧ place = ⟨3, 6⟩ ∨ d.stage = .parsing ∧ place < ⟨3, 6⟩) := by
  have hlast : (tokenize faultyText).getLast? = some ⟨.invalid, "unexpected character '&'", ⟨3, 6⟩⟩ := by
    rw [tokenize_faultyText]
    rfl
  exact ⟨hlast, (grammar_finds_fault hlast).1 rfl⟩

end FrontEnd
end TypedImp
