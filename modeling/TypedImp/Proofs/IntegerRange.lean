import TypedImp.Proofs.FrontEnd
import TypedImp.Proofs.Syntax.FaultyLiteral
import TypedImp.Proofs.Token.Respelling

/-! How large an integer literal can be. Both front ends read a row of digits by its value, up to the largest integer, and
    complain about a larger one in its place; leading zeros do not count. But neither gets to the value of a row of more
    digits than an integer numeral may have: each of them fails in a way of its own, without a complaint. -/

namespace TypedImp
open Token (AreDigits decimalValue)

/-! ### The tokens of a literal -/

theorem Scanner.tokens_of_next {s s' : Scanner} {t : Token} (h : s.next = (t, s')) (ht : t.kind.isFinal = false) :
    s.tokens = t :: s'.tokens := by
  rw [tokens_eq, h, if_neg (Bool.eq_false_iff.mp ht)]

/-- Digits as a statement. -/
def literalText (digits : List Char) : String := String.ofList (digits ++ [';'])

/-- The token that the digits of a literal are cut to. -/
def integerToken (digits : List Char) : Token := ⟨.integer, String.ofList digits, ⟨1, 1⟩⟩

section
variable {digits : List Char} (hne : digits ≠ []) (hdigits : AreDigits digits)
include hne hdigits

theorem tokenize_literalText :
    ∃ p q, tokenize (literalText digits) = [integerToken digits, ⟨.semicolon, ";", p⟩] ++ [⟨.eof, "", q⟩] := by
  have hrest : (Scanner.ofText (literalText digits)).rest = digits ++ [';'] := String.toList_ofList
  have hinteger := Scanner.next_integer hrest hne hdigits (by simp [Scanner.NotAhead, Text.isAsciiDigit])
    (by simp [Scanner.NotAhead])
  have hbehind : ((Scanner.ofText (literalText digits)).advance digits.length).rest = [';'] := by
    rw [Scanner.rest_advance, hrest, List.drop_left]
  have hspells : Scanner.Spells .semicolon [';'] ";" [] := .single (by decide) (by decide)
  have hsemi := Scanner.next_spelled hbehind hspells (by simp)
  generalize (Scanner.ofText (literalText digits)).advance digits.length = s at hinteger hbehind hsemi
  have hend : (s.advance 1).skipTrivia.rest = [] := by
    have hlength := Scanner.length_rest_skipTrivia (s.advance 1)
    rw [Scanner.rest_advance, hbehind] at hlength
    exact List.length_eq_zero_iff.mp (Nat.le_zero.mp hlength)
  refine ⟨s.position, (s.advance 1).skipTrivia.position, ?_⟩
  rw [tokenize, Scanner.tokens_of_next hinteger rfl, Scanner.tokens_of_next hsemi rfl, List.length_singleton,
    Grammar.tokens_of_end hend]
  rfl

end

/-! ### Trees that are refused -/

namespace Grammar

/-- The lexemes are those of a derivation from the nonterminal in which something is refused. -/
def Nonterminal.Fails (n : Nonterminal) (e : ParseError) (ls : List Lexeme) : Prop :=
  ∃ tree : Tree (.nonterminal n), tree.yield = ls ∧ tree.value = .error e

/-- The lexemes are those of derivations from the symbols in one of which something is refused. -/
def FailsAll (ss : List Symbol) (e : ParseError) (ls : List Lexeme) : Prop :=
  ∃ trees : Forest ss, trees.yield = ls ∧ trees.values = .error e

section
variable {n : Nonterminal} {ss : List Symbol} {e : ParseError} {us ls : List Lexeme}

/-- What is refused first decides. -/
theorem FailsAll.first (hn : n.Fails e us) (hss : ∃ trees : Forest ss, trees.yield = ls) :
    FailsAll (.nonterminal n :: ss) e (us ++ ls) := by
  obtain ⟨tree, rfl, hv⟩ := hn
  obtain ⟨trees, rfl⟩ := hss
  refine ⟨.cons tree trees, rfl, ?_⟩
  rw [Forest.values, hv]
  rfl

theorem FailsAll.only (hn : n.Fails e us) : FailsAll [.nonterminal n] e us := by
  have h := FailsAll.first hn ⟨.nil, rfl⟩
  rwa [Forest.yield, List.append_nil] at h

theorem Fails.node (r : Rule) (h : FailsAll r.rhs e ls) : r.lhs.Fails e ls := by
  obtain ⟨trees, rfl, hvs⟩ := h
  refine ⟨.node r trees, rfl, ?_⟩
  rw [Tree.value, hvs]
  rfl

end

/-- A primary expression that is refused is so at every level. -/
theorem expr_fails {e : ParseError} {ls : List Lexeme} (h : Nonterminal.primary.Fails e ls) :
    Nonterminal.expr.Fails e ls := by
  have hunary : Nonterminal.unary.Fails e ls := Fails.node .unsigned (.only h)
  have hmultiplicative := Fails.node (.levelOne .multiplicative) (.only hunary)
  have hadditive := Fails.node (.levelOne .additive) (.only hmultiplicative)
  have hrelational := Fails.node (.levelOne .relational) (.only hadditive)
  have hequality := Fails.node (.levelOne .equality) (.only hrelational)
  have hand := Fails.node (.levelOne .and) (.only hequality)
  have hor := Fails.node (.levelOne .or) (.only hand)
  exact Fails.node .expr (.only hor)

/-- The automaton finds an integer literal as a statement, and refuses it afterwards. -/
theorem start_fails {l semi : Lexeme} {e : ParseError} (hl : l.terminal = .int) (hsemi : semi.terminal = .semicolon)
    (he : intLiteral l = .error e) : Nonterminal.start.Fails e [l, semi] := by
  have hprimary : Nonterminal.primary.Fails e [l] := by
    obtain ⟨_, text, place⟩ := l
    cases hl
    exact ⟨.node .int (.cons (.leaf ⟨.int, text, place⟩) .nil), rfl, he⟩
  have hclosed : ∃ trees : Forest [.terminal .semicolon], trees.yield = [semi] := by
    obtain ⟨_, text, place⟩ := semi
    cases hsemi
    exact ⟨.cons (.leaf ⟨.semicolon, text, place⟩) .nil, rfl⟩
  have hform := Fails.node .exprStatement (.first (expr_fails hprimary) hclosed)
  have hstatement := Fails.node (.statement .expr) (.only hform)
  exact Fails.node .startSome (.only (Fails.node .statementsOne (.only hstatement)))

end Grammar

/-! ### What becomes of a literal -/

/-- The error of a front end for an integer numeral of too many digits. -/
def FrontEnd.tooLong : FrontEnd → Nat → ParseError
  | descent, digits => .integerTooLong digits
  | grammar, digits => .literalTooLong digits

namespace FrontEnd
variable {digits : List Char}

/-- The value of a literal, unless it is too large or too long. -/
def literalValue (f : FrontEnd) (digits : List Char) : Except ParseError Value :=
  if Decimal.maxIntegerDigits < digits.length then .error (f.tooLong digits.length)
  else if Word.maximum < decimalValue digits then .error (.integerOutOfRange (String.ofList digits) ⟨1, 1⟩)
  else .ok (.int (decimalValue digits))

theorem literalValue_eq_ok {f : FrontEnd} {v : Value} (h : f.literalValue digits = .ok v) :
    digits.length ≤ Decimal.maxIntegerDigits ∧ (decimalValue digits : Int) ≤ Word.maximum ∧
      v = .int (decimalValue digits) := by
  unfold literalValue at h
  split at h
  · cases h
  · next hlength =>
    split at h
    · cases h
    · next hrange =>
      cases h
      exact ⟨Nat.le_of_not_lt hlength, Int.not_lt.mp hrange, rfl⟩

section
variable (hne : digits ≠ []) (hdigits : AreDigits digits)
include hne hdigits

theorem integer_of_digits : Decimal.integer (String.ofList digits) =
    if Decimal.maxIntegerDigits < digits.length then .error (.tooLong digits.length) else .ok (decimalValue digits) := by
  have h := @Token.integer_digits (String.ofList digits)
  rw [String.toList_ofList, ← String.length_toList, String.toList_ofList] at h
  exact h hne hdigits

theorem integerLiteral_eq : Parser.integerLiteral (integerToken digits) = descent.literalValue digits := by
  rw [Parser.integerLiteral, integerToken, integer_of_digits hne hdigits, literalValue]
  by_cases hlength : Decimal.maxIntegerDigits < digits.length
  · rw [if_pos hlength, if_pos hlength]
    rfl
  · rw [if_neg hlength, if_neg hlength]

theorem intLiteral_eq : Grammar.intLiteral ⟨.int, String.ofList digits, ⟨1, 1⟩⟩ =
    Expr.literal <$> grammar.literalValue digits := by
  rw [Grammar.intLiteral, integer_of_digits hne hdigits, literalValue]
  by_cases hlength : Decimal.maxIntegerDigits < digits.length
  · rw [if_pos hlength, if_pos hlength]
    rfl
  · rw [if_neg hlength, if_neg hlength]
    by_cases hrange : Word.maximum < (decimalValue digits : Int)
    · rw [if_pos hrange]
      exact if_pos hrange
    · rw [if_neg hrange]
      exact if_neg hrange

/-- What the procedures refuse the literal for. -/
theorem descent_of_faulty {e : ParseError} (h : Parser.integerLiteral (integerToken digits) = .error e) :
    descent.parse (literalText digits) = .error e := by
  obtain ⟨p, q, hts⟩ := tokenize_literalText hne hdigits
  have hplain : ∀ u ∈ [integerToken digits, ⟨.semicolon, ";", p⟩], u.kind ≠ .eof ∧ u.kind ≠ .invalid := by
    simp [integerToken]
  refine Syntax.parse_of_faulty hts rfl hplain ?_
  show some (Parser.integerLiteral (integerToken digits)) = _
  rw [h]

/-- What the automaton's tree is refused for. -/
theorem grammar_of_faulty {e : ParseError}
    (h : Grammar.intLiteral ⟨.int, String.ofList digits, ⟨1, 1⟩⟩ = .error e) :
    grammar.parse (literalText digits) = .error e := by
  obtain ⟨p, q, hts⟩ := tokenize_literalText hne hdigits
  obtain ⟨ls, hlexes, hplaced⟩ := Grammar.exists_placed_lexes Grammar.automaton_isSafe _ hts rfl
  obtain ⟨l, _, ⟨hl, hplace⟩, hrest, rfl⟩ := List.forall₂_cons_right_iff.mp hplaced
  obtain ⟨semi, _, ⟨hsemi, -⟩, hnil, rfl⟩ := List.forall₂_cons_right_iff.mp hrest
  obtain rfl := List.forall₂_nil_right_iff.mp hnil
  have hleaf := hl.leaf (k := .integer) rfl
  have htext := hleaf.text_eq (by decide) (by decide)
  have hfaulty : Grammar.intLiteral l = .error e := by
    rw [← h, Grammar.intLiteral, htext, hplace]
    rfl
  obtain ⟨tree, hyield, hvalue⟩ := Grammar.start_fails hleaf.1 (hsemi.leaf (k := .semicolon) rfl).1 hfaulty
  rw [← hyield] at hlexes
  rw [parse, Grammar.programOf, Grammar.parse_of_lexes hlexes]
  exact hvalue

theorem descent_of_value {v : Value} (h : descent.literalValue digits = .ok v) :
    descent.parse (literalText digits) = .ok ⟨[.expr (.literal v)]⟩ := by
  obtain ⟨hlength, hrange, rfl⟩ := literalValue_eq_ok h
  obtain ⟨p, q, hts⟩ := tokenize_literalText hne hdigits
  have hprimary : Syntax.Primary [integerToken digits] (.literal (.int (decimalValue digits))) := by
    have h := Syntax.Primary.integer (t := integerToken digits) rfl
    simp only [integerToken, String.length_ofList, String.toList_ofList] at h
    exact h hlength hrange
  exact parse_of_statements hts rfl (.some (.expr (hprimary.chain _) rfl) .none)

theorem parse_literalText (f : FrontEnd) :
    f.parse (literalText digits) = (fun v => ⟨[.expr (.literal v)]⟩) <$> f.literalValue digits := by
  cases hvalue : f.literalValue digits with
  | error e =>
    cases f with
    | descent => exact descent_of_faulty hne hdigits ((integerLiteral_eq hne hdigits).trans hvalue)
    | grammar =>
      refine grammar_of_faulty hne hdigits ?_
      rw [intLiteral_eq hne hdigits, hvalue]
      rfl
  | ok v =>
    cases f with
    | descent => exact descent_of_value hne hdigits hvalue
    | grammar =>
      obtain ⟨hlength, hrange, rfl⟩ := literalValue_eq_ok hvalue
      have hdescent : descent.literalValue digits = .ok (.int (decimalValue digits)) := by
        rw [literalValue, if_neg (Nat.not_lt.mpr hlength), if_neg (Int.not_lt.mpr hrange)]
      exact grammar_of_descent (descent_of_value hne hdigits hdescent)

/-- Both front ends read a literal that is not too long by its value: up to the largest integer it is a program, and a larger
    one is complained about where it stands. A literal that is too long is refused without a complaint, whatever its value. -/
theorem literals_up_to_maximum (f : FrontEnd) :
    (digits.length ≤ Decimal.maxIntegerDigits → (decimalValue digits : Int) ≤ Word.maximum →
        f.parse (literalText digits) = .ok ⟨[.expr (.literal (.int (decimalValue digits)))]⟩) ∧
      (digits.length ≤ Decimal.maxIntegerDigits → Word.maximum < decimalValue digits →
        ∃ e, f.parse (literalText digits) = .error e ∧ e.diagnostic? =
          some ⟨.parsing, "integer literal " ++ String.ofList digits ++ " out of range", some ⟨1, 1⟩⟩) ∧
      (Decimal.maxIntegerDigits < digits.length →
        ∃ e, f.parse (literalText digits) = .error e ∧ e.diagnostic? = none) := by
  rw [parse_literalText hne hdigits, literalValue]
  refine ⟨fun hshort hsmall => ?_, fun hshort hlarge => ?_, fun hlong => ?_⟩
  · rw [if_neg (Nat.not_lt.mpr hshort), if_neg (Int.not_lt.mpr hsmall)]
    rfl
  · rw [if_neg (Nat.not_lt.mpr hshort), if_pos hlarge]
    exact ⟨_, rfl, rfl⟩
  · rw [if_pos hlong]
    refine ⟨_, rfl, ?_⟩
    cases f <;> rfl

end

/-- Leading zeros do not count. -/
theorem seven_read : ['0', '0', '7'] ≠ [] ∧ AreDigits ['0', '0', '7'] ∧
    grammar.parse (literalText ['0', '0', '7']) = .ok ⟨[.expr (.literal (.int 7))]⟩ := by
  have hdigits : AreDigits ['0', '0', '7'] := by simp [AreDigits, Text.isAsciiDigit]
  refine ⟨List.cons_ne_nil _ _, hdigits, ?_⟩
  exact (literals_up_to_maximum (List.cons_ne_nil _ _) hdigits grammar).1 (by decide) (by decide)

/-- A long row of zeros is neither read as zero nor complained about. -/
theorem long_zero_neither_read_nor_complained_about :
    ¬∀ digits, digits ≠ [] → AreDigits digits → ∀ f : FrontEnd,
      ((decimalValue digits : Int) ≤ Word.maximum →
        f.parse (literalText digits) = .ok ⟨[.expr (.literal (.int (decimalValue digits)))]⟩) ∧
      (Word.maximum < decimalValue digits →
        ∃ e message, f.parse (literalText digits) = .error e ∧ e.diagnostic? = some ⟨.parsing, message, some ⟨1, 1⟩⟩) := by
  intro h
  have hne : List.replicate 4301 '0' ≠ [] := List.ne_nil_of_length_pos (by rw [List.length_replicate]; decide)
  have hdigits : AreDigits (List.replicate 4301 '0') := fun c hc => by rw [List.eq_of_mem_replicate hc]; decide
  have hrefused : descent.parse (literalText (List.replicate 4301 '0')) = .error (.integerTooLong 4301) := by
    rw [parse_literalText hne hdigits, literalValue, List.length_replicate]
    rfl
  obtain ⟨hsmall, hlarge⟩ := h _ hne hdigits descent
  by_cases hvalue : (decimalValue (List.replicate 4301 '0') : Int) ≤ Word.maximum
  · exact nomatch hrefused.symm.trans (hsmall hvalue)
  · obtain ⟨e, message, he, hcomplaint⟩ := hlarge (Int.not_le.mp hvalue)
    cases hrefused.symm.trans he
    cases hcomplaint

end FrontEnd
end TypedImp
