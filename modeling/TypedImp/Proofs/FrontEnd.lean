import TypedImp.FrontEnd
import TypedImp.Proofs.Grammar.StatementTrees
import TypedImp.Proofs.Syntax.Names
import TypedImp.Proofs.Token.Progress

/-! The two front ends agree. A text whose tokens derive a program is cut by the automaton into lexemes that write
    these tokens, and the automaton finds the tree for them. In the other direction the leaves of a tree write tokens
    that derive its program. These are the text's own tokens as long as no name of the program is a reserved word, the
    only thing that the cuts of the automaton and those of the scanner may read differently in a program. -/

namespace TypedImp

namespace FrontEnd
open Syntax

/-! ### From tokens to trees -/

/-- The automaton finds every program that the tokens of a text derive. -/
theorem grammar_of_derives {text : String} {p : Program} (hproper : Proper (tokenize text))
    (h : Derives (tokenize text) p) : grammar.parse text = .ok p := by
  obtain ⟨body, last, hts, hlast, -⟩ := hproper.closed
  rw [hts] at h
  obtain ⟨ls, hlexes, hwrites⟩ := Grammar.exists_lexes Grammar.automaton_isSafe (Scanner.ofText text) hts hlast
  obtain ⟨tree, rfl, hvalue⟩ := Grammar.Derives.tree h hwrites
  rw [parse, Grammar.programOf, Grammar.parse_of_lexes hlexes]
  exact hvalue

/-- Where the procedures read a program, the automaton finds the same one. -/
theorem grammar_of_descent {text : String} {p : Program} (h : descent.parse text = .ok p) :
    grammar.parse text = .ok p :=
  grammar_of_derives (proper_tokenize h) (derives_of_parse h)

/-- A text with a loop, whose signs take one character or two. -/
def loopText : String := "for (i = 0; i <= 3; i = i + 1) \x7b print(-i * 2 == 4); \x7d // end"

def loopProgram : Program :=
  ⟨[.forLoop (.assign "i" (.literal (.int 0))) (.binary (.var "i") .le (.literal (.int 3)))
    (.assign "i" (.binary (.var "i") .add (.literal (.int 1))))
    [.print (.binary (.binary (.unary .minus (.var "i")) .mul (.literal (.int 2))) .eq (.literal (.int 4)))]]⟩

theorem tokenize_loopText : tokenize loopText =
    [⟨.forWord, "for", ⟨1, 1⟩⟩, ⟨.lparen, "(", ⟨1, 5⟩⟩, ⟨.ident, "i", ⟨1, 6⟩⟩, ⟨.assign, "=", ⟨1, 8⟩⟩,
      ⟨.integer, "0", ⟨1, 10⟩⟩, ⟨.semicolon, ";", ⟨1, 11⟩⟩, ⟨.ident, "i", ⟨1, 13⟩⟩, ⟨.le, "<=", ⟨1, 15⟩⟩,
      ⟨.integer, "3", ⟨1, 18⟩⟩, ⟨.semicolon, ";", ⟨1, 19⟩⟩, ⟨.ident, "i", ⟨1, 21⟩⟩, ⟨.assign, "=", ⟨1, 23⟩⟩,
      ⟨.ident, "i", ⟨1, 25⟩⟩, ⟨.plus, "+", ⟨1, 27⟩⟩, ⟨.integer, "1", ⟨1, 29⟩⟩, ⟨.rparen, ")", ⟨1, 30⟩⟩,
      ⟨.lbrace, "\x7b", ⟨1, 32⟩⟩, ⟨.printWord, "print", ⟨1, 34⟩⟩, ⟨.lparen, "(", ⟨1, 39⟩⟩, ⟨.minus, "-", ⟨1, 40⟩⟩,
      ⟨.ident, "i", ⟨1, 41⟩⟩, ⟨.star, "*", ⟨1, 43⟩⟩, ⟨.integer, "2", ⟨1, 45⟩⟩, ⟨.eq, "==", ⟨1, 47⟩⟩,
      ⟨.integer, "4", ⟨1, 50⟩⟩, ⟨.rparen, ")", ⟨1, 51⟩⟩, ⟨.semicolon, ";", ⟨1, 52⟩⟩, ⟨.rbrace, "\x7d", ⟨1, 54⟩⟩,
      ⟨.eof, "", ⟨1, 62⟩⟩] := by
  rw [tokenize_eq_tokensWithin]
  decide +kernel

theorem parse_loopText : descent.parse loopText = .ok loopProgram := by
  rw [parse, Program.parse, tokenize_loopText]
  rfl

/-- Both find the loop. -/
theorem grammar_of_loop :
    descent.parse loopText = .ok loopProgram ∧ grammar.parse loopText = .ok loopProgram :=
  ⟨parse_loopText, grammar_of_descent parse_loopText⟩

/-! ### From trees to tokens -/

/-- The procedures read the program whose statements the tokens of a text derive. -/
theorem parse_of_statements {text : String} {p : Program} {ts : List Token} {last : Token}
    (hts : tokenize text = ts ++ [last]) (hlast : last.kind = .eof) (h : Statements ts p.body) :
    Program.parse text = .ok p := by
  obtain ⟨body, final, hbody, -, hplain⟩ := Scanner.tokens_closed (Scanner.ofText text)
  obtain ⟨rfl, -⟩ := List.append_inj' (hbody.symm.trans hts) rfl
  have hfits : ∀ t ∈ body, t.Fits := fun t ht =>
    Scanner.tokens_fit (Scanner.ofText text) t (hbody ▸ List.mem_append_left _ ht)
  have hnotFinal : ∀ t ∈ body, t.kind ≠ .eof ∧ t.kind ≠ .invalid := fun t ht => by
    simpa [Token.Kind.isFinal] using hplain t ht
  have hread := program_complete (s := ⟨body, last, hlast, hnotFinal⟩) hfits h
  rw [Program.parse, hts]
  exact answer_eq_ok.mpr hread

/-- Where the automaton finds a program in which no name is a reserved word, the procedures read the same one. -/
theorem descent_of_grammar {text : String} {p : Program} (h : grammar.parse text = .ok p)
    (hnames : ∀ x ∈ p.mentions, x ∉ Token.reservedWords) : descent.parse text = .ok p := by
  change Grammar.programOf text = .ok p at h
  unfold Grammar.programOf at h
  split at h
  · cases h
  next tree htree =>
  obtain ⟨ts, hwrites, htokens⟩ := Grammar.exists_tokens Grammar.automaton_isSafe (Grammar.reads_of_parse htree)
  have hstatements : Statements ts p.body := tree.means h hwrites
  -- Identifiers stand for names of the program and of types only.
  have hidents : ∀ t ∈ ts, t.kind = .ident → Scanner.wordKind t.text = .ident := fun t ht hkind => by
    refine Scanner.wordKind_eq_ident ?_
    rcases hstatements.named t ht hkind with hname | ⟨ty, hty⟩
    · exact hnames _ hname
    · rw [hty]
      exact ty.name_not_reserved
  obtain ⟨place, hplace⟩ := htokens hidents
  exact parse_of_statements hplace rfl hstatements

/-- A text whose names begin with reserved words. -/
def prefixText : String := "var iffy: bool = truest==fortune;returned(iffy);"

def prefixProgram : Program :=
  ⟨[.varDecl "iffy" .bool (some (.binary (.var "truest") .eq (.var "fortune"))),
    .expr (.call "returned" [.var "iffy"])]⟩

theorem tokenize_prefixText : tokenize prefixText =
    [⟨.varWord, "var", ⟨1, 1⟩⟩, ⟨.ident, "iffy", ⟨1, 5⟩⟩, ⟨.colon, ":", ⟨1, 9⟩⟩, ⟨.ident, "bool", ⟨1, 11⟩⟩,
      ⟨.assign, "=", ⟨1, 16⟩⟩, ⟨.ident, "truest", ⟨1, 18⟩⟩, ⟨.eq, "==", ⟨1, 24⟩⟩, ⟨.ident, "fortune", ⟨1, 26⟩⟩,
      ⟨.semicolon, ";", ⟨1, 33⟩⟩, ⟨.ident, "returned", ⟨1, 34⟩⟩, ⟨.lparen, "(", ⟨1, 42⟩⟩, ⟨.ident, "iffy", ⟨1, 43⟩⟩,
      ⟨.rparen, ")", ⟨1, 47⟩⟩, ⟨.semicolon, ";", ⟨1, 48⟩⟩, ⟨.eof, "", ⟨1, 49⟩⟩] := by
  rw [tokenize_eq_tokensWithin]
  decide +kernel

theorem parse_prefixText : Program.parse prefixText = .ok prefixProgram := by
  rw [Program.parse, tokenize_prefixText]
  rfl

theorem grammar_of_prefixes : grammar.parse prefixText = .ok prefixProgram :=
  grammar_of_derives (proper_tokenize parse_prefixText) (derives_of_parse parse_prefixText)

/-- No such name is one itself, and both find the program. -/
theorem descent_of_prefixes :
    grammar.parse prefixText = .ok prefixProgram ∧ (∀ x ∈ prefixProgram.mentions, x ∉ Token.reservedWords) ∧
      descent.parse prefixText = .ok prefixProgram :=
  ⟨grammar_of_prefixes, by decide, descent_of_grammar grammar_of_prefixes (by decide)⟩

end FrontEnd
end TypedImp
