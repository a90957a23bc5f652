import TypedImp.Grammar.Terminal

/-! Cutting lexemes from a text. Which terminals are tried depends on those that the parser accepts where
    it stands, so the same text can be cut in different ways.

    This is the contextual lexer of Lark 1.3.1. In each state of the parser it only tries the terminals for
    which the state has an action, and the ignored ones (`tried`), and the first one that matches wins
    (`firstMatch?`). A literal that the pattern of names matches as well is a keyword: where both are accepted
    it is not tried by itself, and a name with the very text of the keyword becomes the keyword
    (`recognised`). Where only the name is accepted, the word stays a name; where only the keyword is, it
    matches in front of further letters, too. -/

namespace TypedImp
namespace Grammar

/-- The terminals that are tried where some are accepted: those and the ignored ones. Where a name is
    accepted a keyword is not tried by itself. --/
def tried (accepted : List Terminal) : List Terminal :=
  Terminal.lexical.filter fun t =>
    t.isIgnored || (accepted.contains t && !(t.keyword?.isSome && accepted.contains .name))

/-- The first of the terminals that matches at the front of the text, with the length of its lexeme. --/
def firstMatch? (ts : List Terminal) (cs : List Char) : Option (Terminal × Nat) :=
  ts.findSome? fun t => (t.matchLength? cs).map fun n => (t, n)

/-- A name that is the word of an accepted keyword is that keyword. --/
def recognised (accepted : List Terminal) (t : Terminal) (word : String) : Terminal :=
  if t = .name then (accepted.find? fun k => k.keyword? = some word).getD .name else t

/-- What is at the front of a text when ignored lexemes are skipped. --/
inductive Cut where
  | lexeme (l : Lexeme) (rest : Scanner)
  | endOfText
  | nothing (rest : Scanner)
  deriving Repr

/-- Cuts off the next lexeme and at most as many ignored ones as the second argument says. --/
def cutUpTo (accepted : List Terminal) : Nat → Scanner → Cut
  | 0, s => .nothing s
  | n + 1, s =>
    if s.rest.isEmpty then .endOfText
    else
      match firstMatch? (tried accepted) s.rest with
      | none => .nothing s
      | some (t, k) =>
        if t.isIgnored then cutUpTo accepted n (s.advance k)
        else
          let word := String.ofList (s.rest.take k)
          .lexeme ⟨recognised accepted t word, word, s.position⟩ (s.advance k)

/-- The next lexeme where some terminals are accepted. --/
def cut (accepted : List Terminal) (s : Scanner) : Cut := cutUpTo accepted (s.rest.length + 1) s

end Grammar
end TypedImp
