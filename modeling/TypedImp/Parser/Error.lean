import TypedImp.Diagnostic
import TypedImp.Decimal.Numeral

/-! Why a text or a list of tokens is no program. Both parsers report in these terms. -/

namespace TypedImp

/-- What stands where something else should. --/
inductive Found where
  | endOfInput
  | lexeme (text : String)
  deriving DecidableEq, Inhabited, Repr

def Found.text : Found → String
  | endOfInput => "end of input"
  | lexeme text => Text.quoted text

def Token.found (t : Token) : Found := if t.kind = .eof then .endOfInput else .lexeme t.text

/-- What should stand at a place: one kind of token, or any of several. --/
inductive Expected where
  | one (kind : Token.Kind)
  | oneOf (kinds : List Token.Kind)
  deriving DecidableEq, Inhabited, Repr

namespace Expected

def has : Expected → Token.Kind → Bool
  | one k, kind => k = kind
  | oneOf ks, kind => ks.contains kind

def text : Expected → String
  | one k => Text.quoted k.text
  | oneOf ks => "one of " ++ ", ".intercalate (ks.map fun k => Text.quoted k.text)

end Expected

/-- The first group are errors of the program text. The second group are numerals that no program text
    should hold, a look at a place where no token is, and the bound on the parser's steps, which no list of
    tokens reaches. --/
inductive ParseError where
  | invalidToken (diagnosis : String) (place : Position)
  | unexpectedCharacter (c : Char) (place : Position)
  | unexpected (found : Found) (place : Position)
  | expected (what : Expected) (found : Found) (place : Position)
  | expectedExpression (found : Found) (place : Position)
  | unterminatedBlock (place : Position)
  | forInitializer (place : Position)
  | unknownType (name : String) (place : Position)
  | integerOutOfRange (text : String) (place : Position)
  | malformedInteger (text : String)
  | malformedNumber (text : String)
  | integerTooLong (digits : Nat)
  | literalTooLong (digits : Nat)
  | noSuchToken
  | outOfSteps
  deriving DecidableEq, Inhabited, Repr

namespace ParseError

/-- The text of a faulty integer is cut after this many characters. --/
def shownLimit : Nat := 200

def diagnostic? : ParseError → Option Diagnostic
  | invalidToken diagnosis place => some ⟨.lexing, diagnosis, some place⟩
  | unexpectedCharacter c place =>
    some ⟨.lexing, "unexpected character " ++ Text.quoted (String.singleton c), some place⟩
  | unexpected found place => some ⟨.parsing, "unexpected " ++ found.text, some place⟩
  | expected what found place =>
    some ⟨.parsing, "expected " ++ what.text ++ ", got " ++ found.text, some place⟩
  | expectedExpression found place =>
    some ⟨.parsing, "expected expression, got " ++ found.text, some place⟩
  | unterminatedBlock place => some ⟨.parsing, "unterminated block, expected '\x7d'", some place⟩
  | forInitializer place =>
    some ⟨.parsing, "expected variable declaration or assignment in for initializer", some place⟩
  | unknownType name place => some ⟨.parsing, "unknown type " ++ Text.quoted name, some place⟩
  | integerOutOfRange text place =>
    some ⟨.parsing, "integer literal " ++ text ++ " out of range", some place⟩
  | _ => none

def message (e : ParseError) : String :=
  match e.diagnostic? with
  | some d => d.text
  | none =>
    match e with
    | malformedInteger text =>
      "invalid literal for int() with base 10: " ++
        String.ofList ((Text.quoted text).toList.take shownLimit)
    | malformedNumber text => "could not convert string to float: " ++ Text.quoted text
    | integerTooLong digits => Decimal.tooLongMessage digits
    | literalTooLong digits =>
      "Error trying to process rule \"int_lit\":\n\n" ++ Decimal.tooLongMessage digits
    | noSuchToken => "list index out of range"
    | _ => "the parser ran out of steps"

end ParseError
end TypedImp
