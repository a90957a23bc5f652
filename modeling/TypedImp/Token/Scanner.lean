import TypedImp.Index
import TypedImp.Token.Basic
import TypedImp.Text.Digit

/-! The scanner cuts a text into tokens. It never fails: what is no token becomes an invalid one, whose
    text says what is wrong, and nothing is read behind it. The character classes are those of ASCII. -/

namespace TypedImp

/-- Where the scanner stands: what is left of the text, how many characters are behind it, and the
    place of the next one. -/
structure Scanner where
  rest : List Char
  offset : Nat
  position : Position
  deriving DecidableEq, Inhabited, Repr

namespace Scanner

/-! ### Character classes -/

def isSpace (c : Char) : Bool := c = ' ' || c = '\t' || c = '\x0c' || c = '\r' || c = '\n'

def isIdentStart (c : Char) : Bool := ('a' ≤ c && c ≤ 'z') || ('A' ≤ c && c ≤ 'Z') || c = '_'

def isIdentChar (c : Char) : Bool := isIdentStart c || Text.isAsciiDigit c

/-! ### Moving on -/

def ofText (text : String) : Scanner := ⟨text.toList, 0, ⟨1, 1⟩⟩

/-- The place behind a character. --/
def after (p : Position) (c : Char) : Position :=
  if c = '\n' then ⟨p.line + 1, 1⟩ else ⟨p.line, p.column + 1⟩

/-- Moves on by `n` characters, or to the end of the text. --/
def advance : Nat → Scanner → Scanner
  | 0, s => s
  | n + 1, s =>
    match s.rest with
    | [] => s
    | c :: cs => advance n ⟨cs, s.offset + 1, after s.position c⟩

/-- Why there is no character to look at: the text is at its end, or it does not reach back so far. --/
inductive NoChar where
  | atEnd
  | beforeStart
  deriving DecidableEq, Inhabited, Repr

def NoChar.message : NoChar → String
  | atEnd => ""
  | beforeStart => "string index out of range"

/-- The character `k` places away in the text that is scanned. What lies before the start of the text
    counts from its end. --/
def look (text : List Char) (s : Scanner) (k : Int) : Except NoChar Char :=
  let i := s.offset + k
  match (Index.place? text.length i).bind fun j => text[j]? with
  | some c => .ok c
  | none => .error (if i < 0 then .beforeStart else .atEnd)

theorem length_rest_advance (n : Nat) (s : Scanner) :
    (s.advance n).rest.length = s.rest.length - n := by
  induction n generalizing s with
  | zero => simp [advance]
  | succ n ih =>
    unfold advance
    split
    · simp [*]
    · next c cs h =>
      rw [ih]
      simp [h]

/-! ### Blanks and comments -/

/-- Where between two tokens a character stands. --/
inductive Trivia where
  | between
  | lineComment
  | blockComment

/-- How many characters the blanks and comments in front of the text take. A line comment ends before
    its newline, a block comment behind its closing mark or with the text. --/
def triviaLength : Trivia → List Char → Nat
  | _, [] => 0
  | .between, c :: cs =>
    if isSpace c then triviaLength .between cs + 1
    else if c = '/' then
      match cs with
      | '/' :: cs => triviaLength .lineComment cs + 2
      | '*' :: cs => triviaLength .blockComment cs + 2
      | _ => 0
    else 0
  | .lineComment, c :: cs =>
    if c = '\n' then triviaLength .between cs + 1 else triviaLength .lineComment cs + 1
  | .blockComment, c :: cs =>
    if c = '*' then
      match cs with
      | '/' :: cs => triviaLength .between cs + 2
      | cs => triviaLength .blockComment cs + 1
    else triviaLength .blockComment cs + 1

def skipTrivia (s : Scanner) : Scanner := s.advance (triviaLength .between s.rest)

/-! ### The readers

Each reads a token of its kind where the scanner stands. -/

/-- The digits in front, with at most one point among them, and whether there is a point. --/
def numberLexeme (cs : List Char) : List Char × Bool :=
  let whole := cs.takeWhile Text.isAsciiDigit
  match cs.drop whole.length with
  | '.' :: rest => (whole ++ '.' :: rest.takeWhile Text.isAsciiDigit, true)
  | _ => (whole, false)

def readNumber (s : Scanner) : Token × Scanner :=
  let (lexeme, point) := numberLexeme s.rest
  (⟨if point then .float else .integer, String.ofList lexeme, s.position⟩, s.advance lexeme.length)

/-- The kind of a word. --/
def wordKind (word : String) : Token.Kind :=
  if word = "true" || word = "false" then .boolean
  else (Token.Kind.keywords.find? fun k => k.text == word).getD .ident

def readIdentifier (s : Scanner) : Token × Scanner :=
  let lexeme := s.rest.takeWhile isIdentChar
  let word := String.ofList lexeme
  (⟨wordKind word, word, s.position⟩, s.advance lexeme.length)

def malformedChar : String := "malformed character literal"

/-- One character other than a newline or a single quote, between single quotes. --/
def readChar (s : Scanner) : Token × Scanner :=
  match s.rest.drop 1 with
  | [] => (⟨.invalid, malformedChar, s.position⟩, s.advance 1)
  | c :: cs =>
    if c = '\n' || c = '\x27' then (⟨.invalid, malformedChar, s.position⟩, s.advance 1)
    else if cs.head? = some '\x27' then (⟨.char, String.singleton c, s.position⟩, s.advance 3)
    else (⟨.invalid, malformedChar, s.position⟩, s.advance 2)

/-- The characters up to the closing quote and how much of the text they take; nothing if the quote is
    missing. A backslash in front of a double quote makes it an ordinary character. --/
def stringContent : List Char → Option (List Char × Nat)
  | [] => none
  | c :: cs =>
    if c = '\x22' then some ([], 0)
    else if c = '\\' then
      match cs with
      | '\x22' :: cs => (stringContent cs).map fun r => ('\x22' :: r.1, r.2 + 2)
      | cs => (stringContent cs).map fun r => ('\\' :: r.1, r.2 + 1)
    else (stringContent cs).map fun r => (c :: r.1, r.2 + 1)

def unterminatedString : String := "unterminated string literal"

def readString (s : Scanner) : Token × Scanner :=
  match stringContent (s.rest.drop 1) with
  | none => (⟨.invalid, unterminatedString, s.position⟩, s.advance s.rest.length)
  | some (content, n) => (⟨.string, String.ofList content, s.position⟩, s.advance (n + 2))

/-- The kind among `kinds` whose lexeme is `lexeme`. --/
def symbolKind? (kinds : List Token.Kind) (lexeme : String) : Option Token.Kind :=
  kinds.find? fun k => k.text == lexeme

/-- An operator or delimiter, the longer one first. --/
def readSymbol (s : Scanner) : Token × Scanner :=
  let pair := String.ofList (s.rest.take 2)
  let single := String.ofList (s.rest.take 1)
  match symbolKind? Token.Kind.pairs pair with
  | some k => (⟨k, pair, s.position⟩, s.advance 2)
  | none =>
    match symbolKind? Token.Kind.singles single with
    | some k => (⟨k, single, s.position⟩, s.advance 1)
    | none => (⟨.invalid, "unexpected character " ++ Text.quoted single, s.position⟩, s.advance 1)

/-- The next token. At the end of the text it is the final one, again and again. --/
def next (s : Scanner) : Token × Scanner :=
  let s := s.skipTrivia
  match s.rest with
  | [] => (⟨.eof, "", s.position⟩, s)
  | c :: _ =>
    if Text.isAsciiDigit c then s.readNumber
    else if isIdentStart c then s.readIdentifier
    else if c = '\x27' then s.readChar
    else if c = '\x22' then s.readString
    else s.readSymbol

/-- The tokens up to the first final one. Every other token takes at least one character. --/
def tokens (s : Scanner) : List Token :=
  let r := s.next
  if r.1.kind.isFinal then [r.1]
  else if _h : r.2.rest.length < s.rest.length then r.1 :: r.2.tokens
  else [r.1]
termination_by s.rest.length

end Scanner

/-- The tokens of a text. --/
def tokenize (text : String) : List Token := (Scanner.ofText text).tokens

end TypedImp
