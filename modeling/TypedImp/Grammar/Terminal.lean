import TypedImp.Token.Scanner

/-! The terminals of the grammar and the texts that each of them matches. A terminal matches at the front
    of a text or not at all; where it matches, the length of its lexeme is determined.

    The grammar is one for Lark 1.3.1, and this module and the others of the grammar render what Lark does
    with it. Here its rules on terminals are followed: a literal of the grammar is a terminal with a label of
    its own (`Terminal.label`), and terminals are tried (`Terminal.lexical`) in the order of their priority,
    then of the length of the longest text that they could match, then of the length of their pattern, and
    then of their names. A pattern matches as a regular expression does, with backtracking
    (`Terminal.matchLength?`). -/

namespace TypedImp
namespace Grammar

/-- The terminals in the order in which they are tried, and the end of the text. --/
inductive Terminal where
  | float
  | bool
  | name
  | string
  | blockComment
  | blank
  | lineComment
  | int
  | returnWord
  | inputWord
  | printWord
  | whileWord
  | elseWord
  | funcWord
  | char
  | forWord
  | varWord
  | relational
  | equality
  | and
  | ifWord
  | or
  | multiplicative
  | additive
  | colon
  | comma
  | equal
  | lbrace
  | lparen
  | rbrace
  | rparen
  | semicolon
  | endOfText
  deriving DecidableEq, Inhabited, Repr

namespace Terminal

/-- The terminals that stand for text, in the order in which they are tried. --/
def lexical : List Terminal :=
  [float, bool, name, string, blockComment, blank, lineComment, int, returnWord, inputWord, printWord,
    whileWord, elseWord, funcWord, char, forWord, varWord, relational, equality, and, ifWord, or,
    multiplicative, additive, colon, comma, equal, lbrace, lparen, rbrace, rparen, semicolon]

def all : List Terminal := lexical ++ [endOfText]

/-- What messages call a terminal. --/
def label : Terminal → String
  | float => "FLOAT"
  | bool => "BOOL"
  | name => "NAME"
  | string => "STRING"
  | blockComment => "BLOCK_COMMENT"
  | blank => "WS"
  | lineComment => "LINE_COMMENT"
  | int => "INT"
  | returnWord => "RETURN"
  | inputWord => "INPUT"
  | printWord => "PRINT"
  | whileWord => "WHILE"
  | elseWord => "ELSE"
  | funcWord => "FUNC"
  | char => "CHAR"
  | forWord => "FOR"
  | varWord => "VAR"
  | relational => "REL_OP"
  | equality => "EQ_OP"
  | and => "AND_OP"
  | ifWord => "IF"
  | or => "OR_OP"
  | multiplicative => "MUL_OP"
  | additive => "ADD_OP"
  | colon => "COLON"
  | comma => "COMMA"
  | equal => "EQUAL"
  | lbrace => "LBRACE"
  | lparen => "LPAR"
  | rbrace => "RBRACE"
  | rparen => "RPAR"
  | semicolon => "SEMICOLON"
  | endOfText => "$END"

/-- The word that a keyword is. --/
def keyword? : Terminal → Option String
  | returnWord => some "return"
  | inputWord => some "input"
  | printWord => some "print"
  | whileWord => some "while"
  | elseWord => some "else"
  | funcWord => some "func"
  | forWord => some "for"
  | varWord => some "var"
  | ifWord => some "if"
  | _ => none

/-- Blanks and comments may stand between any two lexemes and mean nothing. --/
def isIgnored (t : Terminal) : Bool := t = blockComment || t = blank || t = lineComment

theorem mem_all (t : Terminal) : t ∈ all := by
  cases t <;> decide

/-! ### Matching -/

/-- The first of the texts that the input begins with, as a length. --/
def literalLength? (texts : List String) (cs : List Char) : Option Nat :=
  (texts.find? fun s => s.toList.isPrefixOf cs).map String.length

/-- The length of the longest row of characters of a class; there must be one. --/
def rowLength? (isMember : Char → Bool) (cs : List Char) : Option Nat :=
  match (cs.takeWhile isMember).length with
  | 0 => none
  | n + 1 => some (n + 1)

def nameLength? : List Char → Option Nat
  | [] => none
  | c :: cs =>
    if Scanner.isIdentStart c then some ((cs.takeWhile Scanner.isIdentChar).length + 1) else none

/-- Digits and a point, and what digits follow. --/
def floatLength? (cs : List Char) : Option Nat := do
  let n ← rowLength? Text.isAsciiDigit cs
  match cs.drop n with
  | '.' :: rest => some (n + 1 + (rest.takeWhile Text.isAsciiDigit).length)
  | _ => none

/-- A truth value that no letter, digit or underscore follows. --/
def boolLength? (cs : List Char) : Option Nat := do
  let n ← literalLength? ["true", "false"] cs
  if ((cs.drop n).head?.map Scanner.isIdentChar).getD false then none else some n

def charLength? : List Char → Option Nat
  | '\x27' :: c :: '\x27' :: _ => if c = '\n' || c = '\x27' then none else some 3
  | _ => none

/-- The length of a string's content with its closing quote. A backslash and a double quote are one
    character of the content. --/
def stringRest? : List Char → Option Nat
  | [] => none
  | c :: cs =>
    if c = '\x22' then some 1
    else if c = '\\' then
      match cs with
      | '\x22' :: cs => (stringRest? cs).map (· + 2)
      | cs => (stringRest? cs).map (· + 1)
    else (stringRest? cs).map (· + 1)

def stringLength? : List Char → Option Nat
  | '\x22' :: cs => (stringRest? cs).map (· + 1)
  | _ => none

def lineCommentLength? : List Char → Option Nat
  | '/' :: '/' :: cs => some ((cs.takeWhile (· ≠ '\n')).length + 2)
  | _ => none

/-- The length of the rest of a block comment: through the first closing mark, or else to the end of
    the text, except that a newline at the very end is left out. --/
def blockCommentRest : List Char → Nat
  | [] => 0
  | c :: cs =>
    if c = '*' && cs.head? = some '/' then 2
    else if c = '\n' && cs.isEmpty then 0
    else blockCommentRest cs + 1

def blockCommentLength? : List Char → Option Nat
  | '/' :: '*' :: cs => some (blockCommentRest cs + 2)
  | _ => none

/-- The length of the lexeme of a terminal at the front of a text. --/
def matchLength? : Terminal → List Char → Option Nat
  | float => floatLength?
  | bool => boolLength?
  | name => nameLength?
  | string => stringLength?
  | blockComment => blockCommentLength?
  | blank => rowLength? Scanner.isSpace
  | lineComment => lineCommentLength?
  | int => rowLength? Text.isAsciiDigit
  | char => charLength?
  | relational => literalLength? ["<=", ">=", "<", ">"]
  | equality => literalLength? ["==", "!="]
  | and => literalLength? ["&&"]
  | or => literalLength? ["||"]
  | multiplicative => literalLength? ["*", "/", "%"]
  | additive => literalLength? ["+", "-"]
  | colon => literalLength? [":"]
  | comma => literalLength? [","]
  | equal => literalLength? ["="]
  | lbrace => literalLength? ["\x7b"]
  | lparen => literalLength? ["("]
  | rbrace => literalLength? ["\x7d"]
  | rparen => literalLength? [")"]
  | semicolon => literalLength? [";"]
  | endOfText => fun _ => none
  | word => literalLength? word.keyword?.toList

end Terminal

/-! ### Sets of terminals -/

/-- A set of terminals as a bit mask, a bit for each place in the list of all. --/
structure TerminalSet where
  mask : Nat
  deriving DecidableEq, Inhabited, Repr

namespace TerminalSet

def empty : TerminalSet := ⟨0⟩

def single (t : Terminal) : TerminalSet := ⟨1 <<< t.ctorIdx⟩

def union (a b : TerminalSet) : TerminalSet := ⟨a.mask ||| b.mask⟩

def has (s : TerminalSet) (t : Terminal) : Bool := s.mask.testBit t.ctorIdx

/-- Is every member of `b` one of `a`? --/
def includes (a b : TerminalSet) : Bool := a.mask &&& b.mask == b.mask

end TerminalSet

/-- A terminal with the text that it matched and where the text begins. --/
structure Lexeme where
  terminal : Terminal
  text : String
  position : Position
  deriving DecidableEq, Inhabited, Repr

end Grammar
end TypedImp
