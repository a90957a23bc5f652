import TypedImp.Text.Quoted

/-! Tokens: the words of a source text with their places. -/

namespace TypedImp

/-- A place in a text; lines and columns count from one. --/
structure Position where
  line : Nat
  column : Nat
  deriving DecidableEq, Inhabited, Repr

namespace Token

inductive Kind where
  | ifWord
  | elseWord
  | whileWord
  | forWord
  | returnWord
  | varWord
  | printWord
  | inputWord
  | funcWord
  | integer
  | float
  | char
  | boolean
  | string
  | ident
  | plus
  | minus
  | star
  | slash
  | percent
  | assign
  | eq
  | ne
  | lt
  | le
  | gt
  | ge
  | and
  | or
  | lparen
  | rparen
  | lbrace
  | rbrace
  | comma
  | semicolon
  | colon
  | eof
  | invalid
  deriving DecidableEq, Inhabited, Repr

namespace Kind

/-- The name of a kind and the text that stands for it in messages: the lexeme itself where there is
    only one. --/
def labels : Kind → String × String
  | ifWord => ("IF", "if")
  | elseWord => ("ELSE", "else")
  | whileWord => ("WHILE", "while")
  | forWord => ("FOR", "for")
  | returnWord => ("RETURN", "return")
  | varWord => ("VAR", "var")
  | printWord => ("PRINT", "print")
  | inputWord => ("INPUT", "input")
  | funcWord => ("FUNC", "func")
  | integer => ("INTEGER", "INTEGER")
  | float => ("FLOAT", "FLOAT")
  | char => ("CHAR", "CHAR")
  | boolean => ("BOOLEAN", "BOOLEAN")
  | string => ("STRING", "STRING")
  | ident => ("IDENT", "IDENT")
  | plus => ("PLUS", "+")
  | minus => ("MINUS", "-")
  | star => ("STAR", "*")
  | slash => ("SLASH", "/")
  | percent => ("PERCENT", "%")
  | assign => ("ASSIGN", "=")
  | eq => ("EQ", "==")
  | ne => ("NE", "!=")
  | lt => ("LT", "<")
  | le => ("LE", "<=")
  | gt => ("GT", ">")
  | ge => ("GE", ">=")
  | and => ("AND", "&&")
  | or => ("OR", "||")
  | lparen => ("LPAREN", "(")
  | rparen => ("RPAREN", ")")
  | lbrace => ("LBRACE", "\x7b")
  | rbrace => ("RBRACE", "\x7d")
  | comma => ("COMMA", ",")
  | semicolon => ("SEMICOLON", ";")
  | colon => ("COLON", ":")
  | eof => ("EOF", "EOF")
  | invalid => ("INVALID", "INVALID")

def name (k : Kind) : String := k.labels.1

def text (k : Kind) : String := k.labels.2

def keywords : List Kind :=
  [ifWord, elseWord, whileWord, forWord, returnWord, varWord, printWord, inputWord, funcWord]

/-- The operators of two characters. --/
def pairs : List Kind := [eq, ne, le, ge, and, or]

/-- The operators and delimiters of one character. --/
def singles : List Kind :=
  [plus, minus, star, slash, percent, assign, lt, gt, lparen, rparen, lbrace, rbrace, comma, semicolon,
    colon]

def all : List Kind :=
  keywords ++ [integer, float, char, boolean, string, ident] ++ pairs ++ singles ++ [eof, invalid]

def ofName? (name : String) : Option Kind := all.find? fun k => k.name == name

/-- Does a token of this kind end the text? --/
def isFinal (k : Kind) : Bool := k = eof || k = invalid

theorem mem_all (k : Kind) : k ∈ all := by
  cases k <;> decide

end Kind
end Token

/-- The text of an invalid token says what is wrong. --/
structure Token where
  kind : Token.Kind
  text : String
  position : Position
  deriving DecidableEq, Inhabited, Repr

namespace Token

/-- A token on one line: kind, text and place. --/
def shown (t : Token) : String :=
  let kind := t.kind.name
  let text := Text.quoted t.text
  let line := t.position.line
  let column := t.position.column
  s!"{kind} {text} {line}:{column}"

end Token
end TypedImp
