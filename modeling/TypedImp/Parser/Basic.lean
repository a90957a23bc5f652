import TypedImp.Index
import TypedImp.Parser.Error

/-! A parser reads tokens one after the other, never goes back, and stops at the first token that does
    not fit. Where it stands is kept also when it stops. -/

namespace TypedImp

/-- A list of tokens that is not empty. Its last token stands for all that would follow it. --/
structure TokenStream where
  tokens : Array Token
  size_pos : 0 < tokens.size

namespace TokenStream

/-- The place behind a token on its line. --/
def behind (t : Token) : Position := ⟨t.position.line, t.position.column + t.text.length⟩

/-- The end of input is added to a list that ends in no final token. --/
def closing (ts : List Token) : Option Token :=
  match ts.getLast? with
  | none => some ⟨.eof, "", ⟨1, 1⟩⟩
  | some t => if t.kind.isFinal then none else some ⟨.eof, "", behind t⟩

def ofList (ts : List Token) : TokenStream :=
  match h : closing ts with
  | some t => ⟨(ts ++ [t]).toArray, by simp⟩
  | none => ⟨ts.toArray, by
      cases ts with
      | nil => simp [closing] at h
      | cons => simp⟩

/-- The token at place `i`, or the last one. --/
def get (ts : TokenStream) (i : Nat) : Token :=
  have _h : min i (ts.tokens.size - 1) < ts.tokens.size := by have := ts.size_pos; omega
  ts.tokens[min i (ts.tokens.size - 1)]

/-- More steps than this no parser takes on the tokens without consuming one. --/
def steps (ts : TokenStream) : Nat := ts.tokens.size + 1

end TokenStream

/-- How far a parser has come: how many tokens it has consumed, and which functions it has read to
    their end, with the number of their parameters, the latest first. --/
structure Cursor where
  consumed : Nat
  functions : List (String × Nat)
  deriving DecidableEq, Inhabited, Repr

/-- A parser of an `α`. --/
abbrev Parser (α : Type) := ReaderT TokenStream (EStateM ParseError Cursor) α

namespace Parser

def start : Cursor := ⟨0, []⟩

/-- The token `k` places ahead. An invalid token cannot be looked at. --/
def peek (k : Nat) : Parser Token := fun ts c =>
  let t := ts.get (c.consumed + k)
  if t.kind = .invalid then .error (.invalidToken t.text t.position) c else .ok t c

/-- The token `k` places away. What lies behind the last token is that token, and what lies before the
    first one counts from the end. --/
def look (k : Int) : Parser Token := fun ts c =>
  match Index.place? ts.tokens.size (min (c.consumed + k) (ts.tokens.size - 1)) with
  | none => .error .noSuchToken c
  | some i =>
    let t := ts.get i
    if t.kind = .invalid then .error (.invalidToken t.text t.position) c else .ok t c

def isNext (e : Expected) : Parser Bool := do
  let t ← peek 0
  return e.has t.kind

def nextIs (k : Token.Kind) : Parser Bool := isNext (.one k)

/-- Is the next token an identifier and the one behind it an assignment sign? --/
def nextIsAssignment : Parser Bool := do
  if ← nextIs .ident then
    let t ← peek 1
    return t.kind = .assign
  else
    return false

def step : Parser Unit := modify fun c => { c with consumed := c.consumed + 1 }

/-- Consumes the next token, which must be as expected. --/
def expect (e : Expected) : Parser Token := do
  let t ← peek 0
  if e.has t.kind then
    step
    return t
  else
    throw (.expected e t.found t.position)

def expectKind (k : Token.Kind) : Parser Token := expect (.one k)

/-- Consumes a token of the kind if one is there. --/
def skipIf (k : Token.Kind) : Parser Unit := do
  if ← nextIs k then discard (expectKind k)

/-- The bound on the parser's loops and on its nesting. --/
def stepBound : Parser Nat := fun ts c => .ok ts.steps c

end Parser
end TypedImp
