import TypedImp.Json.Basic
import TypedImp.Decimal.Numeral

/-! Reading JSON text. Beyond the standard the reader takes `NaN`, `Infinity` and `-Infinity`; a key
    that is repeated keeps its first place and its last value. -/

namespace TypedImp
namespace Json

/-- Why a text is refused. --/
inductive Refusal where
  | value
  | propertyName
  | colon
  | comma
  | control
  | unterminated
  | escape
  | unicodeEscape
  | extra
  | byteOrderMark
  deriving DecidableEq, Repr

def Refusal.message : Refusal → String
  | value => "Expecting value"
  | propertyName => "Expecting property name enclosed in double quotes"
  | colon => "Expecting ':' delimiter"
  | comma => "Expecting ',' delimiter"
  | control => "Invalid control character at"
  | unterminated => "Unterminated string starting at"
  | escape => "Invalid \\escape"
  | unicodeEscape => "Invalid \\uXXXX escape"
  | extra => "Extra data"
  | byteOrderMark => "Unexpected UTF-8 BOM (decode using utf-8-sig)"

inductive ReadError where
  | refused (why : Refusal) (offset : Nat)
  | integerTooLong (digits : Nat)
  deriving DecidableEq, Repr

/-- The line and the column of an offset, both counted from one. --/
def lineColumn (text : List Char) (offset : Nat) : Nat × Nat :=
  let before := text.take offset
  (1 + before.count '\n', 1 + (before.reverse.takeWhile (· ≠ '\n')).length)

/-- Where the reader stands: what is left of the text, and how much is behind. --/
structure Cursor where
  rest : List Char
  offset : Nat

namespace Cursor

def drop (c : Cursor) (n : Nat) : Cursor := ⟨c.rest.drop n, c.offset + n⟩

def isSpace (c : Char) : Bool := c = ' ' || c = '\t' || c = '\n' || c = '\r'

def skipSpace (c : Cursor) : Cursor := c.drop (c.rest.takeWhile isSpace).length

def refuse {α : Type} (c : Cursor) (why : Refusal) : Except ReadError α := .error (.refused why c.offset)

end Cursor

/-! ### Strings -/

def hexDigit? (c : Char) : Option Nat :=
  if '0' ≤ c && c ≤ '9' then some (c.toNat - 48)
  else if 'a' ≤ c && c ≤ 'f' then some (c.toNat - 87)
  else if 'A' ≤ c && c ≤ 'F' then some (c.toNat - 55)
  else none

def hex4? (a b c d : Char) : Option Nat := do
  let a ← hexDigit? a
  let b ← hexDigit? b
  let c ← hexDigit? c
  let d ← hexDigit? d
  some (((a * 16 + b) * 16 + c) * 16 + d)

/-- The character that a backslash and `c` stand for. --/
def simpleEscape? (c : Char) : Option Char :=
  if c = '\x22' || c = '\\' || c = '/' then some c
  else if c = 'b' then some '\x08'
  else if c = 'f' then some '\x0c'
  else if c = 'n' then some '\n'
  else if c = 'r' then some '\r'
  else if c = 't' then some '\t'
  else none

def isHighSurrogate (n : Nat) : Bool := 0xd800 ≤ n && n ≤ 0xdbff

def isLowSurrogate (n : Nat) : Bool := 0xdc00 ≤ n && n ≤ 0xdfff

def joinSurrogates (high low : Nat) : Nat := 0x10000 + (high - 0xd800) * 0x400 + (low - 0xdc00)

/-- The character of a code unit. Half of a pair that stands alone is no character, so that a text cannot hold
    it as it is: it becomes the replacement character, and what is said of texts is not said of such halves. --/
def unitChar (n : Nat) : Char := if 0xd800 ≤ n && n ≤ 0xdfff then '\ufffd' else Char.ofNat n

/-- The second half of a pair after a first one, with what follows it. A second half needs at least one
    more character behind it. --/
inductive SecondHalf where
  | absent
  | malformed
  | found (unit : Nat) (rest : List Char)

def secondHalf : List Char → SecondHalf
  | '\\' :: 'u' :: a :: b :: c :: d :: e :: rest =>
    match hex4? a b c d with
    | none => .malformed
    | some n => if isLowSurrogate n then .found n (e :: rest) else .absent
  | _ => .absent

/-- The characters of a string whose opening quote stands at `start`, from `offset` on; `done` holds
    the earlier ones in reverse. Every step of fuel consumes a character. --/
def stringBody (start : Nat) : Nat → List Char → Nat → List Char → Except ReadError (String × Cursor)
  | 0, _, _, _ => .error (.refused .unterminated start)
  | _ + 1, [], _, _ => .error (.refused .unterminated start)
  | fuel + 1, c :: cs, offset, done =>
    if c = '\x22' then .ok (String.ofList done.reverse, ⟨cs, offset + 1⟩)
    else if c = '\\' then
      match cs with
      | [] => .error (.refused .unterminated start)
      | 'u' :: a :: b :: x :: d :: e :: rest =>
        match hex4? a b x d with
        | none => .error (.refused .unicodeEscape (offset + 1))
        | some n =>
          if isHighSurrogate n then
            match secondHalf (e :: rest) with
            | .absent => stringBody start fuel (e :: rest) (offset + 6) (unitChar n :: done)
            | .malformed => .error (.refused .unicodeEscape (offset + 7))
            | .found low rest => stringBody start fuel rest (offset + 12) (Char.ofNat (joinSurrogates n low) :: done)
          else stringBody start fuel (e :: rest) (offset + 6) (unitChar n :: done)
      | 'u' :: _ => .error (.refused .unicodeEscape (offset + 1))
      | k :: rest =>
        match simpleEscape? k with
        | none => .error (.refused .escape offset)
        | some r => stringBody start fuel rest (offset + 2) (r :: done)
    else if c.toNat < 0x20 then .error (.refused .control offset)
    else stringBody start fuel cs (offset + 1) (c :: done)

/-- A string whose opening quote is the next character. --/
def readString (c : Cursor) : Except ReadError (String × Cursor) :=
  stringBody c.offset (c.rest.length + 1) (c.rest.drop 1) (c.offset + 1) []

/-! ### Numbers -/

/-- The parts of a number's text. --/
structure NumberText where
  negative : Bool
  whole : List Char
  fraction : List Char
  exponent : Option Int
  length : Nat

def digitValue (c : Char) : Nat := c.toNat - 48

def ofAscii (cs : List Char) : Nat := Text.ofDigits 0 (cs.map digitValue)

/-- A fraction is a point with at least one digit behind it. --/
def fractionDigits : List Char → List Char
  | '.' :: cs => cs.takeWhile Text.isAsciiDigit
  | _ => []

/-- An exponent is a mark, an optional sign and at least one digit; with its length. --/
def exponentPart : List Char → Option Int × Nat
  | c :: cs =>
    if c = 'e' || c = 'E' then
      let (negative, body) := Decimal.signOf cs
      let ds := body.takeWhile Text.isAsciiDigit
      if ds.isEmpty then (none, 0)
      else
        let n : Int := ofAscii ds
        (some (if negative then -n else n), 1 + (cs.length - body.length) + ds.length)
    else (none, 0)
  | [] => (none, 0)

/-- The whole part of a number: a lone zero, or digits that do not begin with zero. --/
def wholeDigits : List Char → List Char
  | '0' :: _ => ['0']
  | cs => cs.takeWhile Text.isAsciiDigit

def numberText? (cs : List Char) : Option NumberText :=
  let (negative, body) := match cs with
    | '-' :: cs => (true, cs)
    | cs => (false, cs)
  let whole := wholeDigits body
  if whole.isEmpty then none
  else
    let afterWhole := body.drop whole.length
    let fraction := fractionDigits afterWhole
    let point := if fraction.isEmpty then 0 else fraction.length + 1
    let (exponent, exponentLength) := exponentPart (afterWhole.drop point)
    some ⟨negative, whole, fraction, exponent,
      (if negative then 1 else 0) + whole.length + point + exponentLength⟩

/-- A number with a fraction or an exponent is a binary one; any other is an integer. --/
def NumberText.value (t : NumberText) : Except ReadError Json :=
  if t.fraction.isEmpty && t.exponent.isNone then
    if Decimal.maxIntegerDigits < t.whole.length then .error (.integerTooLong t.whole.length)
    else
      let n : Int := ofAscii t.whole
      .ok (.int (if t.negative then -n else n))
  else
    .ok (.float (Decimal.scientific t.negative (ofAscii (t.whole ++ t.fraction))
      (t.exponent.getD 0 - t.fraction.length)))

/-! ### Values -/

/-- The words that stand for a value. --/
def words : List (List Char × Json) :=
  [("null".toList, .null), ("true".toList, .bool true), ("false".toList, .bool false),
    ("NaN".toList, .float Binary64.nan), ("Infinity".toList, .float (Binary64.infinity false)),
    ("-Infinity".toList, .float (Binary64.infinity true))]

/-- A word or a number. --/
def readScalar (c : Cursor) : Except ReadError (Json × Cursor) :=
  match words.find? fun w => w.1.isPrefixOf c.rest with
  | some (w, v) => .ok (v, c.drop w.length)
  | none =>
    match numberText? c.rest with
    | none => c.refuse .value
    | some t => do
      let v ← t.value
      .ok (v, c.drop t.length)

mutual
/-- One value, with no space before it. Nesting and neighbours take fuel. --/
def readValue : Nat → Cursor → Except ReadError (Json × Cursor)
  | 0, c => c.refuse .value
  | fuel + 1, c =>
    match c.rest with
    | '\x22' :: _ => do
      let (s, c) ← readString c
      .ok (.string s, c)
    | '[' :: _ =>
      let c := (c.drop 1).skipSpace
      match c.rest with
      | ']' :: _ => .ok (.array [], c.drop 1)
      | _ => do
        let (items, c) ← readItems fuel c
        .ok (.array items, c)
    | '\x7b' :: _ =>
      let c := (c.drop 1).skipSpace
      match c.rest with
      | '\x7d' :: _ => .ok (.object [], c.drop 1)
      | _ => do
        let (members, c) ← readMembers fuel c
        .ok (.object (Assoc.ofList members), c)
    | _ => readScalar c

/-- The items of an array up to its end. --/
def readItems : Nat → Cursor → Except ReadError (List Json × Cursor)
  | 0, c => c.refuse .value
  | fuel + 1, c => do
    let (v, c) ← readValue fuel c
    let c := c.skipSpace
    match c.rest with
    | ']' :: _ => .ok ([v], c.drop 1)
    | ',' :: _ => do
      let (vs, c) ← readItems fuel (c.drop 1).skipSpace
      .ok (v :: vs, c)
    | _ => c.refuse .comma

/-- The members of an object up to its end. --/
def readMembers : Nat → Cursor → Except ReadError (List (String × Json) × Cursor)
  | 0, c => c.refuse .propertyName
  | fuel + 1, c =>
    match c.rest with
    | '\x22' :: _ => do
      let (k, c) ← readString c
      let c := c.skipSpace
      match c.rest with
      | ':' :: _ => do
        let (v, c) ← readValue fuel (c.drop 1).skipSpace
        let c := c.skipSpace
        match c.rest with
        | '\x7d' :: _ => .ok ([(k, v)], c.drop 1)
        | ',' :: _ => do
          let (ms, c) ← readMembers fuel (c.drop 1).skipSpace
          .ok ((k, v) :: ms, c)
        | _ => c.refuse .comma
      | _ => c.refuse .colon
    | _ => c.refuse .propertyName
end

/-- The value of a whole text. --/
def read (text : String) : Except ReadError Json :=
  let cs := text.toList
  let start : Cursor := ⟨cs, 0⟩
  match cs with
  | '\ufeff' :: _ => start.refuse .byteOrderMark
  | _ => do
    let (v, c) ← readValue (2 * cs.length + 2) start.skipSpace
    let c := c.skipSpace
    if c.rest.isEmpty then .ok v else c.refuse .extra

/-- The message of an error, with the place in the text. --/
def ReadError.message (text : String) : ReadError → String
  | .refused why offset =>
    let (line, column) := lineColumn text.toList offset
    let what := why.message
    s!"{what}: line {line} column {column} (char {offset})"
  | .integerTooLong digits => Decimal.tooLongMessage digits

end Json
end TypedImp
