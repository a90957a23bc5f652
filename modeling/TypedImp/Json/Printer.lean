import TypedImp.Json.Basic
import TypedImp.Decimal.Layout
import TypedImp.Text.Quoted

/-! Interchange values as text: on one line, over several lines, and as messages show them. -/

namespace TypedImp
namespace Json

/-- One character of a string: quote, backslash and control characters are escaped. --/
def escapeChar (c : Char) : List Char :=
  if c = '\x22' then ['\\', '\x22']
  else if c = '\\' then ['\\', '\\']
  else if c = '\n' then ['\\', 'n']
  else if c = '\r' then ['\\', 'r']
  else if c = '\t' then ['\\', 't']
  else if c = '\x08' then ['\\', 'b']
  else if c = '\x0c' then ['\\', 'f']
  else if c.toNat < 0x20 then '\\' :: 'u' :: Text.hexDigits 4 c.toNat
  else [c]

def stringText (s : String) : String :=
  String.ofList ('\x22' :: s.toList.flatMap escapeChar ++ ['\x22'])

/-- The text of a value without parts. --/
def scalarText : Json → String
  | null => "null"
  | bool b => if b then "true" else "false"
  | int n => toString n
  | float x => Decimal.interchanged.text x
  | string s => stringText s
  | array _ => "[]"
  | object _ => "\x7b\x7d"

/-! ### On one line -/

mutual
def compact : Json → String
  | array items => "[" ++ ", ".intercalate (compactItems items) ++ "]"
  | object members => "\x7b" ++ ", ".intercalate (compactMembers members) ++ "\x7d"
  | v => scalarText v

def compactItems : List Json → List String
  | [] => []
  | v :: vs => compact v :: compactItems vs

def compactMembers : List (String × Json) → List String
  | [] => []
  | (k, v) :: ms => (stringText k ++ ": " ++ compact v) :: compactMembers ms
end

/-! ### Over several lines -/

def indentation (depth : Nat) : String := "\n" ++ String.ofList (List.replicate (2 * depth) ' ')

/-- The parts of a value, each on a line of its own, two spaces deeper than the value. --/
def spread (opening closing : String) (depth : Nat) : List String → String
  | [] => opening ++ closing
  | parts =>
    opening ++ indentation (depth + 1) ++ ("," ++ indentation (depth + 1)).intercalate parts ++
      indentation depth ++ closing

mutual
def indented (depth : Nat) : Json → String
  | array items => spread "[" "]" depth (indentedItems (depth + 1) items)
  | object members => spread "\x7b" "\x7d" depth (indentedMembers (depth + 1) members)
  | v => scalarText v

def indentedItems (depth : Nat) : List Json → List String
  | [] => []
  | v :: vs => indented depth v :: indentedItems depth vs

def indentedMembers (depth : Nat) : List (String × Json) → List String
  | [] => []
  | (k, v) :: ms => (stringText k ++ ": " ++ indented depth v) :: indentedMembers depth ms
end

/-! ### In messages -/

mutual
/-- A value in a message. It comes from a text that the reader admits, so that no integer in it has more digits
    than can be shown. --/
def shown : Json → String
  | null => "None"
  | bool b => if b then "True" else "False"
  | int n => toString n
  | float x => Decimal.printed.text x
  | string s => Text.quoted s
  | array items => "[" ++ ", ".intercalate (shownItems items) ++ "]"
  | object members => "\x7b" ++ ", ".intercalate (shownMembers members) ++ "\x7d"

def shownItems : List Json → List String
  | [] => []
  | v :: vs => shown v :: shownItems vs

def shownMembers : List (String × Json) → List String
  | [] => []
  | (k, v) :: ms => (Text.quoted k ++ ": " ++ shown v) :: shownMembers ms
end

/-- A string stands for itself; all else is shown. --/
def asText : Json → String
  | string s => s
  | v => shown v

end Json
end TypedImp
