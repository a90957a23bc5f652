import TypedImp.Text.Quoted

/-! Decoding UTF-8, one octet after the other. What is refused is a stretch of octets that no character
    begins with: the octets of one character up to the first that rules it out. -/

namespace TypedImp
namespace Text
namespace Utf8

inductive Reason where
  | badStart
  | badContinuation
  | endOfData
  deriving DecidableEq, Inhabited, Repr

def Reason.text : Reason → String
  | badStart => "invalid start byte"
  | badContinuation => "invalid continuation byte"
  | endOfData => "unexpected end of data"

/-- The stretch that is refused: its first octet, where it begins, and how long it is. --/
structure Error where
  octet : Nat
  offset : Nat
  length : Nat
  reason : Reason
  deriving DecidableEq, Inhabited, Repr

def Error.message (e : Error) : String :=
  let place :=
    if e.length = 1 then
      "byte 0x" ++ String.ofList (hexDigits 2 e.octet) ++ " in position " ++ toString e.offset
    else
      "bytes in position " ++ toString e.offset ++ "-" ++ toString (e.offset + e.length - 1)
  "'utf-8' codec can't decode " ++ place ++ ": " ++ e.reason.text

/-- A character that is not complete: its first octet, how many octets are read, the bits so far, how
    many octets are owed, and between which bounds the next one lies. --/
structure Partial where
  octet : Nat
  length : Nat
  bits : Nat
  owed : Nat
  low : Nat
  high : Nat

/-- What the first octet of a character of several octets says. --/
def lead? (b : Nat) : Option Partial :=
  if 0xc2 ≤ b ∧ b ≤ 0xdf then some ⟨b, 1, b % 0x20, 1, 0x80, 0xbf⟩
  else if 0xe0 ≤ b ∧ b ≤ 0xef then
    let low := if b = 0xe0 then 0xa0 else 0x80
    let high := if b = 0xed then 0x9f else 0xbf
    some ⟨b, 1, b % 0x10, 2, low, high⟩
  else if 0xf0 ≤ b ∧ b ≤ 0xf4 then
    let low := if b = 0xf0 then 0x90 else 0x80
    let high := if b = 0xf4 then 0x8f else 0xbf
    some ⟨b, 1, b % 0x08, 3, low, high⟩
  else none

/-- The characters that the octets encode, behind those that are decoded already, the latest first. --/
def decodeFrom : Option Partial → Nat → List Char → List Nat → Except Error (List Char)
  | none, _, done, [] => .ok done.reverse
  | some p, offset, _, [] => .error ⟨p.octet, offset - p.length, p.length, .endOfData⟩
  | none, offset, done, b :: bs =>
    if b < 0x80 then decodeFrom none (offset + 1) (Char.ofNat b :: done) bs
    else
      match lead? b with
      | none => .error ⟨b, offset, 1, .badStart⟩
      | some p => decodeFrom (some p) (offset + 1) done bs
  | some p, offset, done, b :: bs =>
    if b < p.low ∨ p.high < b then .error ⟨p.octet, offset - p.length, p.length, .badContinuation⟩
    else
      let bits := p.bits * 0x40 + b % 0x40
      if p.owed ≤ 1 then decodeFrom none (offset + 1) (Char.ofNat bits :: done) bs
      else
        let p : Partial := ⟨p.octet, p.length + 1, bits, p.owed - 1, 0x80, 0xbf⟩
        decodeFrom (some p) (offset + 1) done bs

def decode (octets : List Nat) : Except Error String :=
  (decodeFrom none 0 [] octets).map String.ofList

end Utf8
end Text
end TypedImp
