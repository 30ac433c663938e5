import SymmetricCipher.Bytes.Basic
import SymmetricCipher.Text.Blank
import SymmetricCipher.Text.Quoted

/-!
# Hexadecimal text

Bytes as pairs of hexadecimal digits. Written text has lower-case digits and a space between two
bytes. Read text may have digits of either case and blanks anywhere; what is left without the blanks
is looked at as bytes of UTF-8, and the first byte that is no digit is to blame.
-/

namespace SymmetricCipher

/-- Why text does not spell bytes. -/
inductive HexError where
  /-- The text without its blanks has an odd number of bytes. -/
  | oddLength
  /-- A byte is no hexadecimal digit; the position counts bytes of the text without its blanks. -/
  | invalidDigit (byte : UInt8) (position : Nat)
  deriving DecidableEq, Repr

/-- The wording of an error. A byte is shown as the character of the same code. -/
def HexError.message : HexError → String
  | oddLength => "Odd number of digits"
  | invalidDigit byte position =>
    "Invalid character " ++ Quoted.quote Quoted.single [Char.ofNat byte.toNat] ++ " at position "
      ++ Nat.repr position

namespace Hex

/-- The digit for a value below sixteen. -/
def digit (value : UInt8) : Char :=
  Char.ofNat (if value < 10 then 48 + value.toNat else 87 + value.toNat)

/-- The value of a digit, given as its byte of ASCII. -/
def value? (byte : UInt8) : Option UInt8 :=
  if 48 ≤ byte ∧ byte ≤ 57 then some (byte - 48)
  else if 97 ≤ byte ∧ byte ≤ 102 then some (byte - 87)
  else if 65 ≤ byte ∧ byte ≤ 70 then some (byte - 55)
  else none

/-- The two digits of a byte, the high one first. -/
def digits (byte : UInt8) : List Char := [digit (byte / 16), digit (byte % 16)]

/-- Writes bytes, with a space between two of them. -/
def encode (data : Bytes) : String := String.ofList (List.intercalate [' '] (data.map digits))

/-- The bytes of the text in UTF-8, without the blanks. -/
def significantBytes (text : String) : List UInt8 :=
  (text.toList.filter (!isBlank ·)).flatMap String.utf8EncodeChar

/-- Reads pairs of digits, of which the first stands at the given position. -/
def decodePairs (position : Nat) : List UInt8 → Except HexError Bytes
  | [] => .ok []
  | [_] => .error .oddLength
  | high :: low :: rest =>
    match value? high, value? low with
    | none, _ => .error (.invalidDigit high position)
    | some _, none => .error (.invalidDigit low (position + 1))
    | some high, some low =>
      match decodePairs (position + 2) rest with
      | .error e => .error e
      | .ok data => .ok ((high * 16 + low) :: data)

/-- Reads bytes. -/
def decode (text : String) : Except HexError Bytes :=
  let bytes := significantBytes text
  if bytes.length % 2 = 1 then .error .oddLength else decodePairs 0 bytes

end Hex

end SymmetricCipher
