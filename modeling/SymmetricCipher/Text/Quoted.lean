import SymmetricCipher.Text.Extending
import SymmetricCipher.Text.Ignorable
import SymmetricCipher.Text.Nongraphic

/-!
# Quoted text

Text as it is shown between quotation marks, so that every character can be told from its
neighbours: the mark itself, the backslash and what cannot be seen are written as escapes.
-/

namespace SymmetricCipher.Quoted

/-- The code of a character, in as few hexadecimal digits as it takes. -/
def hexCode (c : Char) : List Char := Nat.toDigits 16 c.toNat

/-- The two halfwidth sound marks, which extend the character before them but take up a place of
their own. -/
def isSoundMark (c : Char) : Bool := c == '\uff9e' || c == '\uff9f'

/-- Whether a character is not seen by itself: it has no graphic form, and is no space either; it is
shown as nothing; or it joins the character before it. -/
def isHidden (c : Char) : Bool :=
  (isNongraphic c && c != ' ') || isIgnorable c || (isExtending c && !isSoundMark c)

/-- A character as it stands between quotation marks of the given kind. -/
def escape (mark c : Char) : List Char :=
  if c = '\x00' then ['\\', '0']
  else if c = '\t' then ['\\', 't']
  else if c = '\n' then ['\\', 'n']
  else if c = '\r' then ['\\', 'r']
  else if c = mark ∨ c = '\\' then ['\\', c]
  else if isHidden c then ['\\', 'u', '\x7b'] ++ hexCode c ++ ['\x7d']
  else [c]

/-- Text between quotation marks of the given kind. -/
def quote (mark : Char) (text : List Char) : String :=
  String.ofList (mark :: text.flatMap (escape mark) ++ [mark])

/-- The double quotation mark, for text. -/
def double : Char := '\x22'

/-- The single quotation mark, for a single character. -/
def single : Char := '\x27'

end SymmetricCipher.Quoted
