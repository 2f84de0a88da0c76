import EventConditions.Text.Extending
import EventConditions.Text.Printable

/-!
# Quoted text

A text is written between double quotes. The quote, the backslash and four control characters have
an escape of two characters; any other character that does not print, or that would attach to the
one before it, is written as its code point in hexadecimal digits between braces; all others stand
for themselves. Nothing is left unescaped that could end the text early, so what is written can be
read back.
-/

namespace EventConditions.Text

namespace Quoted

/-- The letter that follows the backslash, for the characters that have one. -/
def escapeLetter? : Char → Option Char
  | '"' => some '"'
  | '\\' => some '\\'
  | '\t' => some 't'
  | '\r' => some 'r'
  | '\n' => some 'n'
  | '\x00' => some '0'
  | _ => none

/-- The written form of one character. -/
def encodeChar (c : Char) : List Char :=
  match escapeLetter? c with
  | some letter => ['\\', letter]
  | none =>
    if isExtending c || !isPrintable c then
      '\\' :: 'u' :: '\x7b' :: (Nat.toDigits 16 c.toNat ++ ['\x7d'])
    else [c]

/-- The written form of a text, without the quotes around it. -/
def encode (cs : List Char) : List Char :=
  cs.flatMap encodeChar

end Quoted

/-- The text between double quotes. -/
def quote (s : String) : String :=
  String.ofList ('"' :: (Quoted.encode s.toList ++ ['"']))

end EventConditions.Text
