/-
  DequeMachine/Text/Quoted.lean
  =============================
  **Texts between quotation marks.**

  A quoted text stands on one line and shows each of its characters.  Quotation
  marks, backslashes, and the four characters that end a text, a field or a line
  are written as a backslash and a letter; other characters that are not
  printable are written by code point, in hexadecimal and between braces.
-/
import DequeMachine.Text.Printable

namespace DequeMachine.Text

/-- The letter that is written behind a backslash for a character that has one. -/
def escapeLetter? (c : Char) : Option Char :=
  if c = '\x00' then some '0'
  else if c = '\t' then some 't'
  else if c = '\n' then some 'n'
  else if c = '\r' then some 'r'
  else if c = '"' then some '"'
  else if c = '\\' then some '\\'
  else none

def codePoint (c : Char) : List Char :=
  '\\' :: 'u' :: '\x7b' :: (Nat.toDigits 16 c.toNat ++ ['\x7d'])

/-- A character inside a quoted text. -/
def quoteChar (c : Char) : List Char :=
  match escapeLetter? c with
  | some letter => ['\\', letter]
  | none => if isPrintable c then [c] else codePoint c

def quote (text : String) : String :=
  String.ofList ('"' :: (text.toList.flatMap quoteChar ++ ['"']))

end DequeMachine.Text
