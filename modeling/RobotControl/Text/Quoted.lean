import RobotControl.Text.Printable
import RobotControl.Value

/-!
# Texts quoted for a reader

A text between double quotes in which nothing can be mistaken: the quote and the backslash are
escaped, the usual controls have their short forms, and every other hidden character is written by
its number.
-/
set_option autoImplicit false

namespace RobotControl.Text

def hexText (n : Nat) : List Char :=
  let rec digits : Nat → Nat → List Char
    | 0, _ => []
    | fuel + 1, n =>
        if n < 16 then [Value.hexDigit n] else digits fuel (n / 16) ++ [Value.hexDigit n]
  digits 8 n

def quotedChar (c : Char) : List Char :=
  if c = '\x00' then ['\\', '0']
  else if c = '\t' then ['\\', 't']
  else if c = '\r' then ['\\', 'r']
  else if c = '\n' then ['\\', 'n']
  else if c = '"' then ['\\', '"']
  else if c = '\\' then ['\\', '\\']
  else if isHidden c then ['\\', 'u', '\x7b'] ++ hexText c.toNat ++ ['\x7d']
  else [c]

def quoted (s : String) : String := "\"" ++ String.ofList (s.toList.flatMap quotedChar) ++ "\""

end RobotControl.Text
