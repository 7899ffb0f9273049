import ThreeAddress.Text.Invisible
import ThreeAddress.Text.Joining

/-!
Quoted text. A character that would not show, that would end the text early or that would join the
one before it is written as an escape.
-/

set_option autoImplicit false

namespace ThreeAddress.Quoted

def hidden (char : Char) : Bool := CodeSet.invisible.contains char || CodeSet.joining.contains char

def hexDigits (n : Nat) : String := String.ofList (Nat.toDigits 16 n)

def escape (c : Char) : String :=
  if c = '"' then "\\\""
  else if c = '\\' then "\\\\"
  else if c = '\n' then "\\n"
  else if c = '\t' then "\\t"
  else if c = '\r' then "\\r"
  else if c.toNat = 0 then "\\0"
  else if hidden c then "\\u\x7b" ++ hexDigits c.toNat ++ "\x7d"
  else c.toString

def encode (text : String) : String := "\"" ++ String.join (text.toList.map escape) ++ "\""

end ThreeAddress.Quoted
