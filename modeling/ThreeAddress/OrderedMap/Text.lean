import ThreeAddress.OrderedMap.Basic

/-!
The written form of a map: its entries between braces, on one line or one to a line.
-/

set_option autoImplicit false

namespace ThreeAddress.OrderedMap

variable {κ ν : Type}

def entryText (key : κ → String) (value : ν → String) (entry : κ × ν) : String :=
  key entry.1 ++ ": " ++ value entry.2

def text (key : κ → String) (value : ν → String) (map : OrderedMap κ ν) : String :=
  "\x7b" ++ ", ".intercalate (map.toList.map (entryText key value)) ++ "\x7d"

def tall (key : κ → String) (value : ν → String) (map : OrderedMap κ ν) : String :=
  if map.toList.isEmpty then "\x7b\x7d"
  else
    let line := fun entry => "    " ++ entryText key value entry ++ ",\n"
    "\x7b\n" ++ String.join (map.toList.map line) ++ "\x7d"

end ThreeAddress.OrderedMap
