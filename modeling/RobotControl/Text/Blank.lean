/-!
# White space

The characters of the white-space property, and trimming them from both ends of a text.
-/
set_option autoImplicit false

namespace RobotControl.Text

/-- The closed ranges of white-space code points, ascending. -/
def blankRanges : List (Nat × Nat) :=
  [(9, 13), (32, 32), (133, 133), (160, 160), (5760, 5760), (8192, 8202), (8232, 8233),
   (8239, 8239), (8287, 8287), (12288, 12288)]

def isBlank (c : Char) : Bool := blankRanges.any fun r => r.1 ≤ c.toNat && c.toNat ≤ r.2

def trimmed (cs : List Char) : List Char :=
  ((cs.dropWhile isBlank).reverse.dropWhile isBlank).reverse

def trim (s : String) : String := String.ofList (trimmed s.toList)

def lowerAscii (s : String) : String := String.ofList (s.toList.map Char.toLower)

end RobotControl.Text
