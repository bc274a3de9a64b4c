import Bindery.Text.Ranges

/-!
# White space

The Unicode property White_Space, and trimming by it.
-/

namespace Bindery.Text

def blankRanges : Ranges :=
  [(9, 13), (32, 32), (133, 133), (160, 160), (5760, 5760), (8192, 8202), (8232, 8233),
   (8239, 8239), (8287, 8287), (12288, 12288)]

/-- White space in the sense of Unicode: wider than ASCII blanks, narrower than invisibility. -/
def isBlank (c : Char) : Bool := blankRanges.holds c

def trimChars (cs : List Char) : List Char :=
  ((cs.dropWhile isBlank).reverse.dropWhile isBlank).reverse

def trim (s : String) : String := String.ofList (trimChars s.toList)

end Bindery.Text
