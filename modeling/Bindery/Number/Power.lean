/-!
# Powers and words

Powers of the two bases in which numbers are stored and written, and the integers that fit a word
of some bits.
-/

namespace Bindery

def powTwo (n : Nat) : Nat := Nat.pow 2 n

def powTen (n : Nat) : Nat := Nat.pow 10 n

def fitsWord (bits n : Nat) : Bool := n < powTwo bits

/-- Whether an integer fits a word that keeps its sign beside the given number of bits. -/
def fitsSigned (bits : Nat) (n : Int) : Bool :=
  -(powTwo bits : Int) ≤ n && n < (powTwo bits : Int)

end Bindery
