import Bindery.Number.Double

/-!
# Magnitudes of JSON numbers

The digits of a number are collected in a word of 64 bits. Once the next digit does not fit, the
digits before the point only count for the size of the number, and those behind it not at all.
The word is then scaled by a power of ten from a table that ends with the last finite one, and
every step rounds. The result may miss the nearest number by a little; a number has no magnitude
if a step leaves the finite ones.
-/

namespace Bindery.Json

def collectorBits : Nat := 64

/-- The exponent of the largest finite power of ten. -/
def lastPower : Nat := 308

/-- Adds digits to a word as long as they fit. Also gives the digits that are left over. -/
def collect (word : Nat) : List Char → Nat × List Char
  | [] => (word, [])
  | c :: rest =>
    let next := 10 * word + (c.toNat - '0'.toNat)
    if fitsWord collectorBits next then collect next rest else (word, c :: rest)

def powerUnits (n : Nat) : Nat := Double.wholeUnits (powTen n)

/-- Divides a magnitude by the largest finite power of ten, some number of times. -/
def lower (units : Nat) : Nat → Nat
  | 0 => units
  | steps + 1 =>
    if units = 0 then 0 else lower (Double.quotientUnits units (powerUnits lastPower)) steps

/-- A magnitude times a power of ten. There is none if it is not finite. -/
def scale? (units : Nat) : Int → Option Nat
  | .ofNat up =>
    if units = 0 then some 0
    else if lastPower < up then none
    else
      let scaled := Double.productUnits units (powerUnits up)
      if scaled < Double.limit then some scaled else none
  | .negSucc down =>
    let steps := down / lastPower
    some (Double.quotientUnits (lower units steps) (powerUnits (down + 1 - lastPower * steps)))

/-- The magnitude of digits with an optional point and an optional exponent. -/
def magnitude? (cs : List Char) : Option Nat :=
  let (fraction, behind) := match cs.dropWhile Char.isDigit with
    | '.' :: rest => (rest.takeWhile Char.isDigit, rest.dropWhile Char.isDigit)
    | rest => ([], rest)
  let (word, skipped) := collect 0 (cs.takeWhile Char.isDigit)
  let (word, ignored) := collect word fraction
  (Double.exponent? behind).bind fun power =>
    scale? (Double.wholeUnits word) (power + skipped.length + ignored.length - fraction.length)

/-- The number that a spelling stands for, if its magnitude is finite. -/
def double? : List Char → Option Double
  | '-' :: rest => (magnitude? rest).map (.finite true)
  | cs => (magnitude? cs).map (.finite false)

end Bindery.Json
