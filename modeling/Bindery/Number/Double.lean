import Bindery.Number.Power

/-!
# Numbers in double precision

A finite number in double precision is a multiple of the least positive one, and that multiple is
what is kept here, so that rounding and comparing are done on whole numbers. A decimal is rounded
to the nearest such number; a number is written with the fewest digits that read back to it.
-/

namespace Bindery

/-- A number in double precision. -/
inductive Double where
  | nan
  | infinite (isNegative : Bool)
  /-- A magnitude in units of the least positive number. -/
  | finite (isNegative : Bool) (units : Nat)
  deriving DecidableEq, Repr

namespace Double

/-- One is this power of two times the least positive number. -/
def unitBits : Nat := 1074

/-- The bits of a full significand behind its first one. -/
def fractionBits : Nat := 52

/-- The first magnitude that is infinite, in units. -/
def limit : Nat := powTwo (1024 + unitBits)

/-- The quotient rounded to the nearest whole number, a half to the even one. -/
def roundDiv (num den : Nat) : Nat :=
  let q := num / den
  let twice := 2 * (num % den)
  if twice < den then q
  else if twice = den then q + q % 2
  else q + 1

/-- The power of two by which neighbours of a magnitude are apart, in units. -/
def gapBits (units : Nat) : Nat := units.log2 - fractionBits

def roundUnits (num den : Nat) : Nat :=
  let gap := powTwo (gapBits (num / den))
  roundDiv num (den * gap) * gap

def ofDigits (isNegative : Bool) (digits : Nat) (power : Int) : Double :=
  let units := match power with
    | .ofNat up => roundUnits (digits * powTen up * powTwo unitBits) 1
    | .negSucc down => roundUnits (digits * powTwo unitBits) (powTen (down + 1))
  if units < limit then finite isNegative units else infinite isNegative

def wholeUnits (n : Nat) : Nat := roundUnits (n * powTwo unitBits) 1

def productUnits (a b : Nat) : Nat := roundUnits (a * b) (powTwo unitBits)

def quotientUnits (a b : Nat) : Nat := roundUnits (a * powTwo unitBits) b

def ofInt (n : Int) : Double :=
  let units := wholeUnits n.natAbs
  if units < limit then finite (n < 0) units else infinite (n < 0)

def isZero : Double → Bool
  | finite _ 0 => true
  | _ => false

/-! ## Writing -/

/-- A count of decimal units, and the power of ten that is the unit. -/
structure Digits where
  count : Nat
  power : Int
  deriving DecidableEq, Repr

/-- The decimal unit of a power of ten as a quotient, in quarters of the units of a number. -/
def decimalUnit : Int → Nat × Nat
  | .ofNat up => (powTen up * powTwo (unitBits + 2), 1)
  | .negSucc down => (powTwo (unitBits + 2), powTen (down + 1))

/-- Whether a decimal reads back to a magnitude: it lies no farther away than half the distance
to the neighbours, and at exactly that distance only if the significand is even. -/
def readsBack (units : Nat) (d : Digits) : Bool :=
  let gap := powTwo (gapBits units)
  let isLowest := units = powTwo (gapBits units + fractionBits) && gapBits units ≠ 0
  let low := 4 * units - (if isLowest then gap else 2 * gap)
  let high := 4 * units + 2 * gap
  let (num, den) := decimalUnit d.power
  let value := d.count * num
  if units / gap % 2 = 0 then low * den ≤ value && value ≤ high * den
  else low * den < value && value < high * den

/-- How far a decimal is from a magnitude, on the scale of its unit. -/
def distance (units : Nat) (d : Digits) : Nat :=
  let (num, den) := decimalUnit d.power
  let value := d.count * num
  let exact := 4 * units * den
  (value - exact) + (exact - value)

/-- The better of the two decimals of one unit next to a magnitude, if one reads back. -/
def nearest? (units : Nat) (power : Int) : Option Digits :=
  let (num, den) := decimalUnit power
  let below : Digits := ⟨4 * units * den / num, power⟩
  let above : Digits := { below with count := below.count + 1 }
  match readsBack units below, readsBack units above with
  | true, true => some (if distance units above < distance units below then above else below)
  | true, false => some below
  | false, true => some above
  | false, false => none

/-- The first unit, from a power of ten downwards, that has a decimal which reads back. -/
def searchDigits (units : Nat) : Nat → Int → Digits
  | 0, power => (nearest? units power).getD ⟨0, 0⟩
  | rest + 1, power => (nearest? units power).getD (searchDigits units rest (power - 1))

/-- Moves zeros at the end of the count into the power of ten. -/
def dropZeros : Nat → Digits → Digits
  | 0, d => d
  | bound + 1, d =>
    if d.count ≠ 0 ∧ d.count % 10 = 0 then dropZeros bound ⟨d.count / 10, d.power + 1⟩ else d

/-- More than the count of zeros between the point and the first digit of any number. -/
def placesBound : Nat := 400

/-- The number of digits in front of the point; it is negative for zeros behind the point. -/
def wholeDigits (units : Nat) : Int :=
  let (num, den) := decimalUnit (-placesBound)
  ((toString (4 * units * den / num)).length : Int) - placesBound

/-- The fewest digits that read back; seventeen are always enough. -/
def shortest (units : Nat) : Digits :=
  if units = 0 then ⟨0, 0⟩ else dropZeros 17 (searchDigits units 17 (wholeDigits units - 1))

/-- The digits with a point in its place, and without an exponent. -/
def Digits.text (d : Digits) : String :=
  let digits := (toString d.count).toList
  match d.power with
  | .ofNat up => String.ofList (digits ++ List.replicate up '0')
  | .negSucc down =>
    let places := down + 1
    let padded := List.replicate (places + 1 - digits.length) '0' ++ digits
    let whole := padded.length - places
    String.ofList (padded.take whole ++ '.' :: padded.drop whole)

def text : Double → String
  | nan => "NaN"
  | infinite isNegative => (if isNegative then "-" else "") ++ "inf"
  | finite isNegative units => (if isNegative then "-" else "") ++ (shortest units).text

/-! ## Reading -/

def digitsValue (digits : List Char) : Nat :=
  digits.foldl (fun n c => 10 * n + (c.toNat - '0'.toNat)) 0

def takeSign : List Char → Bool × List Char
  | '-' :: rest => (true, rest)
  | '+' :: rest => (false, rest)
  | cs => (false, cs)

/-- The exponent behind the digits; none stands for zero. -/
def exponent? : List Char → Option Int
  | [] => some 0
  | e :: rest =>
    if e = 'e' || e = 'E' then
      let (isNegative, digits) := takeSign rest
      if digits.isEmpty || !digits.all Char.isDigit then none
      else
        let size : Int := digitsValue digits
        some (if isNegative then -size else size)
    else none

def ofMagnitude? (isNegative : Bool) (cs : List Char) : Option Double :=
  let whole := cs.takeWhile Char.isDigit
  let rest := cs.dropWhile Char.isDigit
  let (fraction, rest) := match rest with
    | '.' :: rest => (rest.takeWhile Char.isDigit, rest.dropWhile Char.isDigit)
    | rest => ([], rest)
  if whole.isEmpty && fraction.isEmpty then none
  else
    (exponent? rest).map fun (power : Int) =>
      let digits := digitsValue (whole ++ fraction)
      let power := power - fraction.length
      if digits = 0 || power + (toString digits).length < -(placesBound : Int) then
        finite isNegative 0
      else if (placesBound : Int) < power + (toString digits).length then infinite isNegative
      else ofDigits isNegative digits power

def parse? (cs : List Char) : Option Double :=
  let (isNegative, rest) := takeSign cs
  ofMagnitude? isNegative rest

end Double

end Bindery
