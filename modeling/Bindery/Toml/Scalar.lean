import Bindery.Settings.Loose

/-!
# TOML words

Words without quotes: truth values, numbers, dates and times. Digits may be grouped by single
underscores. A date counts as its text, in the spelling of the standard.
-/

namespace Bindery.Toml

/-- Digits without the underscores that group them; there is one digit at least beside each. -/
def ungroup? (isDigit : Char → Bool) (cs : List Char) : Option (List Char) :=
  let groups := cs.splitOn '_'
  if groups.all fun g => !g.isEmpty && g.all isDigit then some groups.flatten else none

/-- Whether digits start with a zero that they do not need. -/
def hasIdleZero : List Char → Bool
  | '0' :: _ :: _ => true
  | _ => false

def wholeDigits? (cs : List Char) : Option (List Char) :=
  (ungroup? Char.isDigit cs).filter fun digits => !hasIdleZero digits

def digitValue (c : Char) : Nat :=
  if c.isDigit then c.toNat - '0'.toNat
  else if 'a' ≤ c then c.toNat - 'a'.toNat + 10
  else c.toNat - 'A'.toNat + 10

def isDigitOf (base : Nat) (c : Char) : Bool :=
  (c.isDigit || ('a' ≤ c && c ≤ 'f') || ('A' ≤ c && c ≤ 'F')) && digitValue c < base

/-- An integer in a base other than ten. -/
def based? (base : Nat) (cs : List Char) : Option Nat :=
  (ungroup? (isDigitOf base) cs).map fun digits =>
    digits.foldl (fun n c => base * n + digitValue c) 0

/-- An integer that fits 64 bits with sign. -/
def bounded? (n : Int) : Option LooseValue :=
  if fitsSigned 63 n then some (.integer n) else none

def integer? : List Char → Option LooseValue
  | '0' :: 'x' :: rest => (based? 16 rest).bind fun n => bounded? n
  | '0' :: 'o' :: rest => (based? 8 rest).bind fun n => bounded? n
  | '0' :: 'b' :: rest => (based? 2 rest).bind fun n => bounded? n
  | cs =>
    let (isNegative, rest) := Double.takeSign cs
    (wholeDigits? rest).bind fun digits =>
      let n : Int := Double.digitsValue digits
      bounded? (if isNegative then -n else n)

/-- The exponent of a number, if it is well-formed. -/
def exponentDigits? : List Char → Option (List Char)
  | [] => some []
  | e :: rest =>
    if e = 'e' || e = 'E' then
      let (isNegative, digits) := Double.takeSign rest
      (ungroup? Char.isDigit digits).map fun digits =>
        (if isNegative then ['e', '-'] else ['e']) ++ digits
    else none

/-- A number with a point or an exponent. It has to be finite. -/
def decimal? (cs : List Char) : Option LooseValue :=
  let (isNegative, rest) := Double.takeSign cs
  match String.ofList rest with
  | "inf" => some (.decimal (.infinite isNegative))
  | "nan" => some (.decimal .nan)
  | _ => do
    let isNumber (c : Char) : Bool := c.isDigit || c = '_'
    let whole ← wholeDigits? (rest.takeWhile isNumber)
    let rest := rest.dropWhile isNumber
    let (fraction, rest) ← match rest with
      | '.' :: rest =>
        (ungroup? Char.isDigit (rest.takeWhile isNumber)).map fun digits =>
          ('.' :: digits, rest.dropWhile isNumber)
      | rest => some ([], rest)
    let exponent ← exponentDigits? rest
    if fraction.isEmpty && exponent.isEmpty then none
    else
      match Double.ofMagnitude? isNegative (whole ++ fraction ++ exponent) with
      | some (.finite isNegative units) => some (.decimal (.finite isNegative units))
      | _ => none

/-! ## Dates and times -/

def twoDigits? (a b : Char) : Option Nat :=
  if a.isDigit && b.isDigit then some (Double.digitsValue [a, b]) else none

def daysIn (year month : Nat) : Nat :=
  if month = 2 then (if year % 4 = 0 ∧ (year % 100 ≠ 0 ∨ year % 400 = 0) then 29 else 28)
  else if [4, 6, 9, 11].contains month then 30
  else 31

/-- A date at the beginning of a text, and what follows it. -/
def takeDate? : List Char → Option (List Char × List Char)
  | y₁ :: y₂ :: y₃ :: y₄ :: '-' :: m₁ :: m₂ :: '-' :: d₁ :: d₂ :: rest => do
    let century ← twoDigits? y₁ y₂
    let year ← twoDigits? y₃ y₄
    let month ← twoDigits? m₁ m₂
    let day ← twoDigits? d₁ d₂
    if 1 ≤ month ∧ month ≤ 12 ∧ 1 ≤ day ∧ day ≤ daysIn (100 * century + year) month then
      some ([y₁, y₂, y₃, y₄, '-', m₁, m₂, '-', d₁, d₂], rest)
    else none
  | _ => none

/-- The digits behind the point of the seconds, to the billionth. Idle zeros are dropped, but one
digit stays. -/
def takeFraction? : List Char → Option (List Char × List Char)
  | '.' :: rest =>
    let digits := (rest.takeWhile Char.isDigit).take 9
    let kept := (digits.reverse.dropWhile (· = '0')).reverse
    if digits.isEmpty then none
    else some ('.' :: (if kept.isEmpty then ['0'] else kept), rest.dropWhile Char.isDigit)
  | rest => some ([], rest)

/-- The seconds of a time, if there are any. -/
def takeSeconds? : List Char → Option (List Char × List Char)
  | ':' :: s₁ :: s₂ :: rest => do
    let second ← twoDigits? s₁ s₂
    let (fraction, rest) ← takeFraction? rest
    if second ≤ 60 then some (':' :: s₁ :: s₂ :: fraction, rest) else none
  | ':' :: _ => none
  | rest => some ([], rest)

/-- A time at the beginning of a text, and what follows it. -/
def takeTime? : List Char → Option (List Char × List Char)
  | h₁ :: h₂ :: ':' :: m₁ :: m₂ :: rest => do
    let hour ← twoDigits? h₁ h₂
    let minute ← twoDigits? m₁ m₂
    let (seconds, rest) ← takeSeconds? rest
    if hour ≤ 23 ∧ minute ≤ 59 then some ([h₁, h₂, ':', m₁, m₂] ++ seconds, rest) else none
  | _ => none

/-- The distance to universal time, up to the end of a text. -/
def offset? : List Char → Option (List Char)
  | [] => some []
  | ['Z'] => some ['Z']
  | ['z'] => some ['Z']
  | [sign, h₁, h₂, ':', m₁, m₂] => do
    let hour ← twoDigits? h₁ h₂
    let minute ← twoDigits? m₁ m₂
    let shown := if hour = 0 ∧ minute = 0 then '+' else sign
    if (sign = '+' ∨ sign = '-') ∧ hour ≤ 23 ∧ minute ≤ 59 then
      some [shown, h₁, h₂, ':', m₁, m₂]
    else none
  | _ => none

def dateTime? (cs : List Char) : Option LooseValue :=
  let moment : Option (List Char) := match takeDate? cs with
    | none => (takeTime? cs).bind fun (time, rest) => if rest.isEmpty then some time else none
    | some (date, []) => some date
    | some (date, mark :: rest) =>
      if mark = 'T' || mark = 't' || mark = ' ' then
        (takeTime? rest).bind fun (time, rest) =>
          (offset? rest).map fun offset => date ++ 'T' :: time ++ offset
      else none
  moment.map fun cs => .text (String.ofList cs)

def word? (cs : List Char) : Option LooseValue :=
  match String.ofList cs with
  | "true" => some (.bool true)
  | "false" => some (.bool false)
  | _ => (integer? cs).or ((decimal? cs).or (dateTime? cs))

end Bindery.Toml
