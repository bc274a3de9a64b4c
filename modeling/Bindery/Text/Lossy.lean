/-!
# Bytes as text

Bytes that are no text are still shown as one: every longest piece that starts like a character
but is none counts as one replacement character.
-/

namespace Bindery.Text

/-- What stands for bytes that are no character. -/
def replacement : Char := '\ufffd'

/-- How many bytes follow a first byte, and between which bounds the next one has to lie. -/
def follow? (first : Nat) : Option (Nat × Nat × Nat) :=
  if 0xC2 ≤ first ∧ first ≤ 0xDF then some (1, 0x80, 0xBF)
  else if first = 0xE0 then some (2, 0xA0, 0xBF)
  else if first = 0xED then some (2, 0x80, 0x9F)
  else if 0xE1 ≤ first ∧ first ≤ 0xEF then some (2, 0x80, 0xBF)
  else if first = 0xF0 then some (3, 0x90, 0xBF)
  else if 0xF1 ≤ first ∧ first ≤ 0xF3 then some (3, 0x80, 0xBF)
  else if first = 0xF4 then some (3, 0x80, 0x8F)
  else none

/-- The bits that a first byte gives to its character. -/
def leadBits (first : Nat) : Nat :=
  if first < 0xE0 then first - 0xC0 else if first < 0xF0 then first - 0xE0 else first - 0xF0

/-- A character of which some bytes were read. -/
structure Partial where
  bits : Nat
  left : Nat
  low : Nat
  high : Nat

/-- What a byte shows that starts afresh, and the character that it leaves open. -/
def fresh (b : Nat) : List Char × Option Partial :=
  if b < 0x80 then ([Char.ofNat b], none)
  else
    match follow? b with
    | some (left, low, high) => ([], some ⟨leadBits b, left, low, high⟩)
    | none => ([replacement], none)

/-- What a byte shows behind an open character. -/
def Partial.step (p : Partial) (b : Nat) : List Char × Option Partial :=
  if p.low ≤ b ∧ b ≤ p.high then
    let bits := p.bits * 64 + (b - 0x80)
    if p.left = 1 then ([Char.ofNat bits], none) else ([], some ⟨bits, p.left - 1, 0x80, 0xBF⟩)
  else
    let (shown, next) := fresh b
    (replacement :: shown, next)

def lossyChars : Option Partial → List UInt8 → List Char
  | none, [] => []
  | some _, [] => [replacement]
  | current, byte :: rest =>
    let (shown, next) := match current with
      | none => fresh byte.toNat
      | some p => p.step byte.toNat
    shown ++ lossyChars next rest

def lossy (bytes : List UInt8) : String := String.ofList (lossyChars none bytes)

end Bindery.Text
