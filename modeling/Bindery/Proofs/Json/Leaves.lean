import Bindery.Json.Reader
import Mathlib.Data.List.TakeWhile

/-! # Leaves of JSON text

Integers and texts, as they are written, are read back as what they were. A number is read as far as
it goes, so what stands behind it has to end it; a text ends with its own quote.
-/

namespace Bindery.Json

/-! ## Integers -/

/-- Nothing follows, or a character with which no number goes on. -/
def EndsNumber (rest : List Char) : Prop :=
  ∀ c ∈ rest.head?, c.isDigit = false ∧ c ≠ '.' ∧ c ≠ 'e' ∧ c ≠ 'E'

theorem scanDigits_append {digits rest : List Char} (hSome : digits ≠ [])
    (hDigits : ∀ c ∈ digits, c.isDigit = true) (hRest : EndsNumber rest) :
    scanDigits (digits ++ rest) = some (digits, rest) := by
  have hTake : rest.takeWhile Char.isDigit = [] ∧ rest.dropWhile Char.isDigit = rest := by
    cases rest with
    | nil => simp
    | cons c rest =>
      have hEnd : c.isDigit = false := (hRest c rfl).1
      simp [hEnd]
  unfold scanDigits
  rw [List.takeWhile_append_of_pos hDigits, List.dropWhile_append_of_pos hDigits, hTake.1, hTake.2,
    List.append_nil]
  cases digits with
  | nil => exact absurd rfl hSome
  | cons c digits => rfl

theorem isDigit_of_mem_decimal {n : Nat} {c : Char} (h : c ∈ Nat.toDigits 10 n) :
    c.isDigit = true :=
  Nat.isDigit_of_mem_toDigits (by decide) (by decide) h

/-- A positive number has no zero in front. -/
theorem head_toDigits {n : Nat} (h : 0 < n) :
    ∃ c rest, Nat.toDigits 10 n = c :: rest ∧ c ≠ '0' := by
  induction n using Nat.strongRecOn with
  | ind n ih =>
    rw [Nat.toDigits_eq_if (by decide)]
    split
    · next hSmall =>
      refine ⟨_, [], rfl, ?_⟩
      have hAll : ∀ d < 10, 0 < d → Nat.digitChar d ≠ '0' := by decide
      exact hAll n hSmall h
    · next hLarge =>
      obtain ⟨c, rest, hDigits, hFirst⟩ := ih (n / 10) (by omega) (by omega)
      exact ⟨c, rest ++ [Nat.digitChar (n % 10)], by rw [hDigits]; rfl, hFirst⟩

theorem scanWhole_toDigits (n : Nat) {rest : List Char} (hRest : EndsNumber rest) :
    scanWhole (Nat.toDigits 10 n ++ rest) = some (Nat.toDigits 10 n, rest) := by
  have hScan : scanDigits (Nat.toDigits 10 n ++ rest) = some (Nat.toDigits 10 n, rest) :=
    scanDigits_append Nat.toDigits_ne_nil (fun c hc => isDigit_of_mem_decimal hc) hRest
  rcases Nat.eq_zero_or_pos n with rfl | hPositive
  · rw [Nat.toDigits_zero] at hScan ⊢
    cases rest with
    | nil => exact hScan
    | cons c rest =>
      have hEnd : c.isDigit = false := (hRest c rfl).1
      simp [scanWhole, hEnd]
  · obtain ⟨c, digits, hDigits, hFirst⟩ := head_toDigits hPositive
    rw [hDigits] at hScan ⊢
    unfold scanWhole
    split
    · next hZero =>
      simp only [List.cons_append, List.cons.injEq] at hZero
      exact absurd hZero.1 hFirst
    · exact hScan

theorem scanMagnitude_toDigits (n : Nat) {rest : List Char} (hRest : EndsNumber rest) :
    scanMagnitude (Nat.toDigits 10 n ++ rest) = some (Nat.toDigits 10 n, rest) := by
  have hFraction : scanFraction rest = some ([], rest) := by
    unfold scanFraction
    split
    · exact absurd rfl (hRest '.' rfl).2.1
    · rfl
  have hExponent : scanExponent rest = some ([], rest) := by
    cases rest with
    | nil => rfl
    | cons c rest =>
      obtain ⟨_, _, hSmall, hLarge⟩ := hRest c rfl
      simp [scanExponent, hSmall, hLarge]
  simp [scanMagnitude, scanWhole_toDigits n hRest, hFraction, hExponent]

theorem toList_toString_ofNat (n : Nat) : (toString (Int.ofNat n)).toList = Nat.toDigits 10 n :=
  Nat.toList_repr

theorem toList_toString_negSucc (n : Nat) :
    (toString (Int.negSucc n)).toList = '-' :: Nat.toDigits 10 (n + 1) := by
  change ("-" ++ Nat.repr (n + 1)).toList = _
  rw [String.toList_append, Nat.toList_repr]
  rfl

theorem ne_minus_of_mem_toDigits {n : Nat} {c : Char} (h : c ∈ Nat.toDigits 10 n) : c ≠ '-' := by
  rintro rfl
  have hDigit := isDigit_of_mem_decimal h
  revert hDigit
  decide

/-- A written integer is read to its end. -/
theorem scanNumber_toString (n : Int) {rest : List Char} (hRest : EndsNumber rest) :
    scanNumber ((toString n).toList ++ rest) = some ((toString n).toList, rest) := by
  cases n with
  | ofNat n =>
    rw [toList_toString_ofNat]
    unfold scanNumber
    split
    · next hMinus =>
      cases hDigits : Nat.toDigits 10 n with
      | nil => exact absurd hDigits Nat.toDigits_ne_nil
      | cons c digits =>
        rw [hDigits] at hMinus
        have hFirst : c = '-' := (List.cons.inj hMinus).1
        exact absurd hFirst (ne_minus_of_mem_toDigits (hDigits ▸ List.mem_cons_self))
    · exact scanMagnitude_toDigits n hRest
  | negSucc n =>
    rw [toList_toString_negSucc, List.cons_append]
    simp [scanNumber, scanMagnitude_toDigits (n + 1) hRest]

theorem digitsValue_toDigits (n : Nat) : Double.digitsValue (Nat.toDigits 10 n) = n := by
  unfold Double.digitsValue
  rw [← Nat.ofDigitChars_eq_foldl]
  exact Nat.ofDigitChars_ten_toDigits

theorem fitsSigned_iff {n : Int} : fitsSigned 63 n = true ↔
    -9223372036854775808 ≤ n ∧ n < 9223372036854775808 := by
  have hPower : powTwo 63 = 9223372036854775808 := by decide
  simp only [fitsSigned, hPower, Bool.and_eq_true, decide_eq_true_eq]
  omega

theorem fitsWord_iff {n : Nat} : fitsWord 64 n = true ↔ n < 18446744073709551616 := by
  have hPower : powTwo 64 = 18446744073709551616 := by decide
  simp only [fitsWord, hPower, decide_eq_true_eq]

/-- The spelling of an integer of 64 bits with sign stands for it. -/
theorem integer?_toString {n : Int} (h : fitsSigned 63 n = true) :
    Draft.integer? (toString n).toList = some n := by
  have hAll (m : Nat) : (Nat.toDigits 10 m).all Char.isDigit = true :=
    List.all_eq_true.mpr fun c hc => isDigit_of_mem_decimal hc
  have hBounds := fitsSigned_iff.mp h
  cases n with
  | ofNat n =>
    have hFits : fitsWord 64 n = true := by
      rw [Int.ofNat_eq_natCast] at hBounds
      rw [fitsWord_iff]
      omega
    rw [toList_toString_ofNat]
    unfold Draft.integer?
    split
    · next hMinus => exact absurd rfl (ne_minus_of_mem_toDigits (hMinus ▸ List.mem_cons_self))
    · simp [hAll, digitsValue_toDigits, hFits]
  | negSucc n =>
    have hFits : fitsSigned 63 (-((n + 1 : Nat) : Int)) = true := by
      rw [fitsSigned_iff]
      omega
    rw [toList_toString_negSucc]
    simp only [Draft.integer?, hAll, digitsValue_toDigits, hFits]
    simp
    omega

/-! ## Texts -/

theorem hexValue_hexDigit (n : Nat) : hexValue (hexDigit n) = some (n % 16) := by
  have hAll : ∀ d < 16, hexValue (Nat.digitChar d) = some d := by decide
  exact hAll (n % 16) (Nat.mod_lt n (by decide))

/-- The piece that a written character is read as. -/
def pieceOf (c : Char) : Piece :=
  if c.toNat < 32 ∧ c ∉ ['\n', '\r', '\t', '\x08', '\x0c'] then .unit c.toNat else .char c

theorem scanPieces_escapeChar (c : Char) (rest : List Char) :
    scanPieces (escapeChar c ++ rest) =
      (scanPieces rest).map fun (pieces, rest) => (pieceOf c :: pieces, rest) := by
  unfold escapeChar
  -- the characters with an escape of two characters
  iterate 7
    split
    · subst c
      rfl
  split
  · next hQuote hSlash hLine hReturn hTab hBack hFeed hControl =>
    have hUnit : unit? '0' '0' (hexDigit (c.toNat / 16)) (hexDigit c.toNat) = some c.toNat := by
      simp only [unit?, hexValue_hexDigit, show hexValue '0' = some 0 by decide]
      simp only [Option.some.injEq]
      omega
    simp [scanPieces, hUnit, pieceOf, hControl, hLine, hReturn, hTab, hBack, hFeed]
  · next hQuote hSlash hLine hReturn hTab hBack hFeed hControl =>
    have hPiece : pieceOf c = .char c := by simp [pieceOf, hControl]
    rw [List.cons_append, List.nil_append, hPiece, scanPieces]
    · simp [hControl, hSlash]
    · exact hQuote
    · exact fun _ _ _ _ _ hSame _ => hSlash hSame
    · exact fun _ _ hSame _ => hSlash hSame

theorem joinPieces_pieceOf (c : Char) (pieces : List Piece) :
    joinPieces (pieceOf c :: pieces) = (joinPieces pieces).map (c :: ·) := by
  unfold pieceOf
  split
  · next hControl =>
    have hHigh : isHighSurrogate c.toNat = false := by
      simp [isHighSurrogate]
      omega
    have hLow : isLowSurrogate c.toNat = false := by
      simp [isLowSurrogate]
      omega
    have hSelf : Char.ofNat c.toNat = c := Char.ofNat_toNat c
    cases pieces with
    | nil => simp [joinPieces, hHigh, hLow, hSelf]
    | cons piece pieces =>
      cases piece with
      | char d => simp [joinPieces, hHigh, hLow, hSelf]
      | unit low => simp [joinPieces, hHigh, hLow, hSelf]
  · simp [joinPieces]

theorem scanPieces_escapeChars (cs rest : List Char) :
    scanPieces (escapeChars cs ++ '"' :: rest) = some (cs.map pieceOf, rest) := by
  induction cs with
  | nil => simp [escapeChars, scanPieces]
  | cons c cs ih =>
    have hSplit : escapeChars (c :: cs) ++ '"' :: rest =
        escapeChar c ++ (escapeChars cs ++ '"' :: rest) := by
      simp [escapeChars]
    rw [hSplit, scanPieces_escapeChar, ih]
    rfl

theorem joinPieces_map_pieceOf (cs : List Char) : joinPieces (cs.map pieceOf) = some cs := by
  induction cs with
  | nil => simp [joinPieces]
  | cons c cs ih => rw [List.map_cons, joinPieces_pieceOf, ih, Option.map_some]

theorem toList_quote (s : String) :
    (quote s).toList = '"' :: (escapeChars s.toList ++ ['"']) := by
  simp [quote]

/-- A written text is read to its closing quote. -/
theorem scanString_escapeChars (s : String) (rest : List Char) :
    Draft.scanString (escapeChars s.toList ++ '"' :: rest) = (.text (some s), some rest) := by
  simp [Draft.scanString, scanText, scanPieces_escapeChars, joinPieces_map_pieceOf, Draft.leaf]

end Bindery.Json
