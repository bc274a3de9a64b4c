import Bindery.Proofs.Json.Leaves

/-! # Texts of a JSON value

A value is spelled with any white space between its parts. The compact and the indented form are two
such texts, and reading follows every one of them to its end: the bound on the steps is met because
each part of a text has more characters than it takes steps.
-/

namespace Bindery.Json

def AreBlank (cs : List Char) : Prop := ∀ c ∈ cs, isSpace c = true

mutual

/-- The characters spell the value. -/
inductive Spelled : Json → List Char → Prop
  | null : Spelled .null ['n', 'u', 'l', 'l']
  | yes : Spelled (.bool true) ['t', 'r', 'u', 'e']
  | no : Spelled (.bool false) ['f', 'a', 'l', 's', 'e']
  | integer (n : Int) : Spelled (.integer n) (toString n).toList
  | string (s : String) : Spelled (.string s) (quote s).toList
  | emptyArray : Spelled (.array []) ['[', ']']
  | array {items : List Json} {cs : List Char} :
      SpelledItems items cs → Spelled (.array items) ('[' :: cs)
  | emptyObject : Spelled (.object []) ['\x7b', '\x7d']
  | object {members : List (String × Json)} {cs : List Char} :
      SpelledMembers members cs → Spelled (.object members) ('\x7b' :: cs)

/-- The characters spell items, up to the closing bracket. -/
inductive SpelledItems : List Json → List Char → Prop
  | last {item : Json} {gap cs gap' : List Char} :
      AreBlank gap → Spelled item cs → AreBlank gap' →
        SpelledItems [item] (gap ++ (cs ++ (gap' ++ [']'])))
  | more {item : Json} {rest : List Json} {gap cs gap' ds : List Char} :
      AreBlank gap → Spelled item cs → AreBlank gap' → SpelledItems rest ds →
        SpelledItems (item :: rest) (gap ++ (cs ++ (gap' ++ ',' :: ds)))

/-- The characters spell members, up to the closing bracket. -/
inductive SpelledMembers : List (String × Json) → List Char → Prop
  | last (name : String) {value : Json} {gap between cs gap' : List Char} :
      AreBlank gap → AreBlank between → Spelled value cs → AreBlank gap' →
        SpelledMembers [(name, value)]
          (gap ++ ((quote name).toList ++ ':' :: (between ++ (cs ++ (gap' ++ ['\x7d'])))))
  | more (name : String) {value : Json} {rest : List (String × Json)}
      {gap between cs gap' ds : List Char} :
      AreBlank gap → AreBlank between → Spelled value cs → AreBlank gap' → SpelledMembers rest ds →
        SpelledMembers ((name, value) :: rest)
          (gap ++ ((quote name).toList ++ ':' :: (between ++ (cs ++ (gap' ++ ',' :: ds)))))

end

mutual

/-- What is read of a text of the value. -/
def draft : Json → Draft
  | null => .null
  | bool b => .bool b
  | integer n => .number (toString n).toList
  | decimal spelling => .number spelling.toList
  | string s => .text (some s)
  | array items => .array (draftItems items)
  | object members => .object (draftMembers members)

def draftItems : List Json → List Draft
  | [] => []
  | item :: rest => item.draft :: draftItems rest

def draftMembers : List (String × Json) → List (Draft × Draft)
  | [] => []
  | (name, value) :: rest => (.text (some name), value.draft) :: draftMembers rest

end

/-! ## White space -/

theorem skipSpace_append {gap : List Char} (h : AreBlank gap) (cs : List Char) :
    skipSpace (gap ++ cs) = skipSpace cs :=
  List.dropWhile_append_of_pos h

theorem skipSpace_cons {c : Char} (h : isSpace c = false) (cs : List Char) :
    skipSpace (c :: cs) = c :: cs := by
  simp [skipSpace, h]

theorem skipSpace_skipSpace (cs : List Char) : skipSpace (skipSpace cs) = skipSpace cs := by
  induction cs with
  | nil => rfl
  | cons c cs ih =>
    by_cases hSpace : isSpace c = true
    · simpa [skipSpace, hSpace] using ih
    · simp [skipSpace, hSpace]

theorem scanValue_skipSpace (fuel : Nat) (cs : List Char) :
    Draft.scanValue fuel (skipSpace cs) = Draft.scanValue fuel cs := by
  cases fuel with
  | zero => rfl
  | succ fuel => simp only [Draft.scanValue, skipSpace_skipSpace]

theorem scanItems_skipSpace (fuel : Nat) (cs : List Char) :
    Draft.scanItems fuel (skipSpace cs) = Draft.scanItems fuel cs := by
  cases fuel with
  | zero => rfl
  | succ fuel => simp only [Draft.scanItems, scanValue_skipSpace]

theorem scanMembers_skipSpace (fuel : Nat) (cs : List Char) :
    Draft.scanMembers fuel (skipSpace cs) = Draft.scanMembers fuel cs := by
  cases fuel with
  | zero => rfl
  | succ fuel => simp only [Draft.scanMembers, scanValue_skipSpace]

theorem endsNumber_gap {gap : List Char} (h : AreBlank gap) {c : Char}
    (hEnd : c = ',' ∨ c = ']' ∨ c = '\x7d') (rest : List Char) : EndsNumber (gap ++ c :: rest) := by
  intro d hFirst
  have hClass : isSpace d = true ∨ d = ',' ∨ d = ']' ∨ d = '\x7d' := by
    cases gap with
    | nil =>
      obtain rfl : c = d := by simpa using hFirst
      exact .inr hEnd
    | cons e gap =>
      obtain rfl : e = d := by simpa using hFirst
      exact .inl (h e List.mem_cons_self)
  simp only [isSpace, Bool.or_eq_true, decide_eq_true_eq] at hClass
  rcases hClass with (((rfl | rfl) | rfl) | rfl) | rfl | rfl | rfl <;> decide

/-! ## Reading -/

theorem exists_digits (n : Int) : ∃ c tail, (toString n).toList = c :: tail ∧
    (c = '-' ∨ c.isDigit = true) := by
  cases n with
  | ofNat n =>
    rw [toList_toString_ofNat]
    cases hDigits : Nat.toDigits 10 n with
    | nil => exact absurd hDigits Nat.toDigits_ne_nil
    | cons c tail =>
      exact ⟨c, tail, rfl, .inr (isDigit_of_mem_decimal (hDigits ▸ List.mem_cons_self))⟩
  | negSucc n => exact ⟨'-', _, toList_toString_negSucc n, .inl rfl⟩

/-- No number starts as something else does. -/
theorem number_head {c : Char} (h : c = '-' ∨ c.isDigit = true) :
    isSpace c = false ∧ c ≠ 'n' ∧ c ≠ 't' ∧ c ≠ 'f' ∧ c ≠ '"' ∧ c ≠ '[' ∧ c ≠ '\x7b' ∧
      c ≠ ']' := by
  have hNot (d : Char) (hMinus : d ≠ '-') (hDigit : d.isDigit = false) : c ≠ d := by
    rintro rfl
    rcases h with rfl | h
    · exact hMinus rfl
    · rw [hDigit] at h
      cases h
  refine ⟨?_, hNot _ (by decide) (by decide), hNot _ (by decide) (by decide),
    hNot _ (by decide) (by decide), hNot _ (by decide) (by decide), hNot _ (by decide) (by decide),
    hNot _ (by decide) (by decide), hNot _ (by decide) (by decide)⟩
  simp only [isSpace, Bool.or_eq_false_iff, decide_eq_false_iff_not]
  exact ⟨⟨⟨hNot _ (by decide) (by decide), hNot _ (by decide) (by decide)⟩,
    hNot _ (by decide) (by decide)⟩, hNot _ (by decide) (by decide)⟩

theorem scanValue_gap {gap : List Char} (h : AreBlank gap) (fuel : Nat) (cs : List Char) :
    Draft.scanValue fuel (gap ++ cs) = Draft.scanValue fuel cs := by
  rw [← scanValue_skipSpace, skipSpace_append h, scanValue_skipSpace]

theorem Spelled.head {value : Json} {cs : List Char} (h : Spelled value cs) :
    ∃ c tail, cs = c :: tail ∧ isSpace c = false ∧ c ≠ ']' := by
  cases h with
  | null => exact ⟨'n', _, rfl, by decide, by decide⟩
  | yes => exact ⟨'t', _, rfl, by decide, by decide⟩
  | no => exact ⟨'f', _, rfl, by decide, by decide⟩
  | integer n =>
    obtain ⟨c, tail, hDigits, hFirst⟩ := exists_digits n
    obtain ⟨hSpace, _, _, _, _, _, _, hBracket⟩ := number_head hFirst
    exact ⟨c, tail, hDigits, hSpace, hBracket⟩
  | string s => exact ⟨'"', _, toList_quote s, by decide, by decide⟩
  | emptyArray => exact ⟨'[', _, rfl, by decide, by decide⟩
  | array _ => exact ⟨'[', _, rfl, by decide, by decide⟩
  | emptyObject => exact ⟨'\x7b', _, rfl, by decide, by decide⟩
  | object _ => exact ⟨'\x7b', _, rfl, by decide, by decide⟩

/-- Items do not start with the bracket that closes an array. -/
theorem SpelledItems.head {items : List Json} {cs : List Char} (h : SpelledItems items cs)
    (rest : List Char) : ∃ c tail, skipSpace (cs ++ rest) = c :: tail ∧ c ≠ ']' := by
  cases h with
  | last hGap hItem _ =>
    obtain ⟨c, tail, rfl, hSpace, hFirst⟩ := hItem.head
    rw [List.append_assoc, skipSpace_append hGap]
    exact ⟨c, _, skipSpace_cons hSpace _, hFirst⟩
  | more hGap hItem _ _ =>
    obtain ⟨c, tail, rfl, hSpace, hFirst⟩ := hItem.head
    rw [List.append_assoc, skipSpace_append hGap]
    exact ⟨c, _, skipSpace_cons hSpace _, hFirst⟩

theorem SpelledMembers.head {members : List (String × Json)} {cs : List Char}
    (h : SpelledMembers members cs) (rest : List Char) :
    ∃ c tail, skipSpace (cs ++ rest) = c :: tail ∧ c ≠ '\x7d' := by
  cases h with
  | last _ hGap _ _ _ =>
    rw [List.append_assoc, skipSpace_append hGap, toList_quote]
    exact ⟨'"', _, skipSpace_cons (by decide) _, by decide⟩
  | more _ hGap _ _ _ _ =>
    rw [List.append_assoc, skipSpace_append hGap, toList_quote]
    exact ⟨'"', _, skipSpace_cons (by decide) _, by decide⟩

theorem scanValue_integer (n : Int) (fuel : Nat) {rest : List Char} (hRest : EndsNumber rest) :
    Draft.scanValue (fuel + 1) ((toString n).toList ++ rest) =
      (.number (toString n).toList, some rest) := by
  have hScan := scanNumber_toString n hRest
  obtain ⟨c, tail, hDigits, hFirst⟩ := exists_digits n
  obtain ⟨hSpace, hn, ht, hf, hQuote, hArray, hObject, _⟩ := number_head hFirst
  rw [hDigits] at hScan ⊢
  rw [List.cons_append] at hScan ⊢
  rw [Draft.scanValue, skipSpace_cons hSpace]
  split <;> simp_all [Draft.leaf]

theorem scanValue_quote (s : String) {fuel : Nat} (hFuel : 0 < fuel) (rest : List Char) :
    Draft.scanValue fuel ((quote s).toList ++ rest) = (.text (some s), some rest) := by
  obtain ⟨fuel, rfl⟩ := Nat.exists_eq_succ_of_ne_zero hFuel.ne'
  have hText : (quote s).toList ++ rest = '"' :: (escapeChars s.toList ++ '"' :: rest) := by
    simp [toList_quote]
  have hQuote := skipSpace_cons (c := '"') (by decide) (escapeChars s.toList ++ '"' :: rest)
  simp only [Draft.scanValue, hText, hQuote]
  exact scanString_escapeChars s rest

theorem scanValue_array {fuel : Nat} {cs rest : List Char} {items : List Draft}
    (hOpen : ∃ c tail, skipSpace cs = c :: tail ∧ c ≠ ']')
    (h : Draft.scanItems fuel cs = (items, some rest)) :
    Draft.scanValue (fuel + 1) ('[' :: cs) = (.array items, some rest) := by
  obtain ⟨c, tail, hSkip, hFirst⟩ := hOpen
  rw [← scanItems_skipSpace, hSkip] at h
  have hBracket : skipSpace ('[' :: cs) = '[' :: cs := skipSpace_cons (by decide) cs
  simp only [Draft.scanValue, hBracket, hSkip]
  split
  · next hClose => exact absurd (List.cons.inj hClose).1 hFirst
  · rw [h]

theorem scanValue_object {fuel : Nat} {cs rest : List Char} {members : List (Draft × Draft)}
    (hOpen : ∃ c tail, skipSpace cs = c :: tail ∧ c ≠ '\x7d')
    (h : Draft.scanMembers fuel cs = (members, some rest)) :
    Draft.scanValue (fuel + 1) ('\x7b' :: cs) = (.object members, some rest) := by
  obtain ⟨c, tail, hSkip, hFirst⟩ := hOpen
  rw [← scanMembers_skipSpace, hSkip] at h
  have hBracket : skipSpace ('\x7b' :: cs) = '\x7b' :: cs := skipSpace_cons (by decide) cs
  simp only [Draft.scanValue, hBracket, hSkip]
  split
  · next hClose => exact absurd (List.cons.inj hClose).1 hFirst
  · rw [h]

-- By recursion on the fuel: a bracket takes one unit of it, and each item or member takes two, one
-- for the step to the next and one for the value, which has one character at least.
mutual

theorem scanValue_spelled {value : Json} {cs : List Char} (h : Spelled value cs) {fuel : Nat}
    {rest : List Char} (hFuel : 2 * cs.length ≤ fuel) (hRest : EndsNumber rest) :
    Draft.scanValue fuel (cs ++ rest) = (value.draft, some rest) := by
  cases fuel with
  | zero =>
    obtain ⟨c, tail, rfl, _⟩ := h.head
    simp at hFuel
  | succ fuel =>
    cases h with
    | null => rfl
    | yes => rfl
    | no => rfl
    | integer n => exact scanValue_integer n fuel hRest
    | string s => exact scanValue_quote s (Nat.succ_pos fuel) rest
    | emptyArray => rfl
    | array hItems =>
      rw [List.length_cons] at hFuel
      exact scanValue_array (hItems.head rest) (scanItems_spelled hItems (by omega))
    | emptyObject => rfl
    | object hMembers =>
      rw [List.length_cons] at hFuel
      exact scanValue_object (hMembers.head rest) (scanMembers_spelled hMembers (by omega))
termination_by fuel

theorem scanItems_spelled {items : List Json} {cs : List Char} (h : SpelledItems items cs)
    {fuel : Nat} {rest : List Char} (hFuel : 2 * cs.length ≤ fuel + 1) :
    Draft.scanItems fuel (cs ++ rest) = (draftItems items, some rest) := by
  cases fuel with
  | zero =>
    cases h <;> simp only [List.length_append, List.length_cons] at hFuel <;> omega
  | succ fuel =>
    cases h with
    | @last item gap cs gap' hGap hItem hGap' =>
      simp only [List.length_append, List.length_cons] at hFuel
      have hScan : Draft.scanValue fuel (cs ++ (gap' ++ ']' :: rest)) =
          (item.draft, some (gap' ++ ']' :: rest)) :=
        scanValue_spelled hItem (by omega) (endsNumber_gap hGap' (.inr (.inl rfl)) rest)
      have hClose : skipSpace (gap' ++ ']' :: rest) = ']' :: rest := by
        rw [skipSpace_append hGap', skipSpace_cons (by decide)]
      simp [Draft.scanItems, scanValue_gap hGap, hScan, hClose, draftItems]
    | @more item items gap cs gap' ds hGap hItem hGap' hItems =>
      simp only [List.length_append, List.length_cons] at hFuel
      have hScan : Draft.scanValue fuel (cs ++ (gap' ++ ',' :: (ds ++ rest))) =
          (item.draft, some (gap' ++ ',' :: (ds ++ rest))) :=
        scanValue_spelled hItem (by omega) (endsNumber_gap hGap' (.inl rfl) _)
      have hComma : skipSpace (gap' ++ ',' :: (ds ++ rest)) = ',' :: (ds ++ rest) := by
        rw [skipSpace_append hGap', skipSpace_cons (by decide)]
      have hMore : Draft.scanItems fuel (ds ++ rest) = (draftItems items, some rest) :=
        scanItems_spelled hItems (by omega)
      simp [Draft.scanItems, scanValue_gap hGap, hScan, hComma, hMore, draftItems]
termination_by fuel

theorem scanMembers_spelled {members : List (String × Json)} {cs : List Char}
    (h : SpelledMembers members cs) {fuel : Nat} {rest : List Char}
    (hFuel : 2 * cs.length ≤ fuel + 1) :
    Draft.scanMembers fuel (cs ++ rest) = (draftMembers members, some rest) := by
  cases fuel with
  | zero =>
    cases h <;> simp only [List.length_append, List.length_cons] at hFuel <;> omega
  | succ fuel =>
    cases h with
    | @last name value gap between cs gap' hGap hBetween hValue hGap' =>
      simp only [List.length_append, List.length_cons, toList_quote] at hFuel
      have hName (ds : List Char) := scanValue_quote name (show 0 < fuel by omega) ds
      have hScan : Draft.scanValue fuel (cs ++ (gap' ++ '\x7d' :: rest)) =
          (value.draft, some (gap' ++ '\x7d' :: rest)) :=
        scanValue_spelled hValue (by omega) (endsNumber_gap hGap' (.inr (.inr rfl)) rest)
      have hClose : skipSpace (gap' ++ '\x7d' :: rest) = '\x7d' :: rest := by
        rw [skipSpace_append hGap', skipSpace_cons (by decide)]
      have hColon (ds : List Char) : skipSpace (':' :: ds) = ':' :: ds :=
        skipSpace_cons (by decide) ds
      simp [Draft.scanMembers, scanValue_gap hGap, hName, hColon, scanValue_gap hBetween,
        hScan, hClose, draftMembers]
    | @more name value members gap between cs gap' ds hGap hBetween hValue hGap' hMembers =>
      simp only [List.length_append, List.length_cons, toList_quote] at hFuel
      have hName (ds : List Char) := scanValue_quote name (show 0 < fuel by omega) ds
      have hScan : Draft.scanValue fuel (cs ++ (gap' ++ ',' :: (ds ++ rest))) =
          (value.draft, some (gap' ++ ',' :: (ds ++ rest))) :=
        scanValue_spelled hValue (by omega) (endsNumber_gap hGap' (.inl rfl) _)
      have hComma : skipSpace (gap' ++ ',' :: (ds ++ rest)) = ',' :: (ds ++ rest) := by
        rw [skipSpace_append hGap', skipSpace_cons (by decide)]
      have hColon (ds : List Char) : skipSpace (':' :: ds) = ':' :: ds :=
        skipSpace_cons (by decide) ds
      have hMore : Draft.scanMembers fuel (ds ++ rest) = (draftMembers members, some rest) :=
        scanMembers_spelled hMembers (by omega)
      simp [Draft.scanMembers, scanValue_gap hGap, hName, hColon, scanValue_gap hBetween,
        hScan, hComma, hMore, draftMembers]
termination_by fuel

end

end Bindery.Json
