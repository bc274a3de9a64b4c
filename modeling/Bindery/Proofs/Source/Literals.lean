import Bindery.Source.Printer

/-! # Literals are read back

Quotes, dollar signs and backslashes mean something between the quotes of a literal, so each of them
gets a backslash of its own. A reader that starts from the left takes a backslash together with the
character behind it. It takes each escaped character in one step, and therefore it gets the text
back and meets no quote before the closing one.
-/

namespace Bindery.Source

/-! ## Reading from the left -/

/-- The text with every backslash replaced by the character behind it. -/
def unescape : List Char → List Char
  | [] => []
  | '\\' :: c :: rest => c :: unescape rest
  | c :: rest => c :: unescape rest

/-- What a backslash does to the characters behind it: whether the next one is taken as it is. -/
def awaitsStep (awaiting : Bool) (c : Char) : Bool := !awaiting && c == '\\'

/-- Whether the text ends in a backslash that is not paired with a character. -/
def awaits (cs : List Char) : Bool := cs.foldl awaitsStep false

/-- Reads a literal behind its opening quote: its text, and what follows the closing quote. A dollar
sign that is not escaped is the start of a template, and then there is no text to read. -/
def readText : List Char → Option (List Char × List Char)
  | [] => none
  | '"' :: rest => some ([], rest)
  | '$' :: _ => none
  | '\\' :: c :: rest => (readText rest).map fun (text, behind) => (c :: text, behind)
  | '\\' :: [] => none
  | c :: rest => (readText rest).map fun (text, behind) => (c :: text, behind)

def readLiteral : List Char → Option (List Char × List Char)
  | '"' :: rest => readText rest
  | _ => none

/-! ## One pass instead of three -/

/-- The characters that get a backslash. -/
def isMark (c : Char) : Bool := c == '\\' || c == '"' || c == '$'

def escapeChar (c : Char) : List Char := if isMark c then ['\\', c] else [c]

theorem escapeEach_cons (mark c : Char) (cs : List Char) : escapeEach mark (c :: cs) =
    (if c = mark then ['\\', c] else [c]) ++ escapeEach mark cs := by
  rw [escapeEach, List.flatMap_cons]
  rfl

/-- The backslashes that one pass puts in are no marks of the passes behind it. -/
theorem escapeChars_cons (c : Char) (cs : List Char) :
    escapeChars (c :: cs) = escapeChar c ++ escapeChars cs := by
  unfold escapeChars escapeChar isMark
  by_cases hBackslash : c = '\\'
  · subst hBackslash
    simp [escapeEach_cons]
  by_cases hQuote : c = '"'
  · subst hQuote
    simp [escapeEach_cons]
  by_cases hDollar : c = '$'
  · subst hDollar
    simp [escapeEach_cons]
  simp [escapeEach_cons, hBackslash, hQuote, hDollar]

theorem escapeChars_nil : escapeChars [] = [] := rfl

theorem isMark_eq_false_iff {c : Char} : isMark c = false ↔ c ≠ '\\' ∧ c ≠ '"' ∧ c ≠ '$' := by
  simp [isMark, and_assoc]

/-! ## What the reader makes of it -/

theorem unescape_cons_of_ne {c : Char} (hPlain : c ≠ '\\') (rest : List Char) :
    unescape (c :: rest) = c :: unescape rest := by
  rw [unescape]
  rintro _ _ rfl
  exact absurd rfl hPlain

theorem unescape_escapeChars (cs : List Char) : unescape (escapeChars cs) = cs := by
  induction cs with
  | nil => rfl
  | cons c cs ih =>
    rw [escapeChars_cons, escapeChar]
    split
    · change c :: unescape (escapeChars cs) = c :: cs
      rw [ih]
    · next hPlain =>
      obtain ⟨hBackslash, _⟩ := isMark_eq_false_iff.mp (Bool.eq_false_iff.mpr hPlain)
      rw [List.singleton_append, unescape_cons_of_ne hBackslash, ih]

theorem readText_cons_of_plain {c : Char} (hPlain : isMark c = false) (rest : List Char) :
    readText (c :: rest) = (readText rest).map fun (text, behind) => (c :: text, behind) := by
  obtain ⟨hBackslash, hQuote, hDollar⟩ := isMark_eq_false_iff.mp hPlain
  cases rest <;> simp [readText, hBackslash]

theorem readText_escapeChars (cs behind : List Char) :
    readText (escapeChars cs ++ '"' :: behind) = some (cs, behind) := by
  induction cs with
  | nil => rfl
  | cons c cs ih =>
    rw [escapeChars_cons, escapeChar]
    split
    · simp [readText, ih]
    · next hPlain =>
      rw [List.singleton_append, List.cons_append, readText_cons_of_plain, ih]
      · rfl
      · exact Bool.eq_false_iff.mpr hPlain

/-! ## Backslashes and what they escape -/

theorem awaits_append_singleton (cs : List Char) (c : Char) :
    awaits (cs ++ [c]) = awaitsStep (awaits cs) c := by
  rw [awaits, List.foldl_append]
  rfl

theorem exists_front_of_awaits {cs : List Char} (h : awaits cs = true) :
    ∃ front, cs = front ++ ['\\'] ∧ awaits front = false := by
  rcases List.eq_nil_or_concat cs with rfl | ⟨front, last, rfl⟩
  · cases h
  · rw [List.concat_eq_append, awaits_append_singleton, awaitsStep, Bool.and_eq_true,
      Bool.not_eq_true', beq_iff_eq] at h
    exact ⟨front, by rw [List.concat_eq_append, h.2], h.1⟩

/-- An escaped character leaves nothing to wait for. -/
theorem foldl_awaitsStep_escapeChar (c : Char) : (escapeChar c).foldl awaitsStep false = false := by
  unfold escapeChar
  split
  · rfl
  · next hPlain =>
    obtain ⟨hBackslash, _⟩ := isMark_eq_false_iff.mp (Bool.eq_false_iff.mpr hPlain)
    simp [awaitsStep, hBackslash]

theorem awaits_escapeChar_append (c : Char) (cs : List Char) :
    awaits (escapeChar c ++ cs) = awaits cs := by
  rw [awaits, List.foldl_append, foldl_awaitsStep_escapeChar]
  rfl

theorem awaits_escapeChars (cs : List Char) : awaits (escapeChars cs) = false := by
  induction cs with
  | nil => rfl
  | cons c cs ih => rw [escapeChars_cons, awaits_escapeChar_append, ih]

theorem awaits_before_mark_escapeChar {c mark : Char} {before behind : List Char}
    (hSplit : escapeChar c = before ++ mark :: behind) (hMark : mark = '"' ∨ mark = '$') :
    awaits before = true := by
  have hOther : mark ≠ '\\' := by
    rcases hMark with rfl | rfl <;> decide
  have hIs : isMark mark = true := by
    rcases hMark with rfl | rfl <;> rfl
  unfold escapeChar at hSplit
  split at hSplit
  · match before with
    | [] => exact absurd (List.cons.inj hSplit).1.symm hOther
    | ['\\'] => rfl
    | first :: second :: rest =>
      have hLength := congrArg List.length hSplit
      simp at hLength
  · next hPlain =>
    match before with
    | [] => exact absurd ((List.cons.inj hSplit).1 ▸ hIs) hPlain
    | first :: rest =>
      have hLength := congrArg List.length hSplit
      simp at hLength

/-- A quote or a dollar sign stands only where a character is waited for. -/
theorem awaits_before_mark {cs before behind : List Char} {mark : Char}
    (hSplit : escapeChars cs = before ++ mark :: behind) (hMark : mark = '"' ∨ mark = '$') :
    awaits before = true := by
  induction cs generalizing before with
  | nil =>
    rw [escapeChars_nil] at hSplit
    exact absurd hSplit.symm (List.append_ne_nil_of_right_ne_nil _ (List.cons_ne_nil _ _))
  | cons c cs ih =>
    rw [escapeChars_cons] at hSplit
    -- The mark belongs to the pieces behind the first one, or to the first piece.
    rcases List.append_eq_append_iff.mp hSplit with ⟨middle, rfl, hRest⟩ | ⟨middle, hChar, hRest⟩
    · rw [awaits_escapeChar_append]
      exact ih hRest
    · cases middle with
      | nil =>
        have hFirst : escapeChars cs = [] ++ mark :: behind := hRest.symm
        exact absurd (ih hFirst) Bool.false_ne_true
      | cons first middle =>
        obtain ⟨rfl, _⟩ := List.cons.inj hRest
        exact awaits_before_mark_escapeChar hChar hMark

/-- An escaped text is read back from the left. Each quote and each dollar sign in it stands behind
the backslash that escapes it, and no backslash at its end is left alone. So the literal of a string
ends at its closing quote, whatever follows, and different strings are escaped differently. -/
theorem literal_read_back (s : String) :
    unescape (escapeChars s.toList) = s.toList ∧
    (∀ before mark behind, escapeChars s.toList = before ++ mark :: behind →
      mark = '"' ∨ mark = '$' → ∃ front, before = front ++ ['\\'] ∧ awaits front = false) ∧
    awaits (escapeChars s.toList) = false ∧
    (∀ spell behind, readLiteral (((MemberValue.str s).print spell).toList ++ behind) =
      some (s.toList, behind)) ∧
    ∀ t : String, escapeChars s.toList = escapeChars t.toList → s = t := by
  refine ⟨unescape_escapeChars _, ?_, awaits_escapeChars _, ?_, ?_⟩
  · intro before mark behind hSplit hMark
    exact exists_front_of_awaits (awaits_before_mark hSplit hMark)
  · intro spell behind
    have hChars : ((MemberValue.str s).print spell).toList ++ behind =
        '"' :: (escapeChars s.toList ++ '"' :: behind) := by
      simp [MemberValue.print, literal]
    rw [hChars]
    exact readText_escapeChars s.toList behind
  · intro t hSame
    apply String.toList_injective
    rw [← unescape_escapeChars s.toList, hSame, unescape_escapeChars]

/-- A backslash in front of a quote is no way out of the literal. -/
example : escapeChars ['a', '\\', '"', '$'] = ['a', '\\', '\\', '\\', '"', '\\', '$'] := by
  decide

end Bindery.Source
