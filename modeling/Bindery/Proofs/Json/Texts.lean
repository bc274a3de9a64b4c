import Bindery.Proofs.Json.Grammar

/-! # Written values are read back

Both forms in which a value is written are texts of it, so that reading either form to its end gives
the draft of the value. The draft has the value again if the brackets do not nest too deep.
-/

namespace Bindery.Json

/-- No number is a decimal, and every integer fits 64 bits with sign. -/
inductive IsExact : Json → Prop
  | null : IsExact .null
  | bool (b : Bool) : IsExact (.bool b)
  | integer {n : Int} : fitsSigned 63 n = true → IsExact (.integer n)
  | string (s : String) : IsExact (.string s)
  | array {items : List Json} : (∀ item ∈ items, IsExact item) → IsExact (.array items)
  | object {members : List (String × Json)} :
      (∀ member ∈ members, IsExact member.2) → IsExact (.object members)

mutual

/-- How deep the brackets of a value nest. -/
def brackets : Json → Nat
  | array items => bracketsOfItems items + 1
  | object members => bracketsOfMembers members + 1
  | _ => 0

def bracketsOfItems : List Json → Nat
  | [] => 0
  | item :: rest => max item.brackets (bracketsOfItems rest)

def bracketsOfMembers : List (String × Json) → Nat
  | [] => 0
  | (_, value) :: rest => max value.brackets (bracketsOfMembers rest)

end

/-! ## Writing -/

theorem compactItems_eq_map (items : List Json) : compactItems items = items.map compact := by
  induction items with
  | nil => rfl
  | cons item rest ih => rw [compactItems, ih, List.map_cons]

theorem compactMembers_eq_map (members : List (String × Json)) :
    compactMembers members = members.map fun m => quote m.1 ++ ":" ++ compact m.2 := by
  induction members with
  | nil => rfl
  | cons member rest ih => rw [compactMembers, ih, List.map_cons]

theorem prettyItems_eq_map (depth : Nat) (items : List Json) :
    prettyItems depth items = items.map (prettyAt depth) := by
  induction items with
  | nil => rfl
  | cons item rest ih => rw [prettyItems, ih, List.map_cons]

theorem prettyMembers_eq_map (depth : Nat) (members : List (String × Json)) :
    prettyMembers depth members = members.map fun m => quote m.1 ++ ": " ++ prettyAt depth m.2 := by
  induction members with
  | nil => rfl
  | cons member rest ih => rw [prettyMembers, ih, List.map_cons]

theorem areBlank_empty : AreBlank "".toList := by simp [AreBlank]

section Lines

variable {gap gap' : String} (hGap : AreBlank gap.toList) (hGap' : AreBlank gap'.toList)
  {f : Json → String}

include hGap hGap'

/-- Items on lines of their own, each behind the same gap. -/
theorem spelledItems_lines {items : List Json} (hSome : items ≠ [])
    (h : ∀ item ∈ items, Spelled item (f item).toList) :
    SpelledItems items (gap ++ ("," ++ gap).intercalate (items.map f) ++ gap' ++ "]").toList := by
  induction items with
  | nil => exact absurd rfl hSome
  | cons item rest ih =>
    obtain ⟨hItem, hRest⟩ := List.forall_mem_cons.mp h
    cases rest with
    | nil => simpa using SpelledItems.last hGap hItem hGap'
    | cons next rest =>
      have hMore := SpelledItems.more hGap hItem areBlank_empty (ih (by simp) hRest)
      simpa [String.intercalate_cons_cons] using hMore

theorem spelledMembers_lines {colon : String} {between : List Char}
    (hColon : colon.toList = ':' :: between) (hBetween : AreBlank between)
    {members : List (String × Json)} (hSome : members ≠ [])
    (h : ∀ member ∈ members, Spelled member.2 (f member.2).toList) :
    SpelledMembers members (gap ++ ("," ++ gap).intercalate
      (members.map fun m => quote m.1 ++ colon ++ f m.2) ++ gap' ++ "\x7d").toList := by
  induction members with
  | nil => exact absurd rfl hSome
  | cons member rest ih =>
    obtain ⟨hMember, hRest⟩ := List.forall_mem_cons.mp h
    cases rest with
    | nil =>
      have hLast := SpelledMembers.last member.1 hGap hBetween hMember hGap'
      simpa [hColon] using hLast
    | cons next rest =>
      have hMore := SpelledMembers.more member.1 hGap hBetween hMember areBlank_empty
        (ih (by simp) hRest)
      simpa [String.intercalate_cons_cons, hColon] using hMore

end Lines

theorem toList_indentation (depth : Nat) :
    (indentation depth).toList = List.replicate (2 * depth) ' ' := by
  have hSpaces (n : Nat) : (Nat.repeat (·.push ' ') n "").toList = List.replicate n ' ' := by
    induction n with
    | zero => rfl
    | succ n ih => rw [Nat.repeat, String.toList_push, ih, List.replicate_succ']
  rw [indentation, String.pushn_eq_repeat_push]
  exact hSpaces (2 * depth)

theorem areBlank_indentation (depth : Nat) : AreBlank ("\n" ++ indentation depth).toList := by
  intro c hMem
  rw [String.toList_append, toList_indentation, List.mem_append] at hMem
  rcases hMem with hLine | hSpaces
  · obtain rfl : c = '\n' := by simpa using hLine
    decide
  · obtain rfl := List.eq_of_mem_replicate hSpaces
    decide

theorem IsExact.spelled_compact {value : Json} (h : IsExact value) :
    Spelled value value.compact.toList := by
  induction h with
  | null => exact .null
  | bool b => cases b with
    | false => exact .no
    | true => exact .yes
  | integer _ => exact .integer _
  | string s => exact .string s
  | @array items _ ih =>
    rw [compact, compactItems_eq_map]
    cases items with
    | nil => exact .emptyArray
    | cons item rest =>
      have hItems := spelledItems_lines areBlank_empty areBlank_empty (by simp) ih
      simpa using Spelled.array hItems
  | @object members _ ih =>
    rw [compact, compactMembers_eq_map]
    cases members with
    | nil => exact .emptyObject
    | cons member rest =>
      have hMembers := spelledMembers_lines areBlank_empty areBlank_empty
        (show ":".toList = ':' :: "".toList from rfl) areBlank_empty (by simp) ih
      simpa using Spelled.object hMembers

theorem IsExact.spelled_prettyAt {value : Json} (h : IsExact value) (depth : Nat) :
    Spelled value (value.prettyAt depth).toList := by
  induction h generalizing depth with
  | null => exact (IsExact.null).spelled_compact
  | bool b => exact (IsExact.bool b).spelled_compact
  | integer hFits => exact (IsExact.integer hFits).spelled_compact
  | string s => exact (IsExact.string s).spelled_compact
  | @array items _ ih =>
    rw [prettyAt, prettyItems_eq_map]
    cases items with
    | nil => simpa [block] using Spelled.emptyArray
    | cons item rest =>
      have hItems := spelledItems_lines (areBlank_indentation (depth + 1))
        (areBlank_indentation depth) (by simp) fun item hMem => ih item hMem (depth + 1)
      simpa [block] using Spelled.array hItems
  | @object members _ ih =>
    rw [prettyAt, prettyMembers_eq_map]
    cases members with
    | nil => simpa [block] using Spelled.emptyObject
    | cons member rest =>
      have hMembers := spelledMembers_lines (areBlank_indentation (depth + 1))
        (areBlank_indentation depth) (show ": ".toList = [':', ' '] from rfl)
        (by simp [AreBlank, isSpace]) (by simp) fun member hMem => ih member hMem (depth + 1)
      simpa [block] using Spelled.object hMembers

/-! ## Reading -/

/-- A text of a value is read to its end. -/
theorem scan_spelled {value : Json} {s : String} (h : Spelled value s.toList) :
    scan s = ⟨value.draft, true⟩ := by
  have hScan : Draft.scanValue (2 * s.toList.length + 2) (s.toList ++ []) =
      (value.draft, some []) := scanValue_spelled h (by omega) (by simp [EndsNumber])
  rw [List.append_nil] at hScan
  simp [scan, hScan, skipSpace]

theorem brackets_le_of_mem_items {item : Json} {items : List Json} (h : item ∈ items) :
    item.brackets ≤ bracketsOfItems items := by
  induction items with
  | nil => cases h
  | cons first rest ih =>
    rw [bracketsOfItems]
    rcases List.mem_cons.mp h with rfl | h
    · exact le_max_left _ _
    · exact (ih h).trans (le_max_right _ _)

theorem brackets_le_of_mem_members {member : String × Json} {members : List (String × Json)}
    (h : member ∈ members) : member.2.brackets ≤ bracketsOfMembers members := by
  induction members with
  | nil => cases h
  | cons first rest ih =>
    rw [bracketsOfMembers]
    rcases List.mem_cons.mp h with rfl | h
    · exact le_max_left _ _
    · exact (ih h).trans (le_max_right _ _)

theorem values?_draftItems {items : List Json} {depth : Nat}
    (h : ∀ item ∈ items, item.draft.value? depth = some item) :
    Draft.values? depth (draftItems items) = some items := by
  induction items with
  | nil => rfl
  | cons item rest ih =>
    obtain ⟨hItem, hRest⟩ := List.forall_mem_cons.mp h
    simp [draftItems, Draft.values?, hItem, ih hRest]

theorem members?_draftMembers {members : List (String × Json)} {depth : Nat}
    (h : ∀ member ∈ members, member.2.draft.value? depth = some member.2) :
    Draft.members? depth (draftMembers members) = some members := by
  induction members with
  | nil => rfl
  | cons member rest ih =>
    obtain ⟨hMember, hRest⟩ := List.forall_mem_cons.mp h
    simp [draftMembers, Draft.members?, hMember, ih hRest]

theorem IsExact.value?_draft {value : Json} (h : IsExact value) {depth : Nat}
    (hDepth : depth + value.brackets ≤ maxDepth) : value.draft.value? depth = some value := by
  induction h generalizing depth with
  | null => rfl
  | bool b => rfl
  | integer hFits => simp only [draft, Draft.value?, integer?_toString hFits]
  | string s => rfl
  | @array items _ ih =>
    rw [brackets] at hDepth
    have hItems : Draft.values? (depth + 1) (draftItems items) = some items := by
      apply values?_draftItems
      intro item hMem
      have hLess := brackets_le_of_mem_items hMem
      exact ih item hMem (by omega)
    have hRoom : depth < maxDepth := by omega
    simp [draft, Draft.value?, hRoom, hItems]
  | @object members _ ih =>
    rw [brackets] at hDepth
    have hMembers : Draft.members? (depth + 1) (draftMembers members) = some members := by
      apply members?_draftMembers
      intro member hMem
      have hLess := brackets_le_of_mem_members hMem
      exact ih member hMem (by omega)
    have hRoom : depth < maxDepth := by omega
    simp [draft, Draft.value?, hRoom, hMembers]

/-! ## Lists -/

theorem isExact_ofList {α : Type} {l : List α} {f : α → Json} (h : ∀ a ∈ l, (f a).IsExact) :
    (Json.ofList f l).IsExact := by
  refine .array fun item hMem => ?_
  obtain ⟨a, hIn, rfl⟩ := List.mem_map.mp hMem
  exact h a hIn

theorem bracketsOfItems_le {bound : Nat} {items : List Json}
    (h : ∀ item ∈ items, item.brackets ≤ bound) : bracketsOfItems items ≤ bound := by
  induction items with
  | nil => exact Nat.zero_le _
  | cons item rest ih =>
    obtain ⟨hFirst, hRest⟩ := List.forall_mem_cons.mp h
    exact max_le hFirst (ih hRest)

theorem brackets_ofList_le {α : Type} {bound : Nat} {f : α → Json} {l : List α}
    (h : ∀ a ∈ l, (f a).brackets ≤ bound) : (Json.ofList f l).brackets ≤ bound + 1 := by
  refine Nat.add_le_add_right (bracketsOfItems_le fun item hMem => ?_) 1
  obtain ⟨a, hIn, rfl⟩ := List.mem_map.mp hMem
  exact h a hIn

end Bindery.Json
