import Bindery.Json.Decode
import Bindery.Proofs.Json.Texts

/-! # Decoders that know a written value

A decoder knows a value if it takes the draft of the value for what was written, wherever the value
stands in a text whose brackets do not nest too deep. Records are known field by field: the members
of an object are found under their names again, and a field that is not written is filled in.
-/

namespace Bindery.Json

variable {α β : Type}

/-- The decoder takes the value for `a`. -/
def Decoder.Knows (decoder : Decoder α) (value : Json) (a : α) : Prop :=
  ∀ depth, depth + value.brackets ≤ maxDepth → decoder depth value.draft = .ok a

namespace Decoder

theorem knows_string (s : String) : Decoder.string.Knows (.string s) s := fun _ _ => rfl

theorem Knows.some {decoder : Decoder α} {value : Json} {a : α} (h : decoder.Knows value a)
    (hValue : value ≠ .null) : (Decoder.option decoder).Knows value (some a) := by
  intro depth hDepth
  have hDraft : value.draft ≠ .null := by
    cases value <;> simp_all [draft]
  have hRead := h depth hDepth
  unfold Decoder.option
  split
  · next hNull => exact absurd hNull hDraft
  · rw [hRead]
    rfl

theorem Knows.refine {decoder : Decoder α} {value : Json} {a : α} (h : decoder.Knows value a)
    {f : α → Except DomainFault β} {b : β} (hTest : f a = .ok b) :
    (Decoder.refine decoder f).Knows value b := by
  intro depth hDepth
  unfold Decoder.refine
  rw [h depth hDepth]
  change (f a).mapError Problem.refused = .ok b
  rw [hTest]
  rfl

theorem mapM_draftItems {decoder : Decoder α} {depth : Nat} {l : List α} {f : α → Json}
    (h : ∀ a ∈ l, decoder depth (f a).draft = .ok a) :
    (draftItems (l.map f)).mapM (decoder depth) = .ok l := by
  induction l with
  | nil => rfl
  | cons a rest ih =>
    obtain ⟨hFirst, hRest⟩ := List.forall_mem_cons.mp h
    rw [List.map_cons, draftItems, List.mapM_cons, hFirst, ih hRest]
    rfl

theorem knows_list {decoder : Decoder α} {l : List α} {f : α → Json}
    (h : ∀ a ∈ l, decoder.Knows (f a) a) : (Decoder.list decoder).Knows (Json.ofList f l) l := by
  intro depth hDepth
  rw [Json.ofList, brackets] at hDepth
  apply mapM_draftItems
  intro a hMem
  have hLess := brackets_le_of_mem_items (List.mem_map_of_mem (f := f) hMem)
  exact h a hMem (depth + 1) (by omega)

theorem knows_variant {choices : List (String × α)} {name : String} {a : α}
    (h : choices.find? (fun choice => choice.1 = name) = some (name, a)) :
    (Decoder.variant choices).Knows (.string name) a := by
  intro _ _
  simp [draft, Decoder.variant, Decoder.variant.choose, h]

theorem knows_whole {form : String} {recognise : Draft → Option α} {value : Json} {a : α}
    (hExact : value.IsExact) (h : recognise value.draft = some a) :
    (Decoder.whole form recognise).Knows value a := by
  intro depth hDepth
  simp [Decoder.whole, hExact.value?_draft hDepth, h]

end Decoder

/-! ## Records -/

namespace Record

def member? (members : List (String × Json)) (name : String) : Option Json :=
  (members.find? fun m => m.1 = name).map (·.2)

/-- The fields hold exactly the members. -/
structure Hold (fields : Fields) (members : List (String × Json)) : Prop where
  found : fields.found.map (fun entry => (entry.1, entry.2.2)) =
    members.map fun m => (m.1, m.2.draft)
  room : ∀ m ∈ members, fields.depth + m.2.brackets ≤ maxDepth

/-- The record takes the members for `a`. -/
def Knows (record : Record α) (members : List (String × Json)) (a : α) : Prop :=
  ∀ fields, Hold fields members → record.read fields = .ok a

variable {members : List (String × Json)} {name : String} {decoder : Decoder α}

theorem Hold.find? {fields : Fields} (h : Hold fields members) (name : String) :
    (fields.found.find? fun entry => entry.1 = name).map (·.2.2) =
      (member? members name).map draft := by
  have hFind := congrArg (·.find? fun pair => decide (pair.1 = name)) h.found
  simp only [List.find?_map, Function.comp_def] at hFind
  simpa [member?, Function.comp_def] using congrArg (·.map (·.2)) hFind

theorem knows_field {absent : Fields → Placed α} {value : Json} {a : α}
    (hMember : member? members name = some value) (h : decoder.Knows value a) :
    (field name decoder absent).Knows members a := by
  intro fields hHold
  have hFound := hHold.find? name
  obtain ⟨m, hFind, rfl⟩ := Option.map_eq_some_iff.mp hMember
  rw [hMember, Option.map_some] at hFound
  obtain ⟨⟨_, place, draft⟩, hEntry, rfl⟩ := Option.map_eq_some_iff.mp hFound
  have hRead := h fields.depth (hHold.room m (List.mem_of_find?_eq_some hFind))
  simp [field, hEntry, hRead, Except.mapError]

theorem knows_absent {value : α} (hMember : member? members name = none) :
    (defaulted name decoder value).Knows members value := by
  intro fields hHold
  have hFound := hHold.find? name
  rw [hMember, Option.map_none, Option.map_eq_none_iff] at hFound
  simp only [defaulted, field, hFound]

/-- A field that is left out where there is no value. -/
theorem knows_optional {f : α → Json} {value : Option α}
    (hMember : member? members name = value.map f) (h : ∀ a, decoder.Knows (f a) a)
    (hSome : ∀ a, f a ≠ .null) : (defaulted name (.option decoder) none).Knows members value := by
  cases value with
  | none => exact knows_absent hMember
  | some a => exact knows_field hMember ((h a).some (hSome a))

/-- A list that is left out where it has no elements. -/
theorem knows_nonempty {f : α → Json} {l : List α}
    (hMember : member? members name = (nonempty name f l).head?.map (·.2))
    (h : ∀ a ∈ l, decoder.Knows (f a) a) :
    (defaulted name (.list decoder) []).Knows members l := by
  cases l with
  | nil => exact knows_absent hMember
  | cons a rest => exact knows_field hMember (Decoder.knows_list h)

theorem Knows.map {record : Record α} {a : α} (h : record.Knows members a) (f : α → β) :
    (record.map f).Knows members (f a) := by
  intro fields hHold
  change (record.read fields).map f = _
  rw [h fields hHold]
  rfl

theorem Knows.zip {first : Record α} {second : Record β} {a : α} {b : β}
    (hFirst : first.Knows members a) (hSecond : second.Knows members b) :
    (first.zip second).Knows members (a, b) := by
  intro fields hHold
  change both (first.read fields) (second.read fields) = _
  rw [hFirst fields hHold, hSecond fields hHold]
  rfl

/-- Members of known names, no two alike, are all found, and reading stops nowhere. -/
theorem sortMembers_draftMembers {names : List String} {found : List (String × Nat × Draft)}
    (hKnown : ∀ m ∈ members, m.1 ∈ names)
    (hDistinct : (found.map (·.1) ++ members.map (·.1)).Nodup) (place : Nat) :
    ∃ more, sortMembers names place found (draftMembers members) = (found ++ more, none) ∧
      more.map (fun entry => (entry.1, entry.2.2)) = members.map fun m => (m.1, m.2.draft) := by
  induction members generalizing found place with
  | nil => exact ⟨[], by simp [sortMembers, draftMembers], rfl⟩
  | cons m rest ih =>
    obtain ⟨hFirst, hRest⟩ := List.forall_mem_cons.mp hKnown
    have hNew : found.any (fun entry => entry.1 = m.1) = false := by
      rw [List.any_eq_false]
      intro entry hMem hSame
      have hName : entry.1 = m.1 := by simpa using hSame
      have hApart := (List.nodup_append.mp hDistinct).2.2
      exact hApart entry.1 (List.mem_map_of_mem hMem) m.1 (by simp) hName
    have hDistinct' : ((found ++ [(m.1, place, m.2.draft)]).map (·.1) ++ rest.map (·.1)).Nodup := by
      simpa using hDistinct
    obtain ⟨more, hSort, hMore⟩ := ih hRest hDistinct' (place + 1)
    refine ⟨(m.1, place, m.2.draft) :: more, ?_, by simp [hMore]⟩
    simp [draftMembers, sortMembers, hFirst, hNew, hSort]

/-- An object is read whose members are fields of the record in their order. -/
theorem Knows.ofMembers {record : Record α} {a : α} (h : record.Knows members a)
    (hNames : (members.map (·.1)).Sublist record.names) (hDistinct : record.names.Nodup) :
    record.decoder.Knows (.object members) a := by
  intro depth hDepth
  have hKnown : ∀ m ∈ members, m.1 ∈ record.names := by
    intro m hMem
    exact hNames.subset (List.mem_map_of_mem hMem)
  rw [brackets] at hDepth
  have hNew : (([] : List (String × Nat × Draft)).map (·.1) ++ members.map (·.1)).Nodup :=
    hNames.nodup hDistinct
  obtain ⟨found, hSort, hFound⟩ := sortMembers_draftMembers hKnown hNew 0
  simp only [draft, Record.decoder, Record.ofMembers, hSort, List.nil_append]
  rw [h _ ⟨hFound, ?_⟩]
  · rfl
  · intro m hMem
    have hLess := brackets_le_of_mem_members hMem
    simp only
    omega

end Record

theorem sublist_optional (name : String) (f : α → Json) (value : Option α) :
    ((optional name f value).map (·.1)).Sublist [name] := by
  cases value with
  | none => exact List.nil_sublist _
  | some a => exact .refl _

theorem sublist_nonempty (name : String) (f : α → Json) (l : List α) :
    ((nonempty name f l).map (·.1)).Sublist [name] := by
  cases l with
  | nil => exact List.nil_sublist _
  | cons a rest => exact .refl _

theorem decodeText_eq_ok {decoder : Decoder α} {value : Json} {s : String} {a : α}
    (hText : Spelled value s.toList) (h : decoder.Knows value a)
    (hDepth : value.brackets ≤ maxDepth) : decodeText decoder s = .ok a := by
  have hRead := h 0 (by omega)
  simp only [decodeText, scan_spelled hText, hRead]
  rfl

end Bindery.Json
