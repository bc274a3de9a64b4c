import Bindery.Json.Decode
import Bindery.Proofs.Results

/-! # What decoders yield

A decoder yields values with a property if it never accepts a draft for any other value. Decoders
are put together from others, and so is what they yield. Nothing is asked of the text.
-/

namespace Bindery.Json

variable {α β : Type} {P : α → Prop} {Q : β → Prop}

/-- Whatever the decoder takes a draft for has the property. -/
def Decoder.Yields (decoder : Decoder α) (P : α → Prop) : Prop :=
  ∀ depth draft a, decoder depth draft = .ok a → P a

/-- Whatever the record is read as has the property. -/
def Record.Yields (record : Record α) (P : α → Prop) : Prop :=
  ∀ fields a, record.read fields = .ok a → P a

namespace Decoder

/-- A test yields what it lets through. -/
theorem yields_refine {decoder : Decoder α} {f : α → Except DomainFault β}
    (h : ∀ a b, f a = .ok b → Q b) : (Decoder.refine decoder f).Yields Q := by
  intro depth draft b hRead
  obtain ⟨a, _, hTest⟩ := bind_eq_ok_iff.mp hRead
  exact h a b (mapError_eq_ok_iff.mp hTest)

theorem Yields.list {decoder : Decoder α} (h : decoder.Yields P) :
    (Decoder.list decoder).Yields fun l => ∀ a ∈ l, P a := by
  intro depth draft l hRead
  unfold Decoder.list at hRead
  split at hRead
  · exact forall_mem_of_mapM (fun item a => h _ item a) hRead
  · cases hRead

theorem yields_whole {form : String} {recognise : Draft → Option α}
    (h : ∀ draft a, recognise draft = some a → P a) : (Decoder.whole form recognise).Yields P := by
  intro depth draft a hRead
  unfold Decoder.whole at hRead
  split at hRead
  · cases hRead
  · split at hRead
    · next found hFound =>
      cases hRead
      exact h draft _ hFound
    · cases hRead

theorem Yields.required {decoder : Decoder α} (h : decoder.Yields P) (name : String) :
    (Record.required name decoder).Yields P := by
  intro fields a hRead
  unfold Record.required Record.field at hRead
  simp only at hRead
  split at hRead
  · exact h _ _ a (mapError_eq_ok_iff.mp hRead)
  · cases hRead

theorem Yields.decodeText {decoder : Decoder α} (h : decoder.Yields P) {s : String} {a : α}
    (hRead : Json.decodeText decoder s = .ok a) : P a := by
  obtain ⟨b, hRoot, hEnd⟩ := bind_eq_ok_iff.mp hRead
  split at hEnd
  · cases hEnd
    exact h _ _ _ hRoot
  · cases hEnd

end Decoder

namespace Record

theorem Yields.map {record : Record α} {f : α → β} (h : record.Yields fun a => Q (f a)) :
    (record.map f).Yields Q := by
  intro fields b hRead
  obtain ⟨a, hParts, rfl⟩ := map_eq_ok_iff.mp hRead
  exact h fields a hParts

/-- A part of a record is read as on its own. -/
theorem Yields.zip_left {first : Record α} (h : first.Yields P) (second : Record β) :
    (first.zip second).Yields fun pair => P pair.1 := by
  rintro fields ⟨a, b⟩ hRead
  change both (first.read fields) (second.read fields) = .ok (a, b) at hRead
  unfold both at hRead
  split at hRead
  · next hFirst _ =>
    cases hRead
    exact h fields _ hFirst
  all_goals cases hRead

theorem eq_ok_of_settle {stop : Option (Nat × Problem)} {result : Placed α} {a : α}
    (h : settle stop result = .ok a) : result = .ok a := by
  unfold settle at h
  split at h <;> cases h
  rfl

theorem Yields.ofMembers {record : Record α} (h : record.Yields P) {depth : Nat}
    {members : List (Draft × Draft)} {a : α} (hRead : record.ofMembers depth members = .ok a) :
    P a :=
  h _ a (eq_ok_of_settle hRead)

theorem Yields.decoder {record : Record α} (h : record.Yields P) : record.decoder.Yields P := by
  intro depth draft a hRead
  unfold Record.decoder at hRead
  split at hRead
  · exact h.ofMembers hRead
  · exact h _ a (eq_ok_of_settle hRead)
  · cases hRead

end Record

end Bindery.Json
