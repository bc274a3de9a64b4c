import Bindery.Emission.Manifest
import Bindery.Proofs.Json.Decoding

/-! # Manifests are read as they were written

Nothing but texts and lists of texts stands in a manifest, at most four brackets deep, so every
manifest that is written can be read again.
-/

namespace Bindery

open Json (Decoder Record)

namespace ManifestEntry

theorem knows (e : ManifestEntry) : fields.decoder.Knows e.toJson e := by
  let front := [("package", Json.string e.package), ("file", .string e.file),
    ("path", .string e.path), ("generator", .string e.generator), ("sha256", .string e.sha256)]
  have hProvenance : Record.member? (front ++ Json.nonempty "provenance" .string e.provenance)
      "provenance" = (Json.nonempty "provenance" .string e.provenance).head?.map (·.2) := by
    cases e.provenance <;> rfl
  have hFields : fields.Knows (front ++ Json.nonempty "provenance" .string e.provenance) e :=
    ((Record.knows_field rfl (Decoder.knows_string e.package)).zip
      ((Record.knows_field rfl (Decoder.knows_string e.file)).zip
      ((Record.knows_field rfl (Decoder.knows_string e.path)).zip
      ((Record.knows_field rfl (Decoder.knows_string e.generator)).zip
      ((Record.knows_field rfl (Decoder.knows_string e.sha256)).zip
      (Record.knows_nonempty hProvenance fun s _ => Decoder.knows_string s)))))).map _
  refine hFields.ofMembers ?_ (by decide)
  rw [List.map_append]
  exact (List.Sublist.refl _).append (Json.sublist_nonempty "provenance" .string e.provenance)

theorem isExact (e : ManifestEntry) : e.toJson.IsExact := by
  refine .object (List.forall_mem_append.mpr ⟨by simp [Json.IsExact.string], ?_⟩)
  cases e.provenance with
  | nil => simp [Json.nonempty]
  | cons first rest =>
    have hList : (Json.ofList Json.string (first :: rest)).IsExact :=
      Json.isExact_ofList fun s _ => .string s
    simpa [Json.nonempty] using hList

theorem brackets_le (e : ManifestEntry) : e.toJson.brackets ≤ 2 := by
  have hList (l : List String) : (Json.ofList Json.string l).brackets ≤ 1 :=
    Json.brackets_ofList_le fun s _ => Nat.le_refl 0
  cases hProvenance : e.provenance with
  | nil => simp [toJson, hProvenance, Json.nonempty, Json.brackets, Json.bracketsOfMembers]
  | cons first rest =>
    have hOne := hList (first :: rest)
    simp [toJson, hProvenance, Json.nonempty, Json.brackets, Json.bracketsOfMembers] at hOne ⊢
    omega

end ManifestEntry

namespace Manifest

theorem knows (m : Manifest) : decoder.Knows m.toJson m := by
  have hUnits := Decoder.knows_list fun e (_ : e ∈ m.units) => e.knows
  have hFields : fields.Knows [("version", .string m.version),
      ("generated_at", .string m.generatedAt), ("units", .ofList ManifestEntry.toJson m.units)] m :=
    ((Record.knows_field rfl (Decoder.knows_string m.version)).zip
      ((Record.knows_field rfl (Decoder.knows_string m.generatedAt)).zip
      (Record.knows_field rfl hUnits))).map _
  exact hFields.ofMembers (.refl _) (by decide)

theorem isExact (m : Manifest) : m.toJson.IsExact := by
  have hUnits : (Json.ofList ManifestEntry.toJson m.units).IsExact :=
    Json.isExact_ofList fun e _ => e.isExact
  exact .object (by simpa using ⟨.string _, .string _, hUnits⟩)

theorem brackets_le (m : Manifest) : m.toJson.brackets ≤ 4 := by
  have hUnits : (Json.ofList ManifestEntry.toJson m.units).brackets ≤ 3 :=
    Json.brackets_ofList_le fun e _ => e.brackets_le
  simp [toJson, Json.brackets, Json.bracketsOfMembers] at hUnits ⊢
  omega

/-- The indented text of a manifest is read as the manifest. -/
theorem decodeText_pretty (m : Manifest) : Json.decodeText decoder m.toJson.pretty = .ok m :=
  Json.decodeText_eq_ok (m.isExact.spelled_prettyAt 0) m.knows
    (m.brackets_le.trans (by decide))

end Manifest

end Bindery
