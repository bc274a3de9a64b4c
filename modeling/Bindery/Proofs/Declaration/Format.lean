import Bindery.Declaration.Format
import Bindery.Proofs.Json.Decoding
import Bindery.Proofs.Naming.Parsing

/-! # Declarations are read as they were written

A declaration can be written if its class names were read from text and its integers have 64 bits.
The decoder of each part knows what is written for it: leaves by their form, records by the names of
their fields, and literal values by the one form that fits.
-/

namespace Bindery

open Json (Decoder Draft Record)

theorem ClassName.Read.knows {c : ClassName} (h : c.Read) : ClassName.decoder.Knows c.toJson c :=
  (Decoder.knows_string c.canonical).refine h.parse_canonical

theorem DeclarationKind.knows (kind : DeclarationKind) :
    DeclarationKind.decoder.Knows (.string kind.name) kind := by
  apply Decoder.knows_variant
  cases kind <;> decide

namespace AnnotationValue

/-- Class names were read from text, and integers have 64 bits. -/
inductive IsWritable : AnnotationValue → Prop
  | bool (b : Bool) : IsWritable (.bool b)
  | int {n : Int} : fitsSigned 63 n = true → IsWritable (.int n)
  | str (s : String) : IsWritable (.str s)
  | classRef {c : ClassName} : c.Read → IsWritable (.classRef c)
  | array {items : List AnnotationValue} :
      (∀ item ∈ items, IsWritable item) → IsWritable (.array items)

variable {value : AnnotationValue}

theorem toJsonAll_eq_map (items : List AnnotationValue) : toJsonAll items = items.map toJson := by
  induction items with
  | nil => rfl
  | cons item rest ih => rw [toJsonAll, ih, List.map_cons]

theorem IsWritable.isExact (h : value.IsWritable) : value.toJson.IsExact := by
  induction h with
  | bool b => exact .bool b
  | int hFits => exact .integer hFits
  | str s => exact .string s
  | classRef _ => exact .object (by simpa using .string _)
  | @array items _ ih =>
    rw [toJson, toJsonAll_eq_map]
    exact Json.isExact_ofList ih

theorem recogniseAll?_draftItems {items : List AnnotationValue}
    (h : ∀ item ∈ items, recognise? item.toJson.draft = some item) :
    recogniseAll? (Json.draftItems (toJsonAll items)) = some items := by
  induction items with
  | nil => rfl
  | cons item rest ih =>
    obtain ⟨hItem, hRest⟩ := List.forall_mem_cons.mp h
    simp [toJsonAll, Json.draftItems, recogniseAll?, hItem, ih hRest]

theorem knows_classMembers {c : ClassName} (h : c.Read) :
    classMembers.decoder.Knows (.object [("class", c.toJson)]) c :=
  (Record.knows_field rfl h.knows).ofMembers (.refl _) (by decide)

/-- Each literal has the form of its own kind only. -/
theorem IsWritable.recognise?_draft (h : value.IsWritable) :
    recognise? value.toJson.draft = some value := by
  induction h with
  | bool b => rfl
  | int hFits =>
    simp only [toJson, Json.draft, recognise?, Json.integer?_toString hFits, hFits, if_pos]
  | str s => rfl
  | @classRef c hRead =>
    have hMembers : classMembers.ofMembers 0 (Json.draftMembers [("class", c.toJson)]) = .ok c :=
      knows_classMembers hRead 0 (show 1 ≤ 127 by decide)
    simp [toJson, Json.draft, recognise?, hMembers, Except.toOption]
  | @array items _ ih => simp [toJson, Json.draft, recognise?, recogniseAll?_draftItems ih]

theorem IsWritable.knows (h : value.IsWritable) : decoder.Knows value.toJson value :=
  Decoder.knows_whole h.isExact h.recognise?_draft

end AnnotationValue

namespace AnnotationArgument

def IsWritable (a : AnnotationArgument) : Prop := a.value.IsWritable

theorem IsWritable.knows {a : AnnotationArgument} (h : a.IsWritable) :
    fields.decoder.Knows a.toJson a := by
  have hValue : AnnotationValue.decoder.Knows a.value.toJson a.value :=
    AnnotationValue.IsWritable.knows h
  have hName : Record.member? (Json.optional "name" .string a.name ++ [("value", a.value.toJson)])
      "name" = a.name.map .string := by
    cases a.name <;> rfl
  have hFields : fields.Knows (Json.optional "name" .string a.name ++ [("value", a.value.toJson)])
      a :=
    ((Record.knows_optional hName Decoder.knows_string nofun).zip
      (Record.knows_field (by cases a.name <;> rfl) hValue)).map _
  refine hFields.ofMembers ?_ (by decide)
  rw [List.map_append]
  exact (Json.sublist_optional "name" .string a.name).append (.refl ["value"])

theorem IsWritable.isExact {a : AnnotationArgument} (h : a.IsWritable) : a.toJson.IsExact := by
  obtain ⟨name, value⟩ := a
  have hValue : value.toJson.IsExact := AnnotationValue.IsWritable.isExact h
  cases name with
  | none => exact .object (by simpa [Json.optional] using hValue)
  | some name => exact .object (by simpa [Json.optional] using ⟨.string name, hValue⟩)

end AnnotationArgument

namespace Annotation

structure IsWritable (a : Annotation) : Prop where
  annotationClass : a.annotationClass.Read
  arguments : ∀ argument ∈ a.arguments, argument.IsWritable

theorem IsWritable.knows {a : Annotation} (h : a.IsWritable) :
    fields.decoder.Knows a.toJson a := by
  have hArguments := Decoder.knows_list fun argument hMem => (h.arguments argument hMem).knows
  have hFields : fields.Knows [("class", a.annotationClass.toJson),
      ("arguments", .ofList (·.toJson) a.arguments)] a :=
    ((Record.knows_field rfl h.annotationClass.knows).zip (Record.knows_field rfl hArguments)).map _
  exact hFields.ofMembers (.refl _) (by decide)

theorem IsWritable.isExact {a : Annotation} (h : a.IsWritable) : a.toJson.IsExact := by
  have hArguments := Json.isExact_ofList fun argument hMem => (h.arguments argument hMem).isExact
  exact .object (by simpa using ⟨.string _, hArguments⟩)

end Annotation

namespace Parameter

structure IsWritable (p : Parameter) : Prop where
  type : p.type.Read
  annotations : ∀ annotation ∈ p.annotations, annotation.IsWritable

theorem IsWritable.knows {p : Parameter} (h : p.IsWritable) : fields.decoder.Knows p.toJson p := by
  have hAnnotations := Decoder.knows_list fun annotation hMem =>
    (h.annotations annotation hMem).knows
  have hFields : fields.Knows [("name", .string p.name), ("type", p.type.toJson),
      ("annotations", .ofList (·.toJson) p.annotations)] p :=
    ((Record.knows_field rfl (Decoder.knows_string p.name)).zip
      ((Record.knows_field rfl h.type.knows).zip (Record.knows_field rfl hAnnotations))).map _
  exact hFields.ofMembers (.refl _) (by decide)

theorem IsWritable.isExact {p : Parameter} (h : p.IsWritable) : p.toJson.IsExact := by
  have hAnnotations := Json.isExact_ofList fun annotation hMem =>
    (h.annotations annotation hMem).isExact
  exact .object (by simpa using ⟨.string _, .string _, hAnnotations⟩)

end Parameter

namespace Constructor

structure IsWritable (c : Constructor) : Prop where
  annotations : ∀ annotation ∈ c.annotations, annotation.IsWritable
  parameters : ∀ parameter ∈ c.parameters, parameter.IsWritable

theorem IsWritable.knows {c : Constructor} (h : c.IsWritable) :
    fields.decoder.Knows c.toJson c := by
  have hAnnotations := Decoder.knows_list fun annotation hMem =>
    (h.annotations annotation hMem).knows
  have hParameters := Decoder.knows_list fun parameter hMem => (h.parameters parameter hMem).knows
  have hFields : fields.Knows [("annotations", .ofList (·.toJson) c.annotations),
      ("parameters", .ofList (·.toJson) c.parameters)] c :=
    ((Record.knows_field rfl hAnnotations).zip (Record.knows_field rfl hParameters)).map _
  exact hFields.ofMembers (.refl _) (by decide)

theorem IsWritable.isExact {c : Constructor} (h : c.IsWritable) : c.toJson.IsExact := by
  have hAnnotations := Json.isExact_ofList fun annotation hMem =>
    (h.annotations annotation hMem).isExact
  have hParameters := Json.isExact_ofList fun parameter hMem =>
    (h.parameters parameter hMem).isExact
  exact .object (by simpa using ⟨hAnnotations, hParameters⟩)

end Constructor

namespace Declaration

structure IsWritable (d : Declaration) : Prop where
  name : d.name.Read
  supertypes : ∀ supertype ∈ d.supertypes, supertype.Read
  annotations : ∀ annotation ∈ d.annotations, annotation.IsWritable
  constructors : ∀ constructor ∈ d.constructors, constructor.IsWritable

theorem IsWritable.knows {d : Declaration} (h : d.IsWritable) : decoder.Knows d.toJson d := by
  have hSupertypes := Decoder.knows_list fun supertype hMem => (h.supertypes supertype hMem).knows
  have hAnnotations := Decoder.knows_list fun annotation hMem =>
    (h.annotations annotation hMem).knows
  have hConstructors := Decoder.knows_list fun constructor hMem =>
    (h.constructors constructor hMem).knows
  let front := [("name", d.name.toJson), ("kind", .string d.kind.name),
    ("supertypes", .ofList (·.toJson) d.supertypes),
    ("annotations", .ofList (·.toJson) d.annotations),
    ("constructors", .ofList (·.toJson) d.constructors)]
  have hSource : Record.member? (front ++ Json.optional "source_file" .string d.sourceFile)
      "source_file" = d.sourceFile.map .string := by
    cases d.sourceFile <;> rfl
  have hFields : fields.Knows (front ++ Json.optional "source_file" .string d.sourceFile) d :=
    ((Record.knows_field rfl h.name.knows).zip ((Record.knows_field rfl d.kind.knows).zip
      ((Record.knows_field rfl hSupertypes).zip ((Record.knows_field rfl hAnnotations).zip
      ((Record.knows_field rfl hConstructors).zip
      (Record.knows_optional hSource Decoder.knows_string nofun)))))).map _
  refine hFields.ofMembers ?_ (by decide)
  rw [List.map_append]
  exact (List.Sublist.refl _).append (Json.sublist_optional "source_file" .string d.sourceFile)

theorem IsWritable.isExact {d : Declaration} (h : d.IsWritable) : d.toJson.IsExact := by
  have hSupertypes : (Json.ofList (·.toJson) d.supertypes).IsExact :=
    Json.isExact_ofList fun supertype _ => .string supertype.canonical
  have hAnnotations := Json.isExact_ofList fun annotation hMem =>
    (h.annotations annotation hMem).isExact
  have hConstructors := Json.isExact_ofList fun constructor hMem =>
    (h.constructors constructor hMem).isExact
  refine .object ?_
  cases d.sourceFile with
  | none =>
    simpa [Json.optional] using ⟨.string _, .string _, hSupertypes, hAnnotations, hConstructors⟩
  | some sourceFile =>
    simpa [Json.optional] using
      ⟨.string _, .string _, hSupertypes, hAnnotations, hConstructors, .string _⟩

end Declaration

end Bindery
