import Bindery.Source.Imports
import Bindery.Source.Printer

/-! # The classes that a text is written with

Printing takes a spelling of class names. A class is written if the text depends on how this class
is spelled. The text of a tree holds the spelling of every class that the tree names, and it depends
on no other spelling, so that just these classes are written.
-/

namespace Bindery.Source

/-- The text depends on how the class is spelled. -/
def Writes (print : Spelling → String) (c : ClassName) : Prop :=
  ∃ spell spell' : Spelling, (∀ d, d ≠ c → spell d = spell' d) ∧ print spell ≠ print spell'

/-- The text is determined by the spelling of some classes, and it shows the spelling of each. -/
structure Spells (print : Spelling → String) (classes : List ClassName) : Prop where
  determined : ∀ spell spell' : Spelling, (∀ c ∈ classes, spell c = spell' c) →
    print spell = print spell'
  shown : ∀ spell : Spelling, ∀ c ∈ classes, (spell c).toList <:+: (print spell).toList

/-- The text of some lines, each of them ended. -/
def text (lines : List String) : String := String.join (lines.map (· ++ "\n"))

namespace Spells

variable {p q : Spelling → String} {l m : List ClassName} {c : ClassName}

/-- A long spelling shows in a text that was short before. -/
theorem writes_iff (h : Spells p l) : Writes p c ↔ c ∈ l := by
  constructor
  · rintro ⟨spell, spell', hOthers, hTexts⟩
    by_cases hMem : c ∈ l
    · exact hMem
    · refine absurd (h.determined spell spell' fun d hMem' => hOthers d ?_) hTexts
      rintro rfl
      exact hMem hMem'
  · intro hMem
    let short : Spelling := fun _ => ""
    let long : Spelling := fun d => if d = c then p short ++ "." else ""
    refine ⟨long, short, fun d hOther => if_neg hOther, fun hSame => ?_⟩
    have hLong : long c = p short ++ "." := if_pos rfl
    have hDot : ".".toList.length = 1 := rfl
    have hLength := (h.shown long c hMem).length_le
    rw [hSame, hLong, String.toList_append, List.length_append, hDot] at hLength
    omega

theorem congr (h : Spells p l) (hSame : ∀ c, c ∈ m ↔ c ∈ l) : Spells p m where
  determined spell spell' hAgree :=
    h.determined spell spell' fun c hMem => hAgree c ((hSame c).mpr hMem)
  shown spell c hMem := h.shown spell c ((hSame c).mp hMem)

theorem fixed (s : String) : Spells (fun _ => s) [] where
  determined _ _ _ := rfl
  shown _ _ hMem := nomatch hMem

theorem spelled (c : ClassName) : Spells (fun spell => spell c) [c] where
  determined spell spell' hAgree := hAgree c List.mem_cons_self
  shown spell d hMem := by
    obtain rfl := List.mem_singleton.mp hMem
    exact List.infix_rfl

theorem append (hp : Spells p l) (hq : Spells q m) :
    Spells (fun spell => p spell ++ q spell) (l ++ m) where
  determined spell spell' hAgree := by
    obtain ⟨hLeft, hRight⟩ := List.forall_mem_append.mp hAgree
    rw [hp.determined spell spell' hLeft, hq.determined spell spell' hRight]
  shown spell c hMem := by
    rw [String.toList_append]
    rcases List.mem_append.mp hMem with hMem | hMem
    · exact (hp.shown spell c hMem).trans (List.prefix_append _ _).isInfix
    · exact (hq.shown spell c hMem).trans (List.suffix_append _ _).isInfix

theorem before (s : String) (h : Spells p l) : Spells (fun spell => s ++ p spell) l :=
  (fixed s).append h

theorem behind (s : String) (h : Spells p l) : Spells (fun spell => p spell ++ s) l :=
  (h.append (fixed s)).congr fun c => by rw [List.append_nil]

section Items

variable {α : Type} {item : α → Spelling → String} {classes : α → List ClassName}

theorem join (items : List α) (h : ∀ a ∈ items, Spells (item a) (classes a)) :
    Spells (fun spell => String.join (items.map fun a => item a spell))
      (items.flatMap classes) := by
  induction items with
  | nil => exact fixed ""
  | cons a items ih =>
    obtain ⟨hFirst, hRest⟩ := List.forall_mem_cons.mp h
    simp only [List.map_cons, String.join_cons, List.flatMap_cons]
    exact hFirst.append (ih hRest)

theorem commas (items : List α) (h : ∀ a ∈ items, Spells (item a) (classes a)) :
    Spells (fun spell => Source.commas (items.map fun a => item a spell))
      (items.flatMap classes) := by
  unfold Source.commas
  induction items with
  | nil => exact fixed ""
  | cons a items ih =>
    obtain ⟨hFirst, hRest⟩ := List.forall_mem_cons.mp h
    cases items with
    | nil =>
      simp only [List.map_cons, List.map_nil, String.intercalate_singleton, List.flatMap_cons,
        List.flatMap_nil, List.append_nil]
      exact hFirst
    | cons b items =>
      simp only [List.map_cons, String.intercalate_cons_cons, List.flatMap_cons]
      exact (hFirst.behind ", ").append (ih hRest)

end Items

/-! ## Lines -/

theorem text_append (lines lines' : List String) :
    text (lines ++ lines') = text lines ++ text lines' := by
  rw [text, List.map_append, String.join_append]
  rfl

theorem line (h : Spells p l) : Spells (fun spell => text [p spell]) l := by
  have hText (s : String) : text [s] = s ++ "\n" := by simp [text, String.join_cons]
  simp only [hText]
  exact h.behind "\n"

variable {lines lines' : Spelling → List String}

theorem lines_append (h : Spells (fun spell => text (lines spell)) l)
    (h' : Spells (fun spell => text (lines' spell)) m) :
    Spells (fun spell => text (lines spell ++ lines' spell)) (l ++ m) := by
  simp only [text_append]
  exact h.append h'

theorem lines_map {α : Type} {item : α → Spelling → String} {classes : α → List ClassName}
    (items : List α) (h : ∀ a ∈ items, Spells (item a) (classes a)) :
    Spells (fun spell => text (items.map fun a => item a spell)) (items.flatMap classes) := by
  simp only [text, List.map_map]
  exact join items fun a hMem => (h a hMem).behind "\n"

/-- A list of blocks with blank lines between them. -/
theorem separated (blocks : List ((Spelling → List String) × List ClassName))
    (h : ∀ b ∈ blocks, Spells (fun spell => text (b.1 spell)) b.2) :
    Spells (fun spell => text (Source.separated (blocks.map fun b => b.1 spell)))
      (blocks.flatMap (·.2)) := by
  induction blocks with
  | nil => exact fixed ""
  | cons b blocks ih =>
    obtain ⟨hFirst, hRest⟩ := List.forall_mem_cons.mp h
    cases blocks with
    | nil =>
      simp only [List.map_cons, List.map_nil, Source.separated, List.flatMap_cons,
        List.flatMap_nil, List.append_nil]
      exact hFirst
    | cons b' blocks =>
      have hBlank (lines : List String) : text ("" :: lines) = "\n" ++ text lines := by
        rw [text, List.map_cons, String.join_cons]
        rfl
      have hBehind : Spells (fun spell => text ("" :: Source.separated
          ((b' :: blocks).map fun b => b.1 spell))) ((b' :: blocks).flatMap (·.2)) := by
        simp only [hBlank]
        exact (ih hRest).before "\n"
      exact hFirst.lines_append hBehind

end Spells

/-! ## Printing -/

theorem spells_classLiteral (c : ClassName) : Spells (fun spell => classLiteral spell c) [c] :=
  (Spells.spelled c).behind "::class"

theorem MemberValue.spells (v : MemberValue) : Spells (fun spell => v.print spell) v.classes := by
  cases v with
  | classLiteral c => exact spells_classLiteral c
  | classArray l =>
    have hItems := (Spells.commas l fun c _ => spells_classLiteral c).before "[" |>.behind "]"
    exact hItems.congr fun c => by simp [classes]
  | str s => exact .fixed (literal s)

theorem Member.spells (m : Member) : Spells (fun spell => m.print spell) m.value.classes := by
  unfold Member.print
  exact m.value.spells.before _

theorem AnnotationUse.spells (a : AnnotationUse) (target : String) :
    Spells (fun spell => a.printAt target spell) a.classes := by
  unfold printAt classes
  have hHead := (Spells.spelled a.annotationClass).before ("@" ++ target)
  cases a.members with
  | nil => exact hHead.behind ""
  | cons first rest =>
    have hMembers := Spells.commas (first :: rest) fun m _ => m.spells
    exact hHead.append (hMembers.before "(" |>.behind ")")

theorem spells_inline (l : List AnnotationUse) :
    Spells (fun spell => printInline spell l) (l.flatMap AnnotationUse.classes) :=
  .join l fun a _ => (a.spells "").behind " "

/-! ## Uses of types -/

/-- The classes that the members of an annotation name. -/
def AnnotationUse.values (a : AnnotationUse) : List ClassName :=
  a.members.flatMap fun m => m.value.classes

namespace TypeRef

mutual

/-- The classes that the members of annotations within a reference name. -/
def values : TypeRef → List ClassName
  | named _ => []
  | applied _ arguments => valuesOfAll arguments
  | producer bound => values bound
  | star => []
  | annotated annotations inner => annotations.flatMap AnnotationUse.values ++ values inner

def valuesOfAll : List TypeRef → List ClassName
  | [] => []
  | t :: rest => values t ++ valuesOfAll rest

end

theorem printAll_eq_map (spell : Spelling) (l : List TypeRef) :
    printAll spell l = l.map fun t => t.print spell := by
  induction l with
  | nil => rfl
  | cons t rest ih => rw [printAll, ih, List.map_cons]

theorem classesOfAll_eq_flatMap (l : List TypeRef) : classesOfAll l = l.flatMap classes := by
  induction l with
  | nil => rfl
  | cons t rest ih => rw [classesOfAll, ih, List.flatMap_cons]

theorem valuesOfAll_eq_flatMap (l : List TypeRef) : valuesOfAll l = l.flatMap values := by
  induction l with
  | nil => rfl
  | cons t rest ih => rw [valuesOfAll, ih, List.flatMap_cons]

/-- A reference is printed with the classes that it names and with those that the members of its
annotations name. -/
theorem spells (t : TypeRef) : Spells (fun spell => t.print spell) (t.classes ++ t.values) := by
  cases t with
  | named c => exact .spelled c
  | applied raw arguments =>
    have hArguments := Spells.commas arguments fun t _ => spells t
    simp only [print, printAll_eq_map]
    refine ((Spells.spelled raw).behind "<" |>.append hArguments |>.behind ">").congr fun c => ?_
    simp [classes, values, classesOfAll_eq_flatMap, valuesOfAll_eq_flatMap, and_or_left, exists_or]
  | producer bound => exact bound.spells.before "out "
  | star => exact .fixed "*"
  | annotated annotations inner =>
    refine ((spells_inline annotations).append inner.spells).congr fun c => ?_
    simp only [classes, values, AnnotationUse.classes, AnnotationUse.values, List.mem_append,
      List.mem_flatMap, List.mem_map, List.mem_cons]
    grind
termination_by sizeOf t

end TypeRef

/-- The references in the parameters of a constructor. -/
def Constructor.typeUses (c : Constructor) : List TypeRef := c.parameters.map (·.type)

/-- The references in the parameters of a function, and the one to what it returns. -/
def Function.typeUses (f : Function) : List TypeRef :=
  f.parameters.map (·.type) ++ f.returns.toList

namespace TypeDecl

mutual

/-- The references in a type: those to its supertypes, and those in its constructor, its functions
and the types inside it. -/
def typeUses : TypeDecl → List TypeRef
  | ⟨_, _, _, _, supertypes, primaryConstructor, functions, types⟩ =>
    supertypes ++ primaryConstructor.toList.flatMap Constructor.typeUses ++
      functions.flatMap Function.typeUses ++ typeUsesOfAll types

def typeUsesOfAll : List TypeDecl → List TypeRef
  | [] => []
  | t :: rest => typeUses t ++ typeUsesOfAll rest

end

end TypeDecl

/-- The classes that are named by the members of annotations on references. -/
def valuesOn (uses : List TypeRef) : List ClassName := uses.flatMap TypeRef.values

theorem valuesOn_append (uses uses' : List TypeRef) :
    valuesOn (uses ++ uses') = valuesOn uses ++ valuesOn uses' :=
  List.flatMap_append

/-! ## Declarations -/

theorem Parameter.spells (p : Parameter) :
    Spells (fun spell => p.print spell) (p.classes ++ p.type.values) := by
  have hText := (spells_inline p.annotations).behind p.property.words |>.behind p.name
    |>.behind ": " |>.append p.type.spells
  exact hText.congr fun c => by rw [classes, List.append_assoc]

theorem spells_parameters (l : List Parameter) : Spells (fun spell => printParameters spell l)
    (l.flatMap Parameter.classes ++ valuesOn (l.map (·.type))) := by
  have hText := (Spells.commas l fun p _ => p.spells).before "(" |>.behind ")"
  refine hText.congr fun c => ?_
  rw [valuesOn, List.flatMap_map]
  simp [and_or_left, exists_or]

theorem Constructor.spells (x : Constructor) :
    Spells (fun spell => x.print spell) (x.classes ++ valuesOn x.typeUses) := by
  have hAnnotations := Spells.join x.annotations fun a _ => (a.spells "").before " "
  have hParameters := spells_parameters x.parameters
  unfold print
  split
  · next hPlain =>
    have hNone : x.annotations = [] := by
      simpa using (Bool.and_eq_true_iff.mp hPlain).1
    refine (hParameters.before "").congr fun c => ?_
    simp [classes, typeUses, hNone]
  · let access := if x.modifiers.contains .privateAccess then " private" else ""
    have hText := hAnnotations.behind access |>.behind " constructor" |>.append hParameters
    exact hText.congr fun c => by rw [classes, typeUses, List.append_assoc]

theorem Body.spells (b : Body) : Spells (fun spell => b.print spell) [b.className] := by
  cases b with
  | returnNew c arguments =>
    exact (Spells.spelled c).before "return " |>.behind "(" |>.behind (commas arguments)
      |>.behind ")"
  | returnClass c => exact (spells_classLiteral c).before "return " |>.behind ".java"

theorem Spells.indented {p : Spelling → String} {l : List ClassName} (h : Spells p l)
    (depth : Nat) : Spells (fun spell => indent depth (p spell)) l :=
  h.before _

namespace Function

/-- The line that a function starts with, without what opens its body. -/
def signature (spell : Spelling) (owner : TypeKind) (f : Function) : String :=
  modifierWords owner f.modifiers ++ "fun " ++ f.name ++ printParameters spell f.parameters ++
    match f.returns with
    | some t => ": " ++ t.print spell
    | none => ""

/-- The lines of a function behind its annotations. -/
def definition (spell : Spelling) (depth : Nat) (owner : TypeKind) (f : Function) : List String :=
  match f.body with
  | none => [indent depth (f.signature spell owner)]
  | some body =>
    [indent depth (f.signature spell owner ++ " \x7b")] ++
      [indent (depth + 1) (body.print spell)] ++ [indent depth "\x7d"]

theorem lines_eq (spell : Spelling) (depth : Nat) (owner : TypeKind) (f : Function) :
    f.lines spell depth owner = f.annotations.map (fun a => indent depth (a.print spell)) ++
      f.definition spell depth owner := by
  unfold definition lines
  cases f.body <;> rfl

theorem spells_signature (f : Function) (owner : TypeKind) :
    Spells (fun spell => f.signature spell owner) (f.parameters.flatMap Parameter.classes ++
      valuesOn (f.parameters.map (·.type)) ++
      ((f.returns.map TypeRef.classes).getD [] ++ valuesOn f.returns.toList)) := by
  unfold signature
  refine ((spells_parameters f.parameters).before _).append ?_
  cases f.returns with
  | none => exact .fixed ""
  | some t => exact (t.spells.before ": ").congr fun c => by simp [valuesOn]

theorem spells_definition (f : Function) (depth : Nat) (owner : TypeKind) :
    Spells (fun spell => text (f.definition spell depth owner))
      (f.parameters.flatMap Parameter.classes ++ valuesOn (f.parameters.map (·.type)) ++
        ((f.returns.map TypeRef.classes).getD [] ++ valuesOn f.returns.toList) ++
        (f.body.map Body.className).toList) := by
  unfold definition
  cases f.body with
  | none => exact (f.spells_signature owner).indented depth |>.line |>.congr fun c => by simp
  | some body =>
    have hFirst := (f.spells_signature owner).behind " \x7b" |>.indented depth |>.line
    have hSecond := body.spells.indented (depth + 1) |>.line
    have hThird := (Spells.fixed (indent depth "\x7d")).line
    exact (hFirst.lines_append hSecond |>.lines_append hThird).congr fun c => by simp

theorem spells (f : Function) (depth : Nat) (owner : TypeKind) :
    Spells (fun spell => text (f.lines spell depth owner)) (f.classes ++ valuesOn f.typeUses) := by
  have hAnnotations := Spells.lines_map f.annotations fun a _ => (a.spells "").indented depth
  simp only [lines_eq]
  refine (hAnnotations.lines_append (f.spells_definition depth owner)).congr fun c => ?_
  simp only [classes, typeUses, valuesOn_append, List.mem_append]
  grind

end Function

namespace TypeDecl

/-- The blocks in the body of a type: its functions, and then the types inside it. -/
def members (spell : Spelling) (depth : Nat) (t : TypeDecl) : List (List String) :=
  t.functions.map (Function.lines spell depth t.kind) ++ linesOfAll spell depth t.types

/-- The text between the braces of a type. -/
def bodyText (spell : Spelling) (depth : Nat) (t : TypeDecl) : String :=
  text (separated (t.members spell depth))

/-- The classes that the body of a type names, apart from members of annotations on references. -/
def bodyClasses (t : TypeDecl) : List ClassName :=
  t.functions.flatMap Function.classes ++ classesOfAll t.types

/-- The references in the body of a type. -/
def bodyUses (t : TypeDecl) : List TypeRef :=
  t.functions.flatMap Function.typeUses ++ typeUsesOfAll t.types

theorem linesOfAll_eq_map (spell : Spelling) (depth : Nat) (l : List TypeDecl) :
    linesOfAll spell depth l = l.map fun t => t.lines spell depth := by
  induction l with
  | nil => rfl
  | cons t rest ih => rw [linesOfAll, ih, List.map_cons]

theorem classesOfAll_eq_flatMap (l : List TypeDecl) : classesOfAll l = l.flatMap classes := by
  induction l with
  | nil => rfl
  | cons t rest ih => rw [classesOfAll, ih, List.flatMap_cons]

theorem typeUsesOfAll_eq_flatMap (l : List TypeDecl) : typeUsesOfAll l = l.flatMap typeUses := by
  induction l with
  | nil => rfl
  | cons t rest ih => rw [typeUsesOfAll, ih, List.flatMap_cons]

/-- The line that a type starts with, without what opens its body. -/
def headOf (spell : Spelling) (t : TypeDecl) : String :=
  head spell t.kind t.name t.modifiers t.supertypes t.primaryConstructor

theorem spells_headOf (t : TypeDecl) : Spells (fun spell => t.headOf spell)
    ((t.primaryConstructor.map Constructor.classes).getD [] ++
      valuesOn (t.primaryConstructor.toList.flatMap Constructor.typeUses) ++
      (t.supertypes.flatMap TypeRef.classes ++ valuesOn t.supertypes)) := by
  unfold headOf head
  refine ((Spells.before _ ?_).append ?_)
  · cases t.primaryConstructor with
    | none => exact .fixed ""
    | some c => exact c.spells.congr fun c => by simp
  · cases t.supertypes with
    | nil => exact .fixed ""
    | cons first rest =>
      have hList := (Spells.commas (first :: rest) fun t _ => t.spells).before " : "
      refine hList.congr fun c => ?_
      simp only [valuesOn, List.mem_append, List.mem_flatMap, and_or_left, exists_or]

/-- The lines of a type behind its annotations. -/
def definition (spell : Spelling) (depth : Nat) (t : TypeDecl) : List String :=
  if t.functions.isEmpty && t.types.isEmpty then [indent depth (t.headOf spell)]
  else
    [indent depth (t.headOf spell ++ " \x7b")] ++ separated (t.members spell (depth + 1)) ++
      [indent depth "\x7d"]

theorem lines_eq (spell : Spelling) (depth : Nat) (t : TypeDecl) :
    t.lines spell depth = t.annotations.map (fun a => indent depth (a.print spell)) ++
      t.definition spell depth := by
  obtain ⟨kind, name, modifiers, annotations, supertypes, primaryConstructor, functions, types⟩ := t
  have hEmpty : (functions.map (Function.lines spell (depth + 1) kind) ++
      linesOfAll spell (depth + 1) types).isEmpty = (functions.isEmpty && types.isEmpty) := by
    rw [linesOfAll_eq_map]
    cases functions <;> cases types <;> rfl
  rw [lines, hEmpty]
  rfl

variable {t : TypeDecl} {depth : Nat}

theorem spells_body_of (hInner : ∀ inner ∈ t.types, Spells
      (fun spell => text (inner.lines spell depth)) (inner.classes ++ valuesOn inner.typeUses)) :
    Spells (fun spell => t.bodyText spell depth) (t.bodyClasses ++ valuesOn t.bodyUses) := by
  let blocks : List ((Spelling → List String) × List ClassName) :=
    t.functions.map (fun f =>
      (fun spell => f.lines spell depth t.kind, f.classes ++ valuesOn f.typeUses)) ++
    t.types.map fun inner =>
      (fun spell => inner.lines spell depth, inner.classes ++ valuesOn inner.typeUses)
  have hMembers (spell : Spelling) : t.members spell depth = blocks.map fun b => b.1 spell := by
    simp only [members, blocks, linesOfAll_eq_map, List.map_append, List.map_map]
    rfl
  have hBlocks : ∀ b ∈ blocks, Spells (fun spell => text (b.1 spell)) b.2 := by
    intro b hMem
    rcases List.mem_append.mp hMem with hMem | hMem
    · obtain ⟨f, _, rfl⟩ := List.mem_map.mp hMem
      exact f.spells depth t.kind
    · obtain ⟨inner, hIn, rfl⟩ := List.mem_map.mp hMem
      exact hInner inner hIn
  simp only [bodyText, hMembers]
  refine (Spells.separated blocks hBlocks).congr fun c => ?_
  simp only [blocks, bodyClasses, bodyUses, valuesOn, classesOfAll_eq_flatMap,
    typeUsesOfAll_eq_flatMap, List.flatMap_append, List.mem_append, List.mem_flatMap, List.mem_map]
  grind

theorem spells_definition_of (hBody : Spells (fun spell => t.bodyText spell (depth + 1))
      (t.bodyClasses ++ valuesOn t.bodyUses)) :
    Spells (fun spell => text (t.definition spell depth))
      ((t.primaryConstructor.map Constructor.classes).getD [] ++
        valuesOn (t.primaryConstructor.toList.flatMap Constructor.typeUses) ++
        (t.supertypes.flatMap TypeRef.classes ++ valuesOn t.supertypes) ++
        (t.bodyClasses ++ valuesOn t.bodyUses)) := by
  unfold definition
  split
  · next hNone =>
    obtain ⟨hFunctions, hTypes⟩ := Bool.and_eq_true_iff.mp hNone
    rw [List.isEmpty_iff] at hFunctions hTypes
    refine (t.spells_headOf.indented depth |>.line).congr fun c => ?_
    simp [bodyClasses, bodyUses, hFunctions, hTypes, classesOfAll, typeUsesOfAll, valuesOn]
  · have hFirst := t.spells_headOf.behind " \x7b" |>.indented depth |>.line
    have hLast := (Spells.fixed (indent depth "\x7d")).line
    exact (hFirst.lines_append hBody |>.lines_append hLast).congr fun c => by simp

/-- A type is printed with the classes that it names and with those that the members of annotations
on its references name. -/
theorem spells (t : TypeDecl) (depth : Nat) :
    Spells (fun spell => text (t.lines spell depth)) (t.classes ++ valuesOn t.typeUses) := by
  have hAnnotations := Spells.lines_map t.annotations fun a _ => (a.spells "").indented depth
  have hBody := spells_body_of fun inner (hIn : inner ∈ t.types) => spells inner (depth + 1)
  simp only [lines_eq]
  refine (hAnnotations.lines_append (spells_definition_of hBody)).congr fun c => ?_
  obtain ⟨kind, name, modifiers, annotations, supertypes, primaryConstructor, functions, types⟩ := t
  simp only [classes, typeUses, bodyClasses, bodyUses, valuesOn_append, List.mem_append]
  grind
termination_by sizeOf t
decreasing_by
  cases t
  have hSmaller := List.sizeOf_lt_of_mem hIn
  simp only [mk.sizeOf_spec] at hSmaller ⊢
  omega

theorem spells_body (t : TypeDecl) (depth : Nat) :
    Spells (fun spell => t.bodyText spell depth) (t.bodyClasses ++ valuesOn t.bodyUses) :=
  spells_body_of fun inner _ => inner.spells depth

end TypeDecl

/-! ## Files -/

namespace File

/-- The references in the types of a file. -/
def typeUses (file : File) : List TypeRef := TypeDecl.typeUsesOfAll file.types

theorem spells_paragraph {lines : Spelling → List String} {l : List ClassName} {empty : Bool}
    (hEmpty : ∀ spell, (lines spell).isEmpty = empty)
    (h : Spells (fun spell => text (lines spell)) l) :
    Spells (fun spell => text (paragraph (lines spell))) l := by
  cases empty with
  | true =>
    have hNil (spell : Spelling) : lines spell = [] := List.isEmpty_iff.mp (hEmpty spell)
    simp only [hNil] at h ⊢
    exact h
  | false =>
    have hParagraph (spell : Spelling) : paragraph (lines spell) = lines spell ++ [""] := by
      have hSome := hEmpty spell
      cases hLines : lines spell with
      | nil =>
        rw [hLines] at hSome
        cases hSome
      | cons first rest => rfl
    simp only [hParagraph]
    exact (h.lines_append (.fixed (text [""]))).congr fun c => by simp

theorem spells_header (file : File) : Spells (fun spell => text (file.headerLines spell))
    (file.annotations.flatMap AnnotationUse.classes) := by
  have hAnnotations := Spells.lines_map file.annotations fun a _ => a.spells "file:"
  have hLines := (Spells.fixed (text (file.comment.map ("// " ++ ·)))).lines_append hAnnotations
  have hEmpty (spell : Spelling) : (file.comment.map ("// " ++ ·) ++
      file.annotations.map (·.printAt "file:" spell)).isEmpty =
        (file.comment.isEmpty && file.annotations.isEmpty) := by
    cases file.comment <;> cases file.annotations <;> rfl
  exact spells_paragraph hEmpty hLines

/-- The types of a file are printed like those in the body of a type. -/
theorem spells_types (l : List TypeDecl) :
    Spells (fun spell => text (separated (TypeDecl.linesOfAll spell 0 l)))
      (TypeDecl.classesOfAll l ++ valuesOn (TypeDecl.typeUsesOfAll l)) :=
  TypeDecl.spells_body { kind := .companion, types := l } 0

/-- A file is printed with the classes that it names and with those that the members of annotations
on its references name. -/
theorem spells (file : File) (imports : List String) :
    Spells (fun spell => text (file.linesWith spell imports))
      (file.classes ++ valuesOn file.typeUses) := by
  have hPackage := Spells.fixed (text
    ((if file.package.isEmpty then [] else ["package " ++ file.package, ""]) ++
      paragraph (imports.map ("import " ++ ·))))
  have hText := file.spells_header.lines_append hPackage |>.lines_append (spells_types file.types)
  unfold linesWith
  simp only [List.append_assoc] at hText ⊢
  exact hText.congr fun c => by simp [classes, typeUses]

end File

end Bindery.Source
