import Bindery.DomainFault
import Bindery.Json.Reader

/-!
# Decoding JSON text

A decoder asks a draft for a value of one type. Of several problems it reports the one that a
reader meets first from left to right; what stands behind that place does not matter. A record
may be written as an object, or as an array of its fields in their order.
-/

namespace Bindery.Json

/-- Why a text holds no value of the type asked for. -/
inductive Problem where
  | malformed
  | wrongType
  | wrongLength
  | missingField (name : String)
  | duplicateField (name : String)
  | unknownVariant (name : String) (expected : List String)
  | noMatch (form : String)
  | refused (fault : DomainFault)
  deriving DecidableEq, Repr

namespace Problem

/-- Whether the text is no JSON at all, rather than JSON of the wrong shape. -/
def isMalformed : Problem → Bool
  | malformed => true
  | _ => false

def ticked (name : String) : String := "\x60" ++ name ++ "\x60"

def detail : Problem → Option String
  | malformed => none
  | wrongType => some "invalid type"
  | wrongLength => some "invalid length"
  | missingField name => some ("missing field " ++ ticked name)
  | duplicateField name => some ("duplicate field " ++ ticked name)
  | unknownVariant name expected =>
    some ("unknown variant " ++ ticked name ++ ", expected one of " ++
      ", ".intercalate (expected.map ticked))
  | noMatch form => some ("data did not match any variant of untagged enum " ++ form)
  | refused fault => some fault.message

end Problem

/-- Asks a draft below a number of open brackets for a value. -/
abbrev Decoder (α : Type) := Nat → Draft → Except Problem α

namespace Decoder

/-- The problem with a draft of the wrong type: a leaf is read before it is refused, brackets are
not opened. -/
def mismatch : Draft → Problem
  | .number spelling =>
    if (Draft.integer? spelling).isSome || Draft.isFinite spelling then .wrongType else .malformed
  | .text none => .malformed
  | .malformed => .malformed
  | _ => .wrongType

def string : Decoder String
  | _, .text (some s) => .ok s
  | _, draft => .error (mismatch draft)

def bool : Decoder Bool
  | _, .bool b => .ok b
  | _, draft => .error (mismatch draft)

def option {α : Type} (decoder : Decoder α) : Decoder (Option α)
  | _, .null => .ok none
  | depth, draft => (decoder depth draft).map some

def list {α : Type} (decoder : Decoder α) : Decoder (List α)
  | depth, .array items => items.mapM (decoder (depth + 1))
  | _, draft => .error (mismatch draft)

/-- A value that has to pass a further test. -/
def refine {α β : Type} (decoder : Decoder α) (f : α → Except DomainFault β) : Decoder β :=
  fun depth draft => (decoder depth draft).bind fun a => (f a).mapError .refused

/-- One of a few names, or an object whose only member has such a name and holds null. -/
def variant {α : Type} (choices : List (String × α)) : Decoder α
  | _, .text (some name) => choose name
  | _, .object ((.text (some name), payload) :: rest) =>
    (choose name).bind fun a =>
      match payload, rest with
      | .null, [] => .ok a
      | .null, _ => .error .malformed
      | other, _ => .error (mismatch other)
  | _, .object ((.text none, _) :: _) => .error .malformed
  | _, .object ((key, _) :: _) => .error (mismatch key)
  | _, _ => .error .malformed
where
  /-- The choice of a name. -/
  choose (name : String) : Except Problem α :=
    match choices.find? fun choice => choice.1 = name with
    | some choice => .ok choice.2
    | none => .error (.unknownVariant name (choices.map (·.1)))

/-- A value recognised by its whole draft, whose text has to be in order throughout. -/
def whole {α : Type} (form : String) (recognise : Draft → Option α) : Decoder α :=
  fun depth draft =>
    if (draft.value? depth).isNone then .error .malformed
    else
      match recognise draft with
      | some a => .ok a
      | none => .error (.noMatch form)

end Decoder

/-! ## Records -/

/-- A problem and the place of the field where a reader meets it. -/
abbrev Placed (α : Type) := Except (Nat × Problem) α

/-- The fields found in a draft of a record, up to the first problem with its members. -/
structure Fields where
  depth : Nat
  found : List (String × Nat × Draft)
  stop : Option (Nat × Problem)
  /-- The place and the problem of a field that is not there. -/
  missing : String → Nat × Problem

/-- How to read the fields of a record, whose names stand in their order. -/
structure Record (α : Type) where
  names : List String
  read : Fields → Placed α

namespace Record

/-- Two parts of a record; of two problems the one in front is reported. -/
def both {α β : Type} (a : Placed α) (b : Placed β) : Placed (α × β) :=
  match a, b with
  | .ok a, .ok b => .ok (a, b)
  | .error e, .ok _ => .error e
  | .ok _, .error e => .error e
  | .error e, .error e' => .error (if e'.1 < e.1 then e' else e)

def field {α : Type} (name : String) (decoder : Decoder α) (absent : Fields → Placed α) :
    Record α where
  names := [name]
  read fields :=
    match fields.found.find? fun entry => entry.1 = name with
    | some (_, place, draft) => (decoder fields.depth draft).mapError fun p => (place, p)
    | none => absent fields

def required {α : Type} (name : String) (decoder : Decoder α) : Record α :=
  field name decoder fun fields => .error (fields.missing name)

def defaulted {α : Type} (name : String) (decoder : Decoder α) (value : α) : Record α :=
  field name decoder fun _ => .ok value

def map {α β : Type} (f : α → β) (record : Record α) : Record β where
  names := record.names
  read fields := (record.read fields).map f

/-- The fields of one part followed by those of another. -/
def zip {α β : Type} (a : Record α) (b : Record β) : Record (α × β) where
  names := a.names ++ b.names
  read fields := both (a.read fields) (b.read fields)

/-- Looks through the members of an object. A known field given twice is a problem where its name
is repeated; what stands under an unknown name has only to be complete. -/
def sortMembers (names : List String) (place : Nat) (found : List (String × Nat × Draft)) :
    List (Draft × Draft) → List (String × Nat × Draft) × Option (Nat × Problem)
  | [] => (found, none)
  | (.text (some name), value) :: rest =>
    if names.contains name then
      if found.any fun entry => entry.1 = name then (found, some (place, .duplicateField name))
      else sortMembers names (place + 1) (found ++ [(name, place, value)]) rest
    else if value.isComplete then sortMembers names (place + 1) found rest
    else (found, some (place, .malformed))
  | _ => (found, some (place, .malformed))

/-- The problem that comes first: one in front of the place where reading stops, or the stop. -/
def settle {α : Type} (stop : Option (Nat × Problem)) (result : Placed α) : Except Problem α :=
  match stop, result with
  | none, .ok a => .ok a
  | none, .error e => .error e.2
  | some s, .ok _ => .error s.2
  | some s, .error e => .error (if e.1 < s.1 then e.2 else s.2)

def ofMembers {α : Type} (record : Record α) (depth : Nat) (members : List (Draft × Draft)) :
    Except Problem α :=
  let (found, stop) := sortMembers record.names 0 [] members
  settle stop (record.read
    { depth := depth + 1, found, stop
      missing := fun name => (members.length, .missingField name) })

def ofItems {α : Type} (record : Record α) (depth : Nat) (items : List Draft) :
    Except Problem α :=
  let found := (record.names.zip items).mapIdx fun place (name, draft) => (name, place, draft)
  let stop := if record.names.length < items.length then some (record.names.length, .malformed)
    else none
  settle stop (record.read
    { depth := depth + 1, found, stop, missing := fun _ => (items.length, .wrongLength) })

def decoder {α : Type} (record : Record α) : Decoder α
  | depth, .object members => record.ofMembers depth members
  | depth, .array items => record.ofItems depth items
  | _, draft => .error (Decoder.mismatch draft)

end Record

/-- Reads a whole text. Anything but blanks behind the value is a problem of its own. -/
def decodeText {α : Type} (decoder : Decoder α) (s : String) : Except Problem α :=
  let document := scan s
  (decoder 0 document.root).bind fun a =>
    if document.endsThere then .ok a else .error .malformed

end Bindery.Json
