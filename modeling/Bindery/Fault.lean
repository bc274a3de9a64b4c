import Bindery.Json.Decode

/-!
# Faults

Every way in which generation can fail. A fault that carries a declaration is a diagnostic: it is
recorded and the run goes on. All other faults are fatal, because they would corrupt the output of
the whole run.
-/

namespace Bindery

/-- Why the file system refused an operation. -/
inductive IoKind where
  | notFound
  | notADirectory
  | isADirectory
  | alreadyExists
  | invalidFilename
  | invalidInput
  | invalidData
  | other
  deriving DecidableEq, Repr

def IoKind.name : IoKind → String
  | notFound => "NotFound"
  | notADirectory => "NotADirectory"
  | isADirectory => "IsADirectory"
  | alreadyExists => "AlreadyExists"
  | invalidFilename => "InvalidFilename"
  | invalidInput => "InvalidInput"
  | invalidData => "InvalidData"
  | other => "Other"

/-- What went wrong. -/
inductive Cause where
  /-- A contributing declaration has no resolvable scope. -/
  | missingScope (declaration message : String)
  /-- Annotations of one declaration name different scopes. -/
  | inconsistentScope (declaration message : String)
  /-- A declaration has the marker but not the structure that the feature needs. -/
  | shapeViolation (declaration message : String)
  /-- A configuration annotation lacks a field or has a value of the wrong kind. -/
  | invalidConfiguration (declaration message : String)
  /-- Two generators wrote the same file. -/
  | emissionConflict (unit message : String)
  /-- The parent links of scopes lead back to where they started. -/
  | scopeCycle (path : String)
  /-- A derived name was claimed twice. -/
  | nameCollision (name message : String)
  /-- The snapshot cannot be used as a whole. -/
  | invalidSnapshot (message : String)
  | io (kind : IoKind) (text : String)
  | json (problem : Json.Problem)
  | settings (text : String)
  | domain (fault : DomainFault)
  | internal (message : String)
  deriving DecidableEq, Repr

/-- A cause, and what was being done when it came up. -/
structure Fault where
  cause : Cause
  context : Option String := none
  deriving DecidableEq, Repr

namespace Cause

def kind : Cause → String
  | missingScope .. => "MissingScope"
  | inconsistentScope .. => "InconsistentScope"
  | shapeViolation .. => "ShapeViolation"
  | invalidConfiguration .. => "InvalidConfiguration"
  | emissionConflict .. => "EmissionConflict"
  | scopeCycle .. => "ScopeCycle"
  | nameCollision .. => "NameCollision"
  | invalidSnapshot .. => "InvalidSnapshot"
  | io .. => "Io"
  | json .. => "Json"
  | settings .. => "Config"
  | domain .. => "Domain"
  | internal .. => "Internal"

def declaration? : Cause → Option String
  | missingScope declaration _ => some declaration
  | inconsistentScope declaration _ => some declaration
  | shapeViolation declaration _ => some declaration
  | invalidConfiguration declaration _ => some declaration
  | _ => none

def isFatal (c : Cause) : Bool := c.declaration?.isNone

/-- The sentence shown to people, with a note between its head and its end. -/
def messageWith (note : String) : Cause → String
  | missingScope d message => "Couldn't find scope for " ++ d ++ note ++ ": " ++ message
  | inconsistentScope d message =>
    "All scopes on annotations must be the same for " ++ d ++ note ++ ": " ++ message
  | shapeViolation d message => "Invalid declaration " ++ d ++ note ++ ": " ++ message
  | invalidConfiguration d message =>
    "Invalid scope configuration on " ++ d ++ note ++ ": " ++ message
  | emissionConflict unit message => "Emission conflict for " ++ unit ++ note ++ ": " ++ message
  | scopeCycle path => "Scope cycle" ++ note ++ ": " ++ path
  | nameCollision name message => "Name collision on " ++ name ++ note ++ ": " ++ message
  | invalidSnapshot message => "Invalid symbol snapshot" ++ note ++ ": " ++ message
  | io _ text => "IO error" ++ note ++ ": " ++ text
  | json problem => "JSON error" ++ note ++ ": " ++ problem.detail.getD "malformed text"
  | settings text => "Config error" ++ note ++ ": " ++ text
  | domain fault => "Domain error" ++ note ++ ": " ++ fault.message
  | internal message => "Internal error" ++ note ++ ": " ++ message

end Cause

namespace Fault

instance : Coe Cause Fault := ⟨fun cause => { cause }⟩

/-- The stable name of the cause. -/
def kind (f : Fault) : String := f.cause.kind

/-- Whether the run has to stop. -/
def isFatal (f : Fault) : Bool := f.cause.isFatal

def declaration? (f : Fault) : Option String := f.cause.declaration?

/-- The sentence shown to people; the context stands in parentheses. -/
def message (f : Fault) : String :=
  f.cause.messageWith (match f.context with
    | some context => " (" ++ context ++ ")"
    | none => "")

/-- Tells what was being done; a later word replaces an earlier one. -/
def within (context : String) (f : Fault) : Fault := { f with context := some context }

def ofDomain (fault : DomainFault) : Fault := { cause := .domain fault }

def ofIo (kind : IoKind) (context : String) : Fault := { cause := .io kind kind.name, context }

end Fault

/-- The result of the domain vocabulary as a result of generation. -/
def liftDomain {α : Type} (r : Except DomainFault α) : Except Fault α := r.mapError Fault.ofDomain

end Bindery
