import Bindery.Log.Note
import Bindery.Source.Printer

/-!
# Generated units and the stores that take them

A unit is a file ready to be kept, with the generator that made it and the source files it comes
from. A store takes units one after the other and refuses a second one with the same key.
-/

namespace Bindery

/-- The identity of a unit: its package and the name of its file. -/
structure UnitKey where
  package : String
  file : String
  deriving DecidableEq, Repr

namespace UnitKey

/-- Keys are ordered by package, then by file. -/
instance : Ord UnitKey := ⟨compareLex (compareOn package) (compareOn file)⟩

instance : Std.TransOrd UnitKey :=
  inferInstanceAs (Std.TransCmp (compareLex (compareOn package) (compareOn file)))

instance : Std.LawfulEqOrd UnitKey where
  compare_self := Std.ReflCmp.compare_self
  eq_of_compare {a b} h := by
    have h' : (compare a.package b.package).then (compare a.file b.file) = .eq := h
    obtain ⟨hp, hf⟩ := Ordering.then_eq_eq.1 h'
    have hp := Std.LawfulEqOrd.eq_of_compare hp
    have hf := Std.LawfulEqOrd.eq_of_compare hf
    cases a
    cases b
    simp_all

def text (k : UnitKey) : String :=
  if k.package.isEmpty then k.file else k.package ++ "/" ++ k.file

def toJson (k : UnitKey) : Json :=
  .object [("package", .string k.package), ("file", .string k.file)]

end UnitKey

/-- A file ready to be kept. -/
structure GeneratedUnit where
  generator : String
  file : Source.File
  /-- The source files that the unit comes from. -/
  provenance : List String := []

namespace GeneratedUnit

def key (u : GeneratedUnit) : UnitKey := ⟨u.file.package, u.file.name⟩

def text (u : GeneratedUnit) : String := u.file.render

end GeneratedUnit

def emissionConflict (key : UnitKey) (first second : String) : Fault :=
  Cause.emissionConflict key.text
    ("already emitted by " ++ first ++ ", emitted again by " ++ second)

/-- What came of an operation on a store: its result, the store after it, and what it noted. A
failed operation may have changed the store too. -/
structure Outcome (σ : Type) where
  result : Except Fault Unit
  store : σ
  notes : List Note := []

/-- A store that takes units. -/
class Store (σ : Type) where
  /-- Takes a unit. -/
  emit : σ → GeneratedUnit → Outcome σ
  /-- Ends a run after its last unit. -/
  finish : σ → Outcome σ

end Bindery
