import Bindery.Emission.Unit

/-!
# The store in memory

Keeps every unit in the order of the keys.
-/

namespace Bindery

/-- Units by their keys. -/
structure MemoryStore where
  byKey : OrderedMap UnitKey GeneratedUnit
  keyed : ∀ e ∈ byKey.entries, e.2.key = e.1

namespace MemoryStore

def empty : MemoryStore := ⟨.empty, fun _ h => by cases h⟩

instance : Inhabited MemoryStore := ⟨empty⟩

def units (m : MemoryStore) : List GeneratedUnit := m.byKey.values

def keys (m : MemoryStore) : List UnitKey := m.byKey.keys

def size (m : MemoryStore) : Nat := m.byKey.size

def get? (m : MemoryStore) (key : UnitKey) : Option GeneratedUnit := m.byKey.get? key

def render? (m : MemoryStore) (key : UnitKey) : Option String :=
  (m.get? key).map GeneratedUnit.text

def put (m : MemoryStore) (u : GeneratedUnit) : MemoryStore where
  byKey := m.byKey.insert u.key u
  keyed e h := by
    rcases OrderedMap.mem_place h with rfl | h
    · rfl
    · exact m.keyed e h

@[simp] theorem get?_put (m : MemoryStore) (u : GeneratedUnit) (key : UnitKey) :
    (m.put u).get? key = if u.key = key then some u else m.get? key :=
  OrderedMap.get?_insert m.byKey u.key key u

def keptNote : Note where
  level := .debug
  target := "sealant_emitter::memory"
  message := "Unit kept in memory"
  fields := ["unit", "generator"]

def emit (m : MemoryStore) (u : GeneratedUnit) : Outcome MemoryStore :=
  match m.get? u.key with
  | some first => ⟨.error (emissionConflict u.key first.generator u.generator), m, []⟩
  | none => ⟨.ok (), m.put u, [keptNote]⟩

instance : Store MemoryStore where
  emit := emit
  finish m := ⟨.ok (), m, []⟩

end MemoryStore

end Bindery
