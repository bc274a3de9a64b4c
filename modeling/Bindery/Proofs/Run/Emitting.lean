import Bindery.Proofs.Run.Books

/-! # Emitting into memory

The names of a file are claimed one after the other before the store is asked. An emission that
succeeds shows in all three books. One that fails leaves the store and the journal as they were, but
does not take back a claim: every such failure is fatal and ends the run.
-/

namespace Bindery

namespace NameRegistry.Claims

variable {before after : NameRegistry} {c : Claim} {names : List ClassName}

/-- Nothing but claims of no names at all leaves a registry as it was. -/
theorem eq_iff (h : before.Claims after c names) : after = before ↔ names = [] := by
  constructor
  · rintro rfl
    simpa using h.keys_perm.length_eq
  · rintro rfl
    apply OrderedMap.eq_of_get?
    intro name
    simpa using h.found name

end NameRegistry.Claims

namespace Context

open Run

/-- An emission enters a file into all books, or it fails for good and enters nothing but the names
before the one that was refused. -/
theorem emit_books_or_keeps_claims (ctx : Context) (d : Delivery) (s : Session MemoryStore) :
    (∃ names s', d.file.topLevelNames = .ok names ∧
      (ctx.emit d.generator d.file d.origin).Gives s () s' ∧
      s.names.Claims s'.names d.claim names ∧
      s.store.get? d.unit.key = none ∧ s'.store = s.store.put d.unit ∧
      s'.store.units.Perm (d.unit :: s.store.units) ∧
      s'.journal = { s.journal with emitted := s.journal.emitted ++ [d.entry] }) ∨
    (∃ fault s' front, (ctx.emit d.generator d.file d.origin).Fails s fault s' ∧
      fault.isFatal = true ∧ s'.store = s.store ∧ s'.journal = s.journal ∧
      s.names.Claims s'.names d.claim front ∧ (s'.names = s.names ↔ front = []) ∧
      ((∃ invalid, d.file.topLevelNames = .error invalid ∧ fault = .ofDomain invalid ∧ front = []) ∨
        (∃ name rest, d.file.topLevelNames = .ok (front ++ name :: rest) ∧
          (name ∈ front ∨ name ∈ s.names.keys) ∧ fault.kind = "NameCollision") ∨
        (d.file.topLevelNames = .ok front ∧ ∃ first, s.store.get? d.unit.key = some first ∧
          fault = emissionConflict d.unit.key first.generator d.generator))) := by
  have hEnds := endsIn_emit ctx d s
  unfold Gives Fails
  generalize (ctx.emit d.generator d.file d.origin).outcome s = result at hEnds
  cases hEnds with
  | unnamed hNames =>
    have hNone : s.names.Claims s.names d.claim [] := .nil
    exact .inr ⟨_, _, [], rfl, rfl, rfl, rfl, hNone, hNone.eq_iff, .inl ⟨_, hNames, rfl, rfl⟩⟩
  | taken hNames hClaims hTaken =>
    obtain ⟨hMem, hKind, hFatal⟩ := NameRegistry.taken_of_claim hTaken
    have hBefore := List.mem_append.mp (hClaims.keys_perm.mem_iff.mp hMem)
    exact .inr ⟨_, _, _, rfl, hFatal, rfl, rfl, hClaims, hClaims.eq_iff,
      .inr (.inl ⟨_, _, hNames, hBefore, hKind⟩)⟩
  | refused hNames hClaims hFound notes =>
    exact .inr ⟨_, _, _, rfl, rfl, rfl, rfl, hClaims, hClaims.eq_iff,
      .inr (.inr ⟨hNames, _, hFound, rfl⟩)⟩
  | booked hNames hClaims hFree notes =>
    exact .inl ⟨_, _, hNames, rfl, hClaims, hFree, rfl, MemoryStore.units_put_perm hFree, rfl⟩

end Context

namespace Sample

def bareContext : Context where
  table := .ofList []
  graph := (ScopeGraph.build (.ofList [])).1
  header := {}

def things (types : List String) : Delivery where
  generator := "things"
  file := {
    package := "out", name := "Unit"
    types := types.map ({ kind := .interfaceType, name := · }) }
  origin := { name := ⟨"app", ["Origin"], by decide, by decide⟩ }

def twinThings : Delivery := things ["Thing", "Thing"]

def lateThing : Delivery := things ["Late"]

def startSession : Session MemoryStore where
  store := .empty

def usedSession : Session MemoryStore where
  store := MemoryStore.empty.put (things []).unit

end Sample

open Sample in
/-- A file that clashes with itself leaves its name claimed, and so does one whose key is used. -/
theorem Context.emit_leaves_claims :
    (∃ fault s', (bareContext.emit twinThings.generator twinThings.file twinThings.origin).Fails
        startSession fault s' ∧
      fault.kind = "NameCollision" ∧ s'.names ≠ startSession.names) ∧
    ∃ fault s', (bareContext.emit lateThing.generator lateThing.file lateThing.origin).Fails
        usedSession fault s' ∧
      fault.kind = "EmissionConflict" ∧ s'.names ≠ usedSession.names := by
  refine ⟨⟨_, _, rfl, rfl, ?_⟩, _, _, rfl, rfl, ?_⟩
  · intro hSame
    exact absurd (congrArg OrderedMap.size hSame) (by decide)
  · intro hSame
    exact absurd (congrArg OrderedMap.size hSame) (by decide)

end Bindery
