import Bindery.Emission.Memory
import Bindery.Proofs.OrderedMap
import Bindery.Proofs.Run.Failure
import Bindery.Proofs.Run.Recording
import Mathlib.Data.List.Flatten

/-! # The books of a run

A run keeps three books: the names that are claimed, the store in memory, and the list of emitted
units in the journal. Emitting writes them one after the other. A session has booked deliveries if
all three books agree on them; an emission that clashes with what is booked leaves the store and the
journal as they were.
-/

namespace Bindery

namespace MemoryStore

theorem map_key_units (m : MemoryStore) : m.units.map GeneratedUnit.key = m.keys := by
  unfold units keys OrderedMap.values OrderedMap.keys
  rw [List.map_map]
  exact List.map_congr_left m.keyed

theorem units_put_perm {m : MemoryStore} {u : GeneratedUnit} (h : m.get? u.key = none) :
    (m.put u).units.Perm (u :: m.units) :=
  OrderedMap.values_insert_perm u h

end MemoryStore

/-- The names of the types in the file; none if one of them is no class name. -/
def Delivery.names (d : Delivery) : List ClassName := d.file.topLevelNames.toOption.getD []

theorem Delivery.names_eq {d : Delivery} {names : List ClassName}
    (h : d.file.topLevelNames = .ok names) : d.names = names := by
  rw [Delivery.names, h]
  rfl

def Delivery.claim (d : Delivery) : Claim := ⟨d.generator, d.origin.name.canonical⟩

/-- Deliveries that can be made in one run. -/
structure Compatible (l : List Delivery) : Prop where
  named : ∀ d ∈ l, d.file.topLevelNames = .ok d.names
  names_nodup : (l.flatMap Delivery.names).Nodup
  keys_nodup : (l.map fun d => d.unit.key).Nodup

/-- Whether deliveries can be made in one run does not depend on their order, and fewer deliveries
never hurt. -/
theorem Compatible.of_subperm {l m : List Delivery} (h : Compatible m) (hPart : l.Subperm m) :
    Compatible l := by
  obtain ⟨l', hPerm, hSub⟩ := hPart
  constructor
  · intro d hMem
    exact h.named d (hSub.subset (hPerm.mem_iff.mpr hMem))
  · exact (hPerm.flatMap_right _).nodup_iff.mp ((hSub.flatMap _).nodup h.names_nodup)
  · exact (hPerm.map _).nodup_iff.mp ((hSub.map _).nodup h.keys_nodup)

theorem Compatible.left {l m : List Delivery} (h : Compatible (l ++ m)) : Compatible l :=
  h.of_subperm (List.sublist_append_left l m).subperm

namespace Session

/-- The store and the journal hold the units of deliveries and nothing else. -/
structure Holds (s : Session MemoryStore) (l : List Delivery) : Prop where
  units : s.store.units.Perm (l.map Delivery.unit)
  emitted : s.journal.emitted = l.map Delivery.entry

/-- All books agree on deliveries: what the store holds is claimed, and nothing else is. -/
structure Booked (s : Session MemoryStore) (l : List Delivery) : Prop extends s.Holds l where
  named : ∀ d ∈ l, d.file.topLevelNames = .ok d.names
  claimed : s.names.keys.Perm (l.flatMap Delivery.names)

variable {s : Session MemoryStore} {l : List Delivery}

theorem Holds.keys (h : s.Holds l) : s.store.keys.Perm (l.map fun d => d.unit.key) := by
  have hKeys := h.units.map GeneratedUnit.key
  rw [MemoryStore.map_key_units, List.map_map] at hKeys
  exact hKeys

theorem Booked.compatible (h : s.Booked l) : Compatible l where
  named := h.named
  names_nodup := h.claimed.nodup_iff.mp s.names.keys_nodup
  keys_nodup := h.keys.nodup_iff.mp s.store.byKey.keys_nodup

end Session

/-- The fault tells that something was made twice. -/
def Fault.IsClash (fault : Fault) : Prop :=
  fault.kind = "NameCollision" ∨ fault.kind = "EmissionConflict"

/-! ## Claiming names -/

namespace NameRegistry

theorem claim_of_free {r : NameRegistry} {name : ClassName} (h : r.get? name = none) (c : Claim) :
    r.claim name c = .ok (r.insert name c) := by
  rw [claim, h]

theorem claim_of_taken {r : NameRegistry} {name : ClassName} {first : Claim}
    (h : r.get? name = some first) (c : Claim) :
    ∃ fault, r.claim name c = .error fault ∧ fault.IsClash := by
  rw [claim, h]
  exact ⟨_, rfl, .inl rfl⟩

theorem taken_of_claim {r : NameRegistry} {name : ClassName} {c : Claim} {fault : Fault}
    (h : r.claim name c = .error fault) :
    name ∈ r.keys ∧ fault.kind = "NameCollision" ∧ fault.isFatal = true := by
  unfold claim at h
  split at h
  · next first hFound =>
    cases h
    exact ⟨OrderedMap.mem_keys_of_get? hFound, rfl, rfl⟩
  · cases h

/-- Names that were free are claimed now, and all that was claimed before still is. -/
structure Claims (before after : NameRegistry) (c : Claim) (names : List ClassName) : Prop where
  nodup : (names ++ before.keys).Nodup
  found : ∀ name, after.get? name = if name ∈ names then some c else before.get? name

namespace Claims

variable {before after : NameRegistry} {c : Claim} {name : ClassName} {names : List ClassName}

theorem nil : before.Claims before c [] where
  nodup := before.keys_nodup
  found _ := rfl

theorem cons (hFree : before.get? name = none)
    (h : Claims (before.insert name c) after c names) : before.Claims after c (name :: names) where
  nodup := (((OrderedMap.keys_insert_perm c hFree).append_left names).trans
    List.perm_middle).nodup_iff.mp h.nodup
  found other := by
    rw [h.found, OrderedMap.get?_insert]
    by_cases hSame : name = other
    · simp [hSame]
    · have hOther : other ∈ name :: names ↔ other ∈ names := by simp [Ne.symm hSame]
      simp [hSame, hOther]

theorem keys_perm (h : before.Claims after c names) :
    after.keys.Perm (names ++ before.keys) := by
  refine (List.perm_ext_iff_of_nodup after.keys_nodup h.nodup).mpr fun name => ?_
  rw [List.mem_append, ← not_iff_not, not_or, ← OrderedMap.get?_eq_none_iff,
    ← OrderedMap.get?_eq_none_iff, h.found]
  by_cases hName : name ∈ names <;> simp [hName]

/-- No name is claimed twice, so names with one that is taken cannot be claimed together. -/
theorem not_nodup_of_taken (h : before.Claims after c names) {fault : Fault}
    (hTaken : after.claim name c = .error fault) (rest : List ClassName) :
    ¬ (names ++ name :: rest ++ before.keys).Nodup := by
  intro hNodup
  have hPerm : (names ++ name :: rest ++ before.keys).Perm
      (name :: rest ++ (names ++ before.keys)) := by
    rw [List.append_assoc]
    exact List.perm_append_comm_assoc names (name :: rest) before.keys
  have hFree := (List.nodup_cons.mp (hPerm.nodup_iff.mp hNodup)).1
  exact hFree (List.mem_append_right _ (h.keys_perm.mem_iff.mp (taken_of_claim hTaken).1))

end Claims

end NameRegistry

namespace Run

theorem outcome_claimAll_cons {σ : Type} (c : Claim) (name : ClassName) (rest : List ClassName)
    (s : Session σ) : (claimAll c (name :: rest)).outcome s = match s.names.claim name c with
      | .ok names => (claimAll c rest).outcome { s with names }
      | .error fault => (.error fault, s) := by
  have hFirst : (claimAll c (name :: rest)).outcome s =
      (Run.ofExcept (s.names.claim name c) >>= fun names => do
        set { s with names }
        claimAll c rest).outcome s := rfl
  rw [hFirst]
  cases s.names.claim name c <;> rfl

/-- Either all names get claimed, or just those before the first one that is taken. -/
theorem claimAll_claims {σ : Type} (c : Claim) (names : List ClassName) (s : Session σ) :
    (∃ claimed, s.names.Claims claimed c names ∧
      (claimAll c names).Gives s () { s with names := claimed }) ∨
    ∃ front name rest claimed fault, names = front ++ name :: rest ∧
      s.names.Claims claimed c front ∧ claimed.claim name c = .error fault ∧
      (claimAll c names).Fails s fault { s with names := claimed } := by
  induction names generalizing s with
  | nil => exact .inl ⟨s.names, .nil, gives_pure.mpr ⟨rfl, rfl⟩⟩
  | cons name rest ih =>
    cases hFound : s.names.get? name with
    | some first =>
      obtain ⟨fault, hClaim, _⟩ := NameRegistry.claim_of_taken hFound c
      have hStep : (claimAll c (name :: rest)).outcome s = (.error fault, s) := by
        rw [outcome_claimAll_cons, hClaim]
      exact .inr ⟨[], name, rest, s.names, fault, rfl, .nil, hClaim, hStep⟩
    | none =>
      let s₁ : Session σ := { s with names := s.names.insert name c }
      have hStep : (claimAll c (name :: rest)).outcome s = (claimAll c rest).outcome s₁ := by
        rw [outcome_claimAll_cons, NameRegistry.claim_of_free hFound]
      rcases ih s₁ with ⟨claimed, hClaims, hRest⟩ |
        ⟨front, taken, behind, claimed, fault, rfl, hClaims, hTaken, hRest⟩
      · exact .inl ⟨claimed, hClaims.cons hFound, hStep.trans hRest⟩
      · exact .inr ⟨name :: front, taken, behind, claimed, fault, rfl, hClaims.cons hFound, hTaken,
          hStep.trans hRest⟩

/-- Either all names were free and are claimed now, or the claims stop at a name that is taken. -/
theorem claimAll_outcome {σ : Type} (c : Claim) (names : List ClassName) (s : Session σ) :
    ((names ++ s.names.keys).Nodup ∧ ∃ claimed : NameRegistry,
      (claimAll c names).Gives s () { s with names := claimed } ∧
      claimed.keys.Perm (names ++ s.names.keys)) ∨
    (¬ (names ++ s.names.keys).Nodup ∧ ∃ (fault : Fault) (claimed : NameRegistry),
      (claimAll c names).Fails s fault { s with names := claimed } ∧ fault.IsClash) := by
  rcases claimAll_claims c names s with ⟨claimed, hClaims, hGives⟩ |
    ⟨front, name, rest, claimed, fault, rfl, hClaims, hTaken, hFails⟩
  · exact .inl ⟨hClaims.nodup, claimed, hGives, hClaims.keys_perm⟩
  · exact .inr ⟨hClaims.not_nodup_of_taken hTaken rest, fault, claimed, hFails,
      .inl (NameRegistry.taken_of_claim hTaken).2.1⟩

/-- Either the key of the unit was free and the store has the unit now, or the store stays. -/
theorem keep_outcome (u : GeneratedUnit) (s : Session MemoryStore) :
    (s.store.get? u.key = none ∧ ∃ notes,
      (keep u).Gives s () { s with store := s.store.put u, notes }) ∨
    ∃ first, s.store.get? u.key = some first ∧ ∃ notes,
      (keep u).Fails s (emissionConflict u.key first.generator u.generator) { s with notes } := by
  cases hFound : s.store.get? u.key with
  | none =>
    left
    have hEmit : MemoryStore.emit s.store u = ⟨.ok (), s.store.put u, [MemoryStore.keptNote]⟩ := by
      rw [MemoryStore.emit, hFound]
    refine ⟨rfl, s.notes ++ [MemoryStore.keptNote], ?_⟩
    simp only [keep, Store.emit, gives_bind, gives_get, gives_set, gives_ofExcept]
    exact ⟨s, s, ⟨rfl, rfl⟩, ⟨⟩, _, rfl, by rw [hEmit], by rw [hEmit]⟩
  | some first =>
    right
    have hEmit : MemoryStore.emit s.store u =
        ⟨.error (emissionConflict u.key first.generator u.generator), s.store, []⟩ := by
      rw [MemoryStore.emit, hFound]
    refine ⟨first, rfl, s.notes ++ [], ?_⟩
    refine fails_bind.mpr (.inr ⟨s, s, gives_get.mpr ⟨rfl, rfl⟩, ?_⟩)
    refine fails_bind.mpr (.inr ⟨⟨⟩, _, gives_set.mpr rfl, ?_⟩)
    simp only [Store.emit, hEmit]
    rfl

end Run

/-! ## Emitting -/

/-- All books take a delivery whose key is free once its names are claimed. -/
theorem Session.Booked.deliver {s : Session MemoryStore} {l : List Delivery} {d : Delivery}
    (h : s.Booked l) (hNamed : d.file.topLevelNames = .ok d.names)
    (hFree : s.store.get? d.unit.key = none) {claimed : NameRegistry}
    (hClaimed : claimed.keys.Perm (d.names ++ s.names.keys)) (notes : List Note) :
    ({ s with
        names := claimed, store := s.store.put d.unit, notes
        journal.emitted := s.journal.emitted ++ [d.entry] } : Session MemoryStore).Booked
      (l ++ [d]) where
  units := by
    rw [List.map_append]
    exact ((MemoryStore.units_put_perm hFree).trans (h.units.cons _)).trans
      (List.perm_append_singleton _ _).symm
  emitted := by
    rw [List.map_append, ← h.emitted]
    rfl
  named := List.forall_mem_append.mpr ⟨h.named, by simpa using hNamed⟩
  claimed := by
    rw [List.flatMap_append, List.flatMap_singleton]
    exact (hClaimed.trans (h.claimed.append_left _)).trans List.perm_append_comm

/-- What can come of a delivery, with the session that is left: one of the names is invalid, or one
of them is taken, or all are claimed and the store has or has not got a unit of that key. -/
inductive Delivery.EndsIn (d : Delivery) (s : Session MemoryStore) :
    Except Fault Unit × Session MemoryStore → Prop
  | unnamed {fault : DomainFault} (hNames : d.file.topLevelNames = .error fault) :
      EndsIn d s (.error (.ofDomain fault), s)
  | taken {front rest : List ClassName} {name : ClassName} {claimed : NameRegistry} {fault : Fault}
      (hNames : d.file.topLevelNames = .ok (front ++ name :: rest))
      (hClaims : s.names.Claims claimed d.claim front)
      (hTaken : claimed.claim name d.claim = .error fault) :
      EndsIn d s (.error fault, { s with names := claimed })
  | refused {names : List ClassName} {claimed : NameRegistry} {first : GeneratedUnit}
      (hNames : d.file.topLevelNames = .ok names) (hClaims : s.names.Claims claimed d.claim names)
      (hFound : s.store.get? d.unit.key = some first) (notes : List Note) :
      EndsIn d s (.error (emissionConflict d.unit.key first.generator d.generator),
        { s with names := claimed, notes })
  | booked {names : List ClassName} {claimed : NameRegistry}
      (hNames : d.file.topLevelNames = .ok names) (hClaims : s.names.Claims claimed d.claim names)
      (hFree : s.store.get? d.unit.key = none) (notes : List Note) :
      EndsIn d s (.ok (), { s with
        names := claimed, store := s.store.put d.unit, notes
        journal.emitted := s.journal.emitted ++ [d.entry] })

namespace Context

open Run

variable {ctx : Context} {s : Session MemoryStore} {l : List Delivery} {d : Delivery}

theorem endsIn_emit (ctx : Context) (d : Delivery) (s : Session MemoryStore) :
    d.EndsIn s ((ctx.emit d.generator d.file d.origin).outcome s) := by
  cases hNames : d.file.topLevelNames with
  | error fault =>
    have hFails : (ctx.emit d.generator d.file d.origin).Fails s (.ofDomain fault) s :=
      fails_bind.mpr (.inl (by rw [hNames]; rfl))
    rw [show _ = _ from hFails]
    exact .unnamed hNames
  | ok names =>
    have hLift : (Run.ofExcept (liftDomain d.file.topLevelNames) :
        Run MemoryStore (List ClassName)).Gives s names s := by
      rw [hNames]
      exact gives_ofExcept.mpr ⟨rfl, rfl⟩
    rcases claimAll_claims d.claim names s with ⟨claimed, hClaims, hClaim⟩ |
      ⟨front, name, rest, claimed, fault, rfl, hClaims, hTaken, hClaim⟩
    · rcases keep_outcome d.unit { s with names := claimed } with
        ⟨hFree, notes, hKeep⟩ | ⟨first, hFound, notes, hKeep⟩
      · have hGives : (ctx.emit d.generator d.file d.origin).Gives s () _ :=
          gives_bind.mpr ⟨_, s, hLift, gives_bind.mpr ⟨(), _, hClaim, gives_bind.mpr
            ⟨(), _, hKeep, gives_bind.mpr ⟨(), _, gives_note.mpr rfl, gives_modify.mpr rfl⟩⟩⟩⟩
        rw [show _ = _ from hGives]
        exact .booked hNames hClaims hFree _
      · have hFails : (ctx.emit d.generator d.file d.origin).Fails s _ _ :=
          fails_bind.mpr (.inr ⟨_, s, hLift, fails_bind.mpr (.inr ⟨(), _, hClaim,
            fails_bind.mpr (.inl hKeep)⟩)⟩)
        rw [show _ = _ from hFails]
        exact .refused hNames hClaims hFound notes
    · have hFails : (ctx.emit d.generator d.file d.origin).Fails s _ _ :=
        fails_bind.mpr (.inr ⟨_, s, hLift, fails_bind.mpr (.inl hClaim)⟩)
      rw [show _ = _ from hFails]
      exact .taken hNames hClaims hTaken

/-- A delivery that is compatible with what is booked gets booked, and any other one fails and
leaves the store and the journal alone. -/
theorem emit_outcome (hBooked : s.Booked l) (hNamed : d.file.topLevelNames = .ok d.names) :
    (Compatible (l ++ [d]) ∧ ∃ s', (ctx.emit d.generator d.file d.origin).Gives s () s' ∧
      s'.Booked (l ++ [d]) ∧ s'.candidates = s.candidates) ∨
    (¬ Compatible (l ++ [d]) ∧ ∃ fault s',
      (ctx.emit d.generator d.file d.origin).Fails s fault s' ∧ fault.IsClash ∧ s'.Holds l) := by
  have hEnds := endsIn_emit ctx d s
  unfold Gives Fails
  generalize (ctx.emit d.generator d.file d.origin).outcome s = result at hEnds
  cases hEnds with
  | unnamed hNames =>
    rw [hNamed] at hNames
    cases hNames
  | taken hNames hClaims hTaken =>
    refine .inr ⟨fun hFit => ?_, _, _, rfl, .inl (NameRegistry.taken_of_claim hTaken).2.1,
      hBooked.units, hBooked.emitted⟩
    have hNodup := hFit.names_nodup
    rw [List.flatMap_append, List.flatMap_singleton, Delivery.names_eq hNames] at hNodup
    exact hClaims.not_nodup_of_taken hTaken _
      (((hBooked.claimed.append_left _).trans List.perm_append_comm).nodup_iff.mpr hNodup)
  | refused hNames hClaims hFound notes =>
    refine .inr ⟨fun hFit => ?_, _, _, rfl, .inr rfl, hBooked.units, hBooked.emitted⟩
    have hTaken : d.unit.key ∈ s.store.keys := OrderedMap.mem_keys_of_get? hFound
    have hKeys := hFit.keys_nodup
    rw [List.map_append, List.nodup_append] at hKeys
    exact hKeys.2.2 _ (hBooked.keys.mem_iff.mp hTaken) _ List.mem_cons_self rfl
  | booked hNames hClaims hFree notes =>
    have hPerm := hClaims.keys_perm
    rw [← Delivery.names_eq hNames] at hPerm
    have hAfter := hBooked.deliver hNamed hFree hPerm notes
    exact .inl ⟨hAfter.compatible, _, rfl, hAfter, rfl⟩

end Context

end Bindery
