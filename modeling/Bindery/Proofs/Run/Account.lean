import Bindery.Proofs.Run.Outcome
import Mathlib.Data.List.Nodup
import Mathlib.Data.List.Pairwise
import Mathlib.Data.List.Perm.Basic

/-! # Accounts of what a run did

An account lists what steps handed to the store and wrote into the journal, in their order. A step
lets a session grow by an account, and accounts of consecutive steps are put one behind the other.
Names and notes are left out: an account tells what came out of a run, not how it got there.
-/

namespace Bindery

/-- A file that a generator handed to the store for a declaration. -/
structure Delivery where
  generator : String
  file : Source.File
  origin : Declaration

/-- The unit that the store takes. -/
def Delivery.unit (d : Delivery) : GeneratedUnit where
  generator := d.generator
  file := d.file
  provenance := d.origin.sourceFile.toList

/-- The entry of the journal. -/
def Delivery.entry (d : Delivery) : EmittedUnit where
  generator := d.generator
  key := d.unit.key
  provenance := d.unit.provenance

/-- What steps did, each list in the order of the steps. -/
structure Account where
  deliveries : List Delivery := []
  diagnostics : List Diagnostic := []
  skips : List Skip := []
  /-- The candidates for integration, if they were resolved on the way. -/
  candidates : Option (List Candidate) := none

namespace Account

/-- An account with a later one behind it. -/
def append (a b : Account) : Account where
  deliveries := a.deliveries ++ b.deliveries
  diagnostics := a.diagnostics ++ b.diagnostics
  skips := a.skips ++ b.skips
  candidates := b.candidates.or a.candidates

instance : Append Account := ⟨append⟩

@[simp] theorem deliveries_append (a b : Account) :
    (a ++ b).deliveries = a.deliveries ++ b.deliveries := rfl

@[simp] theorem diagnostics_append (a b : Account) :
    (a ++ b).diagnostics = a.diagnostics ++ b.diagnostics := rfl

@[simp] theorem skips_append (a b : Account) : (a ++ b).skips = a.skips ++ b.skips := rfl

@[simp] theorem candidates_append (a b : Account) :
    (a ++ b).candidates = b.candidates.or a.candidates := rfl

@[simp] theorem empty_append (a : Account) : ({} : Account) ++ a = a := by
  change append {} a = a
  simp [append]

@[simp] theorem append_empty (a : Account) : a ++ ({} : Account) = a := by
  change append a {} = a
  simp [append]

/-- The journal of a run with this account. -/
def journal (a : Account) : Journal where
  emitted := a.deliveries.map Delivery.entry
  diagnostics := a.diagnostics
  skips := a.skips

/-- Everything in the account bears the name of a generator that satisfies the predicate. -/
structure SignedBy (p : String → Prop) (a : Account) : Prop where
  deliveries : ∀ d ∈ a.deliveries, p d.generator
  diagnostics : ∀ d ∈ a.diagnostics, p d.generator
  skips : ∀ s ∈ a.skips, p s.generator

theorem SignedBy.empty (p : String → Prop) : SignedBy p {} :=
  ⟨by simp, by simp, by simp⟩

theorem SignedBy.append {p : String → Prop} {a b : Account} (ha : a.SignedBy p)
    (hb : b.SignedBy p) : (a ++ b).SignedBy p where
  deliveries := List.forall_mem_append.mpr ⟨ha.deliveries, hb.deliveries⟩
  diagnostics := List.forall_mem_append.mpr ⟨ha.diagnostics, hb.diagnostics⟩
  skips := List.forall_mem_append.mpr ⟨ha.skips, hb.skips⟩

theorem SignedBy.mono {p q : String → Prop} {a : Account} (h : a.SignedBy p)
    (hImp : ∀ id, p id → q id) : a.SignedBy q where
  deliveries d hMem := hImp _ (h.deliveries d hMem)
  diagnostics d hMem := hImp _ (h.diagnostics d hMem)
  skips s hMem := hImp _ (h.skips s hMem)

end Account

/-- Of a list with distinct keys the elements under one key make up what they contribute. -/
theorem filter_flatMap_of_nodup {α β κ : Type} {key : α → κ} {l : List α} {h : α → List β}
    {p : β → Bool} {x : α} (hNodup : (l.map key).Nodup) (hMem : x ∈ l)
    (hKey : ∀ y ∈ l, ∀ b ∈ h y, p b = true ↔ key y = key x) : (l.flatMap h).filter p = h x := by
  obtain ⟨front, rest, rfl⟩ := List.append_of_mem hMem
  rw [List.map_append, List.map_cons, List.nodup_middle, List.nodup_cons] at hNodup
  have hOther {y : α} (hy : y ∈ front ++ rest) : (h y).filter p = [] := by
    refine List.filter_eq_nil_iff.mpr fun b hb hTrue => hNodup.1 ?_
    have hy' : y ∈ front ++ x :: rest := by
      rcases List.mem_append.mp hy with hFront | hRest
      · exact List.mem_append_left _ hFront
      · exact List.mem_append_right _ (List.mem_cons_of_mem _ hRest)
    rw [← (hKey y hy' b hb).mp hTrue, ← List.map_append]
    exact List.mem_map_of_mem hy
  have hFront : front.flatMap (fun y => (h y).filter p) = [] :=
    List.flatMap_eq_nil_iff.mpr fun y hy => hOther (List.mem_append_left _ hy)
  have hRest : rest.flatMap (fun y => (h y).filter p) = [] :=
    List.flatMap_eq_nil_iff.mpr fun y hy => hOther (List.mem_append_right _ hy)
  rw [List.filter_flatMap, List.flatMap_append, List.flatMap_cons, hFront, hRest, List.nil_append,
    List.append_nil]
  exact List.filter_eq_self.mpr fun b hb => (hKey x hMem b hb).mpr rfl

/-- What two elements of a list both contribute is contributed twice. -/
theorem eq_of_mem_flatMap {α β : Type} {l : List α} {f : α → List β} {a b : α} {x : β}
    (hNodup : (l.flatMap f).Nodup) (ha : a ∈ l) (hb : b ∈ l) (hx : x ∈ f a) (hx' : x ∈ f b) :
    a = b := by
  by_contra hNe
  have hApart := (List.nodup_flatMap.mp hNodup).2
  have hSymm : Std.Symm (Function.onFun List.Disjoint f) := ⟨fun _ _ h _ hx hx' => h hx' hx⟩
  exact hApart.forall ha hb hNe hx hx'

/-- A store took units one after the other. -/
inductive Store.Took {σ : Type} [Store σ] : σ → List GeneratedUnit → σ → Prop where
  | nil (store : σ) : Took store [] store
  | cons {store last : σ} {u : GeneratedUnit} {rest : List GeneratedUnit}
      (hTaken : (Store.emit store u).result = .ok ())
      (hRest : Took (Store.emit store u).store rest last) : Took store (u :: rest) last

theorem Store.Took.append {σ : Type} [Store σ] {first middle last : σ} {l m : List GeneratedUnit}
    (h : Store.Took first l middle) (h' : Store.Took middle m last) :
    Store.Took first (l ++ m) last := by
  induction h with
  | nil _ => exact h'
  | cons hTaken _ ih => exact .cons hTaken (ih h')

/-- A session grew by what an account lists. -/
structure Session.Grows {σ : Type} [Store σ] (s : Session σ) (a : Account) (s' : Session σ) :
    Prop where
  store : Store.Took s.store (a.deliveries.map Delivery.unit) s'.store
  emitted : s'.journal.emitted = s.journal.emitted ++ a.deliveries.map Delivery.entry
  diagnostics : s'.journal.diagnostics = s.journal.diagnostics ++ a.diagnostics
  skips : s'.journal.skips = s.journal.skips ++ a.skips
  candidates : s'.candidates = a.candidates.or s.candidates

namespace Session.Grows

variable {σ : Type} [Store σ] {s s₁ s₂ : Session σ} {a b : Account}

theorem refl (s : Session σ) : s.Grows {} s where
  store := .nil _
  emitted := by simp
  diagnostics := by simp
  skips := by simp
  candidates := by simp

theorem trans (h : s.Grows a s₁) (h' : s₁.Grows b s₂) : s.Grows (a ++ b) s₂ where
  store := by simpa using h.store.append h'.store
  emitted := by simp [h'.emitted, h.emitted]
  diagnostics := by simp [h'.diagnostics, h.diagnostics]
  skips := by simp [h'.skips, h.skips]
  candidates := by simp [h'.candidates, h.candidates, Option.or_assoc]

/-- Claimed names and notes are not part of an account. -/
theorem of_aside (h : s.Grows a s₁) (names : NameRegistry) (notes : List Note) :
    s.Grows a { s₁ with names, notes } :=
  ⟨h.store, h.emitted, h.diagnostics, h.skips, h.candidates⟩

theorem of_start (h : s.Grows a s₁) (names : NameRegistry) (notes : List Note) :
    ({ s with names, notes } : Session σ).Grows a s₁ :=
  ⟨h.store, h.emitted, h.diagnostics, h.skips, h.candidates⟩

/-- A session that starts without a journal ends with the journal of its account. -/
theorem journal_eq (h : s.Grows a s₁) (hStart : s.journal = {}) : s₁.journal = a.journal := by
  have hFields : s₁.journal =
      ⟨s₁.journal.emitted, s₁.journal.diagnostics, s₁.journal.skips⟩ := rfl
  rw [hFields, h.emitted, h.diagnostics, h.skips, hStart]
  rfl

end Session.Grows

/-! ## Steps by their accounts -/

namespace Run

variable {σ α β : Type} [Store σ]

/-- A step succeeds with a result and lets the session grow by an account. -/
def Yields (m : Run σ α) (s : Session σ) (a : α) (acc : Account) : Prop :=
  ∃ s', m.Gives s a s' ∧ s.Grows acc s'

theorem Yields.of_gives {m : Run σ α} {s s' : Session σ} {a b : α} {acc : Account}
    (h : m.Yields s a acc) (hGives : m.Gives s b s') : b = a ∧ s.Grows acc s' := by
  obtain ⟨s₁, hGives₁, hGrows⟩ := h
  obtain ⟨rfl, rfl⟩ := hGives₁.unique hGives
  exact ⟨rfl, hGrows⟩

theorem Yields.bind {m : Run σ α} {f : α → Run σ β} {s : Session σ} {a : α} {b : β}
    {acc acc' total : Account} (h : m.Yields s a acc) (hThen : ∀ s₁, (f a).Yields s₁ b acc')
    (hTotal : acc ++ acc' = total := by rfl) : (m >>= f).Yields s b total := by
  obtain ⟨s₁, hGives, hGrows⟩ := h
  obtain ⟨s₂, hGives', hGrows'⟩ := hThen s₁
  exact ⟨s₂, gives_bind.mpr ⟨a, s₁, hGives, hGives'⟩, hTotal ▸ hGrows.trans hGrows'⟩

theorem yields_get_bind {f : Session σ → Run σ β} {s : Session σ} {b : β} {acc : Account}
    (h : (f s).Yields s b acc) : (get >>= f).Yields s b acc := by
  obtain ⟨s', hGives, hGrows⟩ := h
  exact ⟨s', gives_bind.mpr ⟨s, s, gives_get.mpr ⟨rfl, rfl⟩, hGives⟩, hGrows⟩

theorem yields_pure (s : Session σ) (a : α) : (pure a : Run σ α).Yields s a {} :=
  ⟨s, gives_pure.mpr ⟨rfl, rfl⟩, .refl s⟩

theorem yields_ofExcept {r : Except Fault α} {a : α} (h : r = .ok a) (s : Session σ) :
    (ofExcept r : Run σ α).Yields s a {} :=
  ⟨s, gives_ofExcept.mpr ⟨h, rfl⟩, .refl s⟩

theorem yields_note (s : Session σ) (n : Note) : (note n : Run σ Unit).Yields s () {} :=
  ⟨_, gives_note.mpr rfl, (Session.Grows.refl s).of_aside s.names _⟩

theorem yields_remark (s : Session σ) (level : Level) (message : String) (fields : List String) :
    (remark level message fields : Run σ Unit).Yields s () {} :=
  yields_note s _

theorem yields_shouldStop {ctx : Context} (hCollect : ctx.failFast = false) (s : Session σ) :
    (ctx.shouldStop : Run σ Bool).Yields s false {} :=
  ⟨s, (gives_shouldStop hCollect).mpr ⟨rfl, rfl⟩, .refl s⟩

end Run

end Bindery
