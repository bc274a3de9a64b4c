import Bindery.Proofs.Creation.Files
import Bindery.Proofs.Integration.Rules
import Bindery.Proofs.Run.Plan

/-! # How steps are composed

A turn of a generator is composed of straight pieces, in which nobody asks whether the run is to
stop, and of such questions between the pieces. A straight piece acts at most once: it emits a unit,
or it records the faults of one declaration, or it resolves the candidates. What holds of every step
that is composed in this way is proved by induction on the composition, once for all generators.
-/

namespace Bindery

open Run

/-! ## Notes of the generators -/

/-- The note behind the emission of a unit. -/
def Note.isEmission (n : Note) : Bool :=
  n.level = .debug && n.target = "sealant_kernel::generator" && n.message = "Unit emitted"

/-- The note of a fault that is recorded. -/
def Note.isDiagnosis (n : Note) : Bool := n.level = .warn && n.target = "sealant_kernel::generator"

/-- The note tells of neither. -/
structure Note.Plain (n : Note) : Prop where
  notEmission : n.isEmission = false
  notDiagnosis : n.isDiagnosis = false

namespace Context

/-- The same context for a run that stops early, or for one that collects diagnostics. -/
def stopping (ctx : Context) (b : Bool) : Context := { ctx with failFast := b }

section Stopping

variable (ctx : Context) (b : Bool)

@[simp] theorem table_stopping : (ctx.stopping b).table = ctx.table := rfl

@[simp] theorem graph_stopping : (ctx.stopping b).graph = ctx.graph := rfl

@[simp] theorem failFast_stopping : (ctx.stopping b).failFast = b := rfl

theorem stopping_failFast : ctx.stopping ctx.failFast = ctx := rfl

theorem sound_stopping : (ctx.stopping b).Sound ↔ ctx.Sound :=
  ⟨fun h => ⟨h.graph, h.forest⟩, fun h => ⟨h.graph, h.forest⟩⟩

@[simp] theorem diagnose_stopping {σ : Type} (id : String) (fault : Fault) :
    ((ctx.stopping b).diagnose id fault : Run σ Unit) = ctx.diagnose id fault := rfl

@[simp] theorem diagnoseAll_stopping {σ : Type} (id : String) (faults : List Fault) :
    ((ctx.stopping b).diagnoseAll id faults : Run σ Unit) = ctx.diagnoseAll id faults := by
  induction faults with
  | nil => rfl
  | cons fault rest ih => rw [diagnoseAll, diagnoseAll, diagnose_stopping, ih]

@[simp] theorem integrationCandidates_stopping {σ : Type} (id : String) :
    ((ctx.stopping b).integrationCandidates id : Run σ _) = ctx.integrationCandidates id := by
  unfold integrationCandidates
  simp only [table_stopping, diagnoseAll_stopping]

@[simp] theorem targetsAmong_stopping {σ : Type} (id : String) (f : Feature)
    (kept : OrderedMap ClassName ClassName) (l : List Candidate) :
    ((ctx.stopping b).targetsAmong id f kept l : Run σ _) = ctx.targetsAmong id f kept l := by
  induction l generalizing kept with
  | nil => rfl
  | cons c rest ih =>
    simp only [targetsAmong, ih]
    rfl

@[simp] theorem build_stopping (c : Creation) (x : Contribution) :
    c.build (ctx.stopping b) x = c.build ctx x := by
  cases c <;> rfl

end Stopping

/-- Whether a run that has recorded diagnostics stops is known beforehand. -/
theorem gives_shouldStop_iff {σ : Type} {ctx : Context} {s s' : Session σ} {stop : Bool} :
    (ctx.shouldStop : Run σ Bool).Gives s stop s' ↔
      (ctx.failFast && !s.journal.diagnostics.isEmpty) = stop ∧ s = s' := by
  rw [shouldStop, gives_bind]
  constructor
  · rintro ⟨_, _, hGet, hAnswer⟩
    obtain ⟨rfl, rfl⟩ := gives_get.mp hGet
    exact gives_pure.mp hAnswer
  · intro hAnswer
    exact ⟨s, s, gives_get.mpr ⟨rfl, rfl⟩, gives_pure.mpr hAnswer⟩

/-! ## Composition -/

section Composition

variable {σ : Type} [Store σ]

/-- The step is a straight piece, with the deliveries that it may make and with what is known about
its result. The flag tells whether it acts. -/
inductive Straight (ctx : Context) (mine : Delivery → Prop) :
    {α : Type} → Bool → Run σ α → (α → Prop) → Prop where
  | pure {α : Type} {a : α} {post : α → Prop} (hPost : post a) :
      Straight ctx mine false (pure a) post
  | note {n : Note} (hPlain : n.Plain) : Straight ctx mine false (Run.note n) fun _ => True
  | skip (k : Skip) : Straight ctx mine false (ctx.skip k) fun _ => True
  | ofExcept {α : Type} {r : Except Fault α} {post : α → Prop} (hPost : ∀ a, r = .ok a → post a)
      (hSound : ctx.Sound → ∃ a, r = .ok a) : Straight ctx mine false (Run.ofExcept r) post
  | diagnoseAll (id : String) {faults : List Fault} {owner : Declaration}
      (hDeclared : owner ∈ ctx.table.declarations) (hNames : ∀ fault ∈ faults, fault.Names owner) :
      Straight ctx mine true (ctx.diagnoseAll id faults) fun _ => True
  | candidates (f : Feature) : Straight ctx mine true
      (ctx.integrationCandidates f.integrationId) (· = Integration.candidates ctx.table)
  | emit {d : Delivery} (hMine : mine d)
      (hSound : ctx.Sound → ∃ names, d.file.topLevelNames = .ok names) :
      Straight ctx mine true (ctx.emit d.generator d.file d.origin) fun _ => True
  | bind {α β : Type} {first second : Bool} {m : Run σ α} {f : α → Run σ β} {post : α → Prop}
      {later : β → Prop} (hOnce : (first && second) = false) (h : Straight ctx mine first m post)
      (hThen : ∀ a, post a → Straight ctx mine second (f a) later) :
      Straight ctx mine (first || second) (m >>= f) later
  | learn {α : Type} {acts : Bool} {m : Run σ α} {post post' : α → Prop}
      (h : Straight ctx mine acts m post) (hLearn : ∀ s : Session σ, s.CacheValid ctx.table →
        ∃ a acc, m.Yields s a acc ∧ post' a) : Straight ctx mine acts m post'
  | weaken {α : Type} {acts acts' : Bool} {m : Run σ α} {post post' : α → Prop}
      (h : Straight ctx mine acts m post) (hActs : acts = true → acts' = true)
      (hImp : ∀ a, post a → post' a) : Straight ctx mine acts' m post'

/-- The step, given whether the run stops early, is composed of straight pieces and of questions
whether to stop. The flag tells whether it begins with a question or has nothing to do. -/
inductive Composed (ctx : Context) (mine : Delivery → Prop) :
    {α : Type} → Bool → (Bool → Run σ α) → (α → Prop) → Prop where
  | straight {α : Type} {acts : Bool} {m : Run σ α} {post : α → Prop}
      (h : ctx.Straight mine acts m post) : Composed ctx mine false (fun _ => m) post
  | pure {α : Type} {a : α} {post : α → Prop} (hPost : post a) :
      Composed ctx mine true (fun _ => pure a) post
  | note {n : Note} (hPlain : n.Plain) :
      Composed ctx mine true (fun _ => Run.note n) fun _ => True
  | ask {α : Type} {stopped : Run σ α} {go : Bool → Run σ α} {post : α → Prop}
      (hStopped : Composed ctx mine true (fun _ => stopped) post)
      (hGo : Composed ctx mine false go post) : Composed ctx mine true
        (fun b => (ctx.stopping b).shouldStop >>= fun stop => if stop = true then stopped else go b)
        post
  | bind {α β : Type} {gated : Bool} {m : Bool → Run σ α} {f : Bool → α → Run σ β}
      {post : α → Prop} {later : β → Prop} (h : Composed ctx mine gated m post)
      (hThen : ∀ a, post a → Composed ctx mine true (fun b => f b a) later) :
      Composed ctx mine gated (fun b => m b >>= f b) later
  | during {α : Type} {gated : Bool} {m : Bool → Run σ α} {post : α → Prop} (stretch : Stretch)
      (h : Composed ctx mine gated m post) :
      Composed ctx mine gated (fun b => Run.during stretch (m b)) post
  | weaken {α : Type} {gated gated' : Bool} {m : Bool → Run σ α} {post post' : α → Prop}
      (h : Composed ctx mine gated m post) (hGated : gated' = true → gated = true)
      (hImp : ∀ a, post a → post' a) : Composed ctx mine gated' m post'

variable {ctx : Context} {mine : Delivery → Prop} {α β : Type}

/-- One fault is a list of faults too. -/
theorem Straight.diagnose (id : String) {fault : Fault} {owner : Declaration}
    (hDeclared : owner ∈ ctx.table.declarations) (hNames : fault.Names owner) :
    Straight (σ := σ) ctx mine true (ctx.diagnose id fault) fun _ => True := by
  have hSingle : (ctx.diagnose id fault : Run σ Unit) = ctx.diagnoseAll id [fault] := by
    rw [Context.diagnoseAll, Context.diagnoseAll]
    exact (bind_pure_unit (x := (ctx.diagnose id fault : Run σ Unit))).symm
  rw [hSingle]
  exact .diagnoseAll id hDeclared (by simpa using hNames)

/-- A piece in front that does not act leaves it to the rest to act. -/
theorem Straight.behind {acts : Bool} {m : Run σ α} {f : α → Run σ β} {post : α → Prop}
    {later : β → Prop} (h : ctx.Straight mine false m post)
    (hThen : ∀ a, post a → ctx.Straight mine acts (f a) later) :
    ctx.Straight mine acts (m >>= f) later := by
  have hBoth := h.bind (Bool.false_and acts) hThen
  rwa [Bool.false_or] at hBoth

theorem Composed.go {gated : Bool} {m : Bool → Run σ α} {post : α → Prop}
    (h : ctx.Composed mine gated m post) : ctx.Composed mine false m post :=
  h.weaken nofun fun _ hPost => hPost

theorem Composed.mono {gated : Bool} {m : Bool → Run σ α} {post post' : α → Prop}
    (h : ctx.Composed mine gated m post) (hImp : ∀ a, post a → post' a) :
    ctx.Composed mine gated m post' :=
  h.weaken id hImp

/-- A straight piece with composed steps behind it. -/
theorem Composed.behind {acts : Bool} {m : Run σ α} {f : Bool → α → Run σ β} {post : α → Prop}
    {later : β → Prop} (h : ctx.Straight mine acts m post)
    (hThen : ∀ a, post a → ctx.Composed mine true (fun b => f b a) later) :
    ctx.Composed mine false (fun b => m >>= f b) later :=
  (Composed.straight h).bind hThen

end Composition

/-! ## Growth -/

section Growth

variable {σ α : Type} [Store σ] {ctx : Context} {mine : Delivery → Prop} {post : α → Prop}
  {s s' : Session σ} {a : α}

theorem Straight.grows {acts : Bool} {m : Run σ α} (h : ctx.Straight mine acts m post)
    (hCache : s.CacheValid ctx.table) (hGives : m.Gives s a s') :
    post a ∧ ∃ acc : Account, s.Grows acc s' ∧ acc.CacheValid ctx.table := by
  induction h generalizing s s' with
  | pure hPost =>
    obtain ⟨rfl, rfl⟩ := gives_pure.mp hGives
    exact ⟨hPost, {}, .refl s, nofun⟩
  | note _ => exact ⟨trivial, {}, ((yields_note s _).of_gives hGives).2, nofun⟩
  | skip k => exact ⟨trivial, _, ((skip_yields k s).of_gives hGives).2, nofun⟩
  | ofExcept hPost _ =>
    obtain ⟨hOk, rfl⟩ := gives_ofExcept.mp hGives
    exact ⟨hPost _ hOk, {}, .refl s, nofun⟩
  | diagnoseAll id _ _ => exact ⟨trivial, _, grows_of_diagnoseAll hGives, nofun⟩
  | candidates f =>
    obtain ⟨hFound, hGrows⟩ := (integrationCandidates_yields _ hCache).of_gives hGives
    exact ⟨hFound, _, hGrows, resolving_cacheValid ctx _ s⟩
  | emit _ _ => exact ⟨trivial, _, grows_of_emit hGives, nofun⟩
  | bind _ _ _ ih ihThen =>
    obtain ⟨b, s₁, hFirst, hSecond⟩ := gives_bind.mp hGives
    obtain ⟨hPost, acc, hGrows, hValid⟩ := ih hCache hFirst
    obtain ⟨hLater, acc', hGrows', hValid'⟩ :=
      ihThen b hPost (hCache.of_grows hValid hGrows) hSecond
    exact ⟨hLater, acc ++ acc', hGrows.trans hGrows', hValid.append hValid'⟩
  | learn _ hLearn ih =>
    obtain ⟨b, _, hYields, hLearned⟩ := hLearn s hCache
    obtain ⟨rfl, _⟩ := hYields.of_gives hGives
    exact ⟨hLearned, (ih hCache hGives).2⟩
  | weaken _ _ hImp ih =>
    obtain ⟨hPost, hGrows⟩ := ih hCache hGives
    exact ⟨hImp _ hPost, hGrows⟩

/-- A step that succeeds gives a result as expected and lets the session grow, whether the run stops
early or not. -/
theorem Composed.grows {gated : Bool} {m : Bool → Run σ α} (h : ctx.Composed mine gated m post)
    (b : Bool) (hCache : s.CacheValid ctx.table) (hGives : (m b).Gives s a s') :
    post a ∧ ∃ acc : Account, s.Grows acc s' ∧ acc.CacheValid ctx.table := by
  induction h generalizing s s' with
  | straight h => exact h.grows hCache hGives
  | pure hPost =>
    obtain ⟨rfl, rfl⟩ := gives_pure.mp hGives
    exact ⟨hPost, {}, .refl s, nofun⟩
  | note _ => exact ⟨trivial, {}, ((yields_note s _).of_gives hGives).2, nofun⟩
  | ask _ _ ihStopped ihGo =>
    obtain ⟨stop, s₁, hAsk, hThen⟩ := gives_bind.mp hGives
    obtain ⟨_, rfl⟩ := gives_shouldStop_iff.mp hAsk
    cases stop with
    | true => exact ihStopped hCache hThen
    | false => exact ihGo hCache hThen
  | bind _ _ ih ihThen =>
    obtain ⟨c, s₁, hFirst, hSecond⟩ := gives_bind.mp hGives
    obtain ⟨hPost, acc, hGrows, hValid⟩ := ih hCache hFirst
    obtain ⟨hLater, acc', hGrows', hValid'⟩ :=
      ihThen c hPost (hCache.of_grows hValid hGrows) hSecond
    exact ⟨hLater, acc ++ acc', hGrows.trans hGrows', hValid.append hValid'⟩
  | during stretch _ ih =>
    obtain ⟨s₁, notes, hStep, rfl⟩ := gives_of_during hGives
    obtain ⟨hPost, acc, hGrows, hValid⟩ := ih hCache hStep
    exact ⟨hPost, acc, hGrows.of_aside s₁.names notes, hValid⟩
  | weaken _ _ hImp ih =>
    obtain ⟨hPost, hGrows⟩ := ih hCache hGives
    exact ⟨hImp _ hPost, hGrows⟩

end Growth

/-! ## Plans -/

section Plans

variable {α : Type} {ctx : Context} {mine : Delivery → Prop} {post : α → Prop} {t : SymbolTable}

theorem follows_diagnose {fault : Fault} (hNotFatal : fault.isFatal = false) (id : String) :
    (ctx.diagnose id fault).Follows t (· = some ((), [])) := by
  unfold diagnose
  rw [hNotFatal]
  exact (follows_note _).behind (follows_modify fun _ _ h => h.of_quiet rfl rfl rfl h.cached)

theorem follows_diagnoseAll {faults : List Fault}
    (hNotFatal : ∀ fault ∈ faults, fault.isFatal = false) (id : String) :
    (ctx.diagnoseAll id faults).Follows t (· = some ((), [])) := by
  induction faults with
  | nil => exact follows_pure ()
  | cons fault rest ih =>
    obtain ⟨hFirst, hRest⟩ := List.forall_mem_cons.mp hNotFatal
    exact (follows_diagnose hFirst id).behind (ih hRest)

theorem follows_skip (k : Skip) : (ctx.skip k).Follows t (· = some ((), [])) :=
  (follows_note _).behind (follows_modify fun _ _ h => h.of_quiet rfl rfl rfl h.cached)

theorem follows_integrationCandidates (id : String) : (ctx.integrationCandidates id).Follows
    ctx.table (· = some (Integration.candidates ctx.table, [])) := by
  refine follows_get_bind fun s l hStart => ?_
  cases hCached : s.candidates with
  | some found =>
    obtain rfl := hStart.cached found hCached
    exact follows_pure _
  | none =>
    have hKeep : (modify fun s => { s with candidates := some (Integration.candidates ctx.table) } :
        Run MemoryStore PUnit).Follows ctx.table (· = some ((), [])) := by
      refine follows_modify fun s l h => h.of_quiet rfl rfl rfl fun found hFound => ?_
      exact (Option.some.inj hFound).symm
    exact hKeep.behind
      ((follows_diagnoseAll Integration.not_fatal_of_mem_faults id).behind (follows_pure _))

theorem Straight.performs {acts : Bool} {m : Run MemoryStore α}
    (h : ctx.Straight mine acts m post) (b : Bool) : (ctx.stopping b).Performs mine m post := by
  induction h with
  | pure hPost => exact performs_pure hPost
  | note _ => exact performs_of_quiet (follows_note _) trivial
  | skip k => exact performs_of_quiet (follows_skip k) trivial
  | ofExcept hPost hSound =>
    exact performs_ofExcept hPost fun hFine => hSound ((sound_stopping ctx b).mp hFine)
  | diagnoseAll id _ hNames =>
    exact performs_of_quiet
      (follows_diagnoseAll (fun fault hMem => (hNames fault hMem).not_fatal) id) trivial
  | candidates f =>
    have hFollows : (ctx.integrationCandidates f.integrationId).Follows ctx.table
        (· = some (Integration.candidates ctx.table, [])) := follows_integrationCandidates _
    exact performs_of_quiet hFollows rfl
  | emit hMine hSound =>
    exact performs_emit hMine fun hFine => hSound ((sound_stopping ctx b).mp hFine)
  | bind _ _ _ ih ihThen => exact ih.bind ihThen
  | learn _ hLearn ih => exact (ih.mono (fun _ hMine => hMine) fun _ _ => trivial).of_yields hLearn
  | weaken _ _ hImp ih => exact ih.mono (fun _ hMine => hMine) hImp

theorem Composed.performs {gated : Bool} {m : Bool → Run MemoryStore α}
    (h : ctx.Composed mine gated m post) (b : Bool) :
    (ctx.stopping b).Performs mine (m b) post := by
  induction h with
  | straight h => exact h.performs b
  | pure hPost => exact performs_pure hPost
  | note _ => exact performs_of_quiet (follows_note _) trivial
  | ask _ _ ihStopped ihGo => exact performs_unless_stopped ihStopped ihGo
  | bind _ _ ih ihThen => exact ih.bind ihThen
  | during stretch _ ih => exact ih.during
  | weaken _ _ hImp ih => exact ih.mono (fun _ hMine => hMine) hImp

end Plans

end Context

end Bindery
