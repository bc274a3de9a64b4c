import Bindery.Proofs.Run.Turns

/-! # Runs that stop early

A composed step is run twice from one session: once collecting diagnostics, and once to stop at the
first of them. As long as there is no diagnostic both runs are the same run. Behind the first one
the run that stops does nothing any more, while the other one goes on and only adds to what both of
them have.
-/

namespace Bindery

open Run

variable {σ α : Type}

namespace Note

theorem Plain.during {n : Note} (h : n.Plain) (stretch : Stretch) : (n.during stretch).Plain :=
  ⟨h.notEmission, h.notDiagnosis⟩

/-- The note may stand in front of the other one if no unit is emitted behind a diagnosis. -/
def MayPrecede (n later : Note) : Prop := n.isDiagnosis = true → later.isEmission = false

theorem pairwise_of_no_diagnosis {l : List Note} (h : ∀ n ∈ l, n.isDiagnosis = false) :
    l.Pairwise MayPrecede := by
  refine List.pairwise_of_forall_mem_list fun n hMem later _ hDiagnosis => ?_
  rw [h n hMem] at hDiagnosis
  cases hDiagnosis

theorem pairwise_of_no_emission {l : List Note} (h : ∀ n ∈ l, n.isEmission = false) :
    l.Pairwise MayPrecede :=
  List.pairwise_of_forall_mem_list fun _ _ later hMem _ => h later hMem

end Note

namespace Session

/-- No declaration has been rejected so far. -/
def Clean (s : Session σ) : Prop := s.journal.diagnostics = []

/-- Notes were added, and each unit and each diagnostic that was recorded has one of them. -/
structure Logs (s : Session σ) (new : List Note) (s' : Session σ) : Prop where
  notes : s'.notes = s.notes ++ new
  emitted : s'.journal.emitted.length = s.journal.emitted.length + new.countP Note.isEmission
  diagnostics :
    s'.journal.diagnostics.length = s.journal.diagnostics.length + new.countP Note.isDiagnosis

namespace Logs

variable {s s₁ s₂ : Session σ} {new later : List Note}

theorem refl (s : Session σ) : s.Logs [] s :=
  ⟨(List.append_nil _).symm, rfl, rfl⟩

theorem trans (h : s.Logs new s₁) (h' : s₁.Logs later s₂) : s.Logs (new ++ later) s₂ where
  notes := by rw [h'.notes, h.notes, List.append_assoc]
  emitted := by rw [h'.emitted, h.emitted, List.countP_append, Nat.add_assoc]
  diagnostics := by rw [h'.diagnostics, h.diagnostics, List.countP_append, Nat.add_assoc]

theorem of_plain (hPlain : ∀ n ∈ new, n.Plain) (hJournal : s₁.journal = s.journal)
    (hNotes : s₁.notes = s.notes ++ new) : s.Logs new s₁ where
  notes := hNotes
  emitted := by
    rw [hJournal, List.countP_eq_zero.mpr fun n hMem => by simp [(hPlain n hMem).notEmission]]
    rfl
  diagnostics := by
    rw [hJournal, List.countP_eq_zero.mpr fun n hMem => by simp [(hPlain n hMem).notDiagnosis]]
    rfl

theorem during (h : s.Logs new s₁) (stretch : Stretch) :
    s.Logs (new.map (Note.during stretch))
      { s₁ with notes := s.notes ++ new.map (Note.during stretch) } where
  notes := rfl
  emitted := by
    rw [List.countP_map]
    exact h.emitted
  diagnostics := by
    rw [List.countP_map]
    exact h.diagnostics

/-- Where nothing was rejected, no note tells of a diagnosis. -/
theorem no_diagnosis (h : s.Logs new s₁) (hClean : s₁.Clean) :
    ∀ n ∈ new, n.isDiagnosis = false := by
  have hCount : 0 = s.journal.diagnostics.length + new.countP Note.isDiagnosis := by
    rw [← h.diagnostics, hClean]
    rfl
  have hNone : new.countP Note.isDiagnosis = 0 := by omega
  intro n hMem
  simpa using List.countP_eq_zero.mp hNone n hMem

end Logs

end Session

/-- Stores whose own notes are not taken for those of generators. -/
structure Store.Quiet (σ : Type) [Store σ] : Prop where
  emit : ∀ (store : σ) (u : GeneratedUnit), ∀ n ∈ (Store.emit store u).notes, n.Plain
  finish : ∀ store : σ, ∀ n ∈ (Store.finish store).notes, n.Plain

namespace Context

variable [Store σ] {ctx : Context} {mine : Delivery → Prop} {post : α → Prop} {s s' : Session σ}
  {a : α}

/-! ## Two runs of one step -/

/-- A run that is to stop has nothing left to do but to say so. -/
theorem Composed.idles {gated : Bool} {m : Bool → Run σ α} (h : ctx.Composed mine gated m post)
    (hGated : gated = true) (hStopped : ¬ s.Clean) : ∃ b notes,
      (m true).Gives s b { s with notes := s.notes ++ notes } ∧ post b ∧ ∀ n ∈ notes, n.Plain := by
  induction h generalizing s with
  | straight _ => cases hGated
  | @pure _ b _ hPost =>
    refine ⟨b, [], gives_pure.mpr ⟨rfl, ?_⟩, hPost, by simp⟩
    rw [List.append_nil]
  | @note n hPlain => exact ⟨(), [n], gives_note.mpr rfl, trivial, by simpa using hPlain⟩
  | ask _ _ ihStopped _ =>
    obtain ⟨b, notes, hGives, hPost⟩ := ihStopped rfl hStopped
    refine ⟨b, notes, gives_bind.mpr ⟨true, s, gives_shouldStop_iff.mpr ⟨?_, rfl⟩, hGives⟩, hPost⟩
    rw [failFast_stopping, Bool.true_and, List.isEmpty_eq_false_iff.mpr hStopped]
    rfl
  | bind _ _ ih ihThen =>
    obtain ⟨b, notes, hFirst, hPost, hPlain⟩ := ih hGated hStopped
    obtain ⟨c, notes', hSecond, hLater, hPlain'⟩ :=
      ihThen b hPost rfl (s := { s with notes := s.notes ++ notes }) hStopped
    refine ⟨c, notes ++ notes', gives_bind.mpr ⟨b, _, hFirst, ?_⟩, hLater,
      List.forall_mem_append.mpr ⟨hPlain, hPlain'⟩⟩
    rw [← List.append_assoc]
    exact hSecond
  | during stretch _ ih =>
    obtain ⟨b, notes, hGives, hPost, hPlain⟩ := ih hGated hStopped
    refine ⟨b, notes.map (Note.during stretch), ?_, hPost, ?_⟩
    · have hDuring := hGives.during stretch
      rwa [List.take_left, List.drop_left] at hDuring
    · rintro _ hMem
      obtain ⟨n, hNote, rfl⟩ := List.mem_map.mp hMem
      exact (hPlain n hNote).during stretch
  | weaken _ hWeaker hImp ih =>
    obtain ⟨b, notes, hGives, hPost, hPlain⟩ := ih (hWeaker hGated) hStopped
    exact ⟨b, notes, hGives, hImp b hPost, hPlain⟩

/-- A step that succeeds while diagnostics are collected succeeds in a run that stops early too.
What the latter leaves behind grows into what the former does, and is the same unless it stopped. -/
theorem Composed.tracks {gated : Bool} {m : Bool → Run σ α} (h : ctx.Composed mine gated m post)
    (hCache : s.CacheValid ctx.table) (hGives : (m false).Gives s a s') : ∃ b s₁,
      (m true).Gives s b s₁ ∧ (∃ acc, s₁.Grows acc s') ∧ (s₁.Clean → b = a ∧ s₁ = s') := by
  induction h generalizing s s' with
  | straight _ => exact ⟨a, s', hGives, ⟨{}, .refl s'⟩, fun _ => ⟨rfl, rfl⟩⟩
  | pure _ => exact ⟨a, s', hGives, ⟨{}, .refl s'⟩, fun _ => ⟨rfl, rfl⟩⟩
  | note _ => exact ⟨a, s', hGives, ⟨{}, .refl s'⟩, fun _ => ⟨rfl, rfl⟩⟩
  | ask hStopped hGo _ ihGo =>
    obtain ⟨_, s₀, hAsk, hThen⟩ := gives_bind.mp hGives
    obtain ⟨rfl, rfl⟩ := gives_shouldStop_iff.mp hAsk
    by_cases hClean : s.Clean
    · obtain ⟨b, s₁, hStrict, hRest⟩ := ihGo hCache hThen
      refine ⟨b, s₁, gives_bind.mpr ⟨false, s, gives_shouldStop_iff.mpr ⟨?_, rfl⟩, hStrict⟩, hRest⟩
      rw [hClean]
      rfl
    · obtain ⟨b, notes, hIdle, _⟩ := (Composed.ask hStopped hGo).idles rfl hClean
      obtain ⟨_, acc, hGrows, _⟩ := hGo.grows false hCache hThen
      exact ⟨b, _, hIdle, ⟨acc, hGrows.of_start s.names _⟩, fun hNone => absurd hNone hClean⟩
  | bind h hThen ih ihThen =>
    obtain ⟨c, s₂, hFirst, hSecond⟩ := gives_bind.mp hGives
    obtain ⟨hPost, acc₀, hGrows₀, hValid⟩ := h.grows false hCache hFirst
    have hCache₂ := hCache.of_grows hValid hGrows₀
    obtain ⟨b, s₁, hStrict, ⟨acc, hGrows⟩, hSame⟩ := ih hCache hFirst
    by_cases hClean : s₁.Clean
    · obtain ⟨rfl, rfl⟩ := hSame hClean
      obtain ⟨d, s₃, hStrict', hRest⟩ := ihThen b hPost hCache₂ hSecond
      exact ⟨d, s₃, gives_bind.mpr ⟨b, s₁, hStrict, hStrict'⟩, hRest⟩
    -- the results differ here, and all that is known is that what comes behind has nothing to do
    · obtain ⟨hPost', _⟩ := h.grows true hCache hStrict
      obtain ⟨d, notes, hIdle, _⟩ := (hThen b hPost').idles rfl hClean
      obtain ⟨_, acc', hGrows', _⟩ := (hThen c hPost).grows false hCache₂ hSecond
      exact ⟨d, _, gives_bind.mpr ⟨b, s₁, hStrict, hIdle⟩,
        ⟨acc ++ acc', (hGrows.trans hGrows').of_start s₁.names _⟩, fun hNone => absurd hNone hClean⟩
  | during stretch _ ih =>
    obtain ⟨s₂, notes, hStep, rfl⟩ := gives_of_during hGives
    obtain ⟨b, s₁, hStrict, ⟨acc, hGrows⟩, hSame⟩ := ih hCache hStep
    refine ⟨b, _, hStrict.during stretch, ⟨acc, ?_⟩, fun hClean => ?_⟩
    · exact (hGrows.of_start s₁.names _).of_aside s₂.names notes
    · obtain ⟨rfl, rfl⟩ := hSame hClean
      exact (hStep.during stretch).unique hGives
  | weaken _ _ _ ih => exact ih hCache hGives

/-! ## Notes of straight pieces -/

omit [Store σ] in
/-- The note of a fault and the diagnostic for it are made together. -/
theorem logs_of_diagnoseAll {id : String} {faults : List Fault} {u : Unit}
    (h : (ctx.diagnoseAll id faults : Run σ Unit).Gives s u s') :
    ∃ new, s.Logs new s' ∧ ∀ n ∈ new, n.isEmission = false := by
  induction faults generalizing s with
  | nil =>
    obtain ⟨_, rfl⟩ := gives_pure.mp h
    exact ⟨[], .refl s, by simp⟩
  | cons fault rest ih =>
    obtain ⟨_, s₁, hFirst, hRest⟩ := gives_bind.mp h
    obtain ⟨new, hLogs, hNone⟩ := ih hRest
    unfold diagnose at hFirst
    rw [not_fatal_of_diagnose hFirst] at hFirst
    obtain ⟨_, _, hNote, hRecord⟩ := gives_bind.mp hFirst
    obtain rfl := gives_note.mp hNote
    obtain rfl := gives_modify.mp hRecord
    let n : Note := { level := .warn, target := "sealant_kernel::generator",
                      message := fault.message, fields := ["generator", "kind"] }
    have hOne : s.Logs [n] { s with
        notes := s.notes ++ [n]
        journal.diagnostics := s.journal.diagnostics ++ [ctx.diagnosticOf id fault] } :=
      ⟨rfl, rfl, List.length_append⟩
    exact ⟨[n] ++ new, hOne.trans hLogs, List.forall_mem_cons.mpr ⟨rfl, hNone⟩⟩

omit [Store σ] in
theorem logs_of_skip {k : Skip} {u : Unit} (h : (ctx.skip k : Run σ Unit).Gives s u s') :
    ∃ n : Note, n.Plain ∧ s.Logs [n] s' ∧ s'.journal.diagnostics = s.journal.diagnostics := by
  obtain ⟨_, _, hNote, hRecord⟩ := gives_bind.mp h
  obtain rfl := gives_note.mp hNote
  obtain rfl := gives_modify.mp hRecord
  exact ⟨_, ⟨rfl, rfl⟩, ⟨rfl, rfl, rfl⟩, rfl⟩

/-- The candidates are resolved once, and what is wrong with them is recorded then. -/
theorem logs_of_integrationCandidates {id : String} {found : List Candidate}
    (h : (ctx.integrationCandidates id : Run σ _).Gives s found s') :
    ∃ new, s.Logs new s' ∧ (∀ n ∈ new, n.isEmission = false) ∧
      (s'.journal.diagnostics = s.journal.diagnostics ∨ s'.journal.diagnostics =
        s.journal.diagnostics ++ (Integration.faults ctx.table).map (ctx.diagnosticOf id)) := by
  obtain ⟨_, _, hGet, hThen⟩ := gives_bind.mp h
  obtain ⟨rfl, rfl⟩ := gives_get.mp hGet
  cases hCached : s.candidates with
  | some kept =>
    rw [hCached] at hThen
    obtain ⟨_, rfl⟩ := gives_pure.mp hThen
    exact ⟨[], .refl s, by simp, .inl rfl⟩
  | none =>
    rw [hCached] at hThen
    obtain ⟨_, _, hKeep, hThen⟩ := gives_bind.mp hThen
    obtain rfl := gives_modify.mp hKeep
    obtain ⟨_, s₁, hRecord, hEnd⟩ := gives_bind.mp hThen
    obtain ⟨_, rfl⟩ := gives_pure.mp hEnd
    obtain ⟨new, hLogs, hNone⟩ := logs_of_diagnoseAll hRecord
    exact ⟨new, ⟨hLogs.notes, hLogs.emitted, hLogs.diagnostics⟩, hNone,
      .inr (grows_of_diagnoseAll hRecord).diagnostics⟩

theorem logs_of_emit (hQuiet : Store.Quiet σ) {id : String} {file : Source.File}
    {origin : Declaration} {u : Unit} (h : (ctx.emit id file origin : Run σ Unit).Gives s u s') :
    ∃ new, s.Logs new s' ∧ (∀ n ∈ new, n.isDiagnosis = false) ∧
      s'.journal.diagnostics = s.journal.diagnostics := by
  simp only [emit, gives_bind, gives_ofExcept, remark, gives_note, gives_modify] at h
  obtain ⟨names, _, ⟨_, rfl⟩, _, s₁, hClaim, _, s₂, hKeep, _, _, rfl, rfl⟩ := h
  obtain ⟨claimed, rfl⟩ := names_of_claimAll hClaim
  simp only [keep, gives_bind, gives_get, gives_set, gives_ofExcept] at hKeep
  obtain ⟨_, _, ⟨rfl, rfl⟩, _, _, rfl, _, rfl⟩ := hKeep
  have hOwn := hQuiet.emit s.store ⟨id, file, origin.sourceFile.toList⟩
  let n : Note := { level := .debug, target := "sealant_kernel::generator",
                    message := "Unit emitted", fields := ["generator", "unit", "origin"] }
  have hKept : s.Logs (Store.emit s.store ⟨id, file, origin.sourceFile.toList⟩).notes
      { s with notes := s.notes ++ (Store.emit s.store ⟨id, file, _⟩).notes } :=
    .of_plain hOwn rfl rfl
  refine ⟨_ ++ [n], hKept.trans ⟨rfl, List.length_append, rfl⟩, ?_, rfl⟩
  exact List.forall_mem_append.mpr ⟨fun n hMem => (hOwn n hMem).notDiagnosis, by simp; rfl⟩

/-- A piece that does not act leaves the diagnostics alone. -/
theorem Straight.calm {acts : Bool} {m : Run σ α} (h : ctx.Straight mine acts m post)
    (hActs : acts = false) (hCache : s.CacheValid ctx.table) (hGives : m.Gives s a s') :
    ∃ new, s.Logs new s' ∧ (∀ n ∈ new, n.Plain) ∧
      s'.journal.diagnostics = s.journal.diagnostics := by
  induction h generalizing s s' with
  | pure _ =>
    obtain ⟨_, rfl⟩ := gives_pure.mp hGives
    exact ⟨[], .refl s, by simp, rfl⟩
  | @note n hPlain =>
    obtain rfl := gives_note.mp hGives
    have hOnly : ∀ n' ∈ [n], n'.Plain := by simpa using hPlain
    exact ⟨[n], .of_plain hOnly rfl rfl, hOnly, rfl⟩
  | skip k =>
    obtain ⟨n, hPlain, hLogs, hSame⟩ := logs_of_skip hGives
    exact ⟨[n], hLogs, by simpa using hPlain, hSame⟩
  | ofExcept _ _ =>
    obtain ⟨_, rfl⟩ := gives_ofExcept.mp hGives
    exact ⟨[], .refl s, by simp, rfl⟩
  | diagnoseAll _ _ _ => cases hActs
  | candidates _ => cases hActs
  | emit _ _ => cases hActs
  | bind _ h _ ih ihThen =>
    obtain ⟨hFirst, hSecond⟩ := Bool.or_eq_false_iff.mp hActs
    obtain ⟨b, s₁, hGives₁, hGives₂⟩ := gives_bind.mp hGives
    obtain ⟨hPost, acc, hGrows, hValid⟩ := h.grows hCache hGives₁
    obtain ⟨new, hLogs, hPlain, hSame⟩ := ih hFirst hCache hGives₁
    obtain ⟨new', hLogs', hPlain', hSame'⟩ :=
      ihThen b hPost hSecond (hCache.of_grows hValid hGrows) hGives₂
    exact ⟨new ++ new', hLogs.trans hLogs', List.forall_mem_append.mpr ⟨hPlain, hPlain'⟩,
      hSame'.trans hSame⟩
  | learn _ _ ih => exact ih hActs hCache hGives
  | weaken _ hWeaker _ ih =>
    refine ih (Bool.eq_false_iff.mpr fun hTrue => ?_) hCache hGives
    rw [hWeaker hTrue] at hActs
    cases hActs

/-! ## Runs that stop early -/

/-- The diagnostics were recorded without a question in between: there are none, or they are those
of the scopes, or of one declaration, or of the candidates. -/
inductive Batch (ctx : Context) : List Diagnostic → Prop where
  | none : Batch ctx []
  | scopes : Batch ctx
      ((ScopeGraph.build ctx.table).2.map (ctx.diagnosticOf Pipeline.scopeGraphId))
  | declaration {l : List Diagnostic} {owner : Declaration}
      (hDeclared : owner ∈ ctx.table.declarations)
      (hNames : ∀ d ∈ l, d.declaration = some owner.name.canonical) : Batch ctx l
  | candidates (f : Feature) :
      Batch ctx ((Integration.faults ctx.table).map (ctx.diagnosticOf f.integrationId))

/-- What a run that stops early does from a session without diagnostics. -/
structure Proceeds (ctx : Context) (s : Session σ) (new : List Note) (s' : Session σ) : Prop where
  logs : s.Logs new s'
  ordered : new.Pairwise Note.MayPrecede
  batch : ctx.Batch s'.journal.diagnostics

omit [Store σ] in
theorem Proceeds.of_plain {new : List Note} (hLogs : s.Logs new s')
    (hPlain : ∀ n ∈ new, n.Plain) (hClean : s'.Clean) : ctx.Proceeds s new s' where
  logs := hLogs
  ordered := Note.pairwise_of_no_diagnosis fun n hMem => (hPlain n hMem).notDiagnosis
  batch := by
    rw [hClean]
    exact .none

omit [Store σ] in
/-- Steps that follow a session without diagnostics. -/
theorem Proceeds.trans {s₁ s₂ : Session σ} {new later : List Note} (h : ctx.Proceeds s new s₁)
    (hClean : s₁.Clean) (h' : ctx.Proceeds s₁ later s₂) : ctx.Proceeds s (new ++ later) s₂ where
  logs := h.logs.trans h'.logs
  ordered := by
    refine List.pairwise_append.mpr ⟨h.ordered, h'.ordered, fun n hMem _ _ hDiagnosis => ?_⟩
    rw [h.logs.no_diagnosis hClean n hMem] at hDiagnosis
    cases hDiagnosis
  batch := h'.batch

omit [Store σ] in
/-- Steps that leave the diagnostics alone do not emit anything either. -/
theorem Proceeds.quietly {s₁ s₂ : Session σ} {new later : List Note} (h : ctx.Proceeds s new s₁)
    (hLogs : s₁.Logs later s₂) (hPlain : ∀ n ∈ later, n.Plain)
    (hSame : s₂.journal.diagnostics = s₁.journal.diagnostics) :
    ctx.Proceeds s (new ++ later) s₂ where
  logs := h.logs.trans hLogs
  ordered := by
    refine List.pairwise_append.mpr ⟨h.ordered, ?_, fun _ _ n hMem _ => (hPlain n hMem).notEmission⟩
    exact Note.pairwise_of_no_emission fun n hMem => (hPlain n hMem).notEmission
  batch := hSame ▸ h.batch

theorem Straight.proceeds_of_calm {m : Run σ α} (h : ctx.Straight mine false m post)
    (hCache : s.CacheValid ctx.table) (hClean : s.Clean) (hGives : m.Gives s a s') :
    ∃ new, ctx.Proceeds s new s' := by
  obtain ⟨new, hLogs, hPlain, hSame⟩ := h.calm rfl hCache hGives
  exact ⟨new, .of_plain hLogs hPlain (hSame.trans hClean)⟩

/-- A piece acts once, so that its diagnostics are of one batch. -/
theorem Straight.proceeds {acts : Bool} {m : Run σ α} (h : ctx.Straight mine acts m post)
    (hQuiet : Store.Quiet σ) (hCache : s.CacheValid ctx.table) (hClean : s.Clean)
    (hGives : m.Gives s a s') : ∃ new, ctx.Proceeds s new s' := by
  induction h generalizing s s' with
  | pure hPost =>
    have hPiece : ctx.Straight mine false (Pure.pure _ : Run σ _) _ := .pure hPost
    exact hPiece.proceeds_of_calm hCache hClean hGives
  | note hPlain =>
    have hPiece : ctx.Straight mine false (Run.note _ : Run σ Unit) _ := .note hPlain
    exact hPiece.proceeds_of_calm hCache hClean hGives
  | skip k =>
    have hPiece : ctx.Straight mine false (ctx.skip k : Run σ Unit) _ := .skip k
    exact hPiece.proceeds_of_calm hCache hClean hGives
  | ofExcept hPost hSound =>
    have hPiece : ctx.Straight mine false (Run.ofExcept _ : Run σ _) _ := .ofExcept hPost hSound
    exact hPiece.proceeds_of_calm hCache hClean hGives
  | diagnoseAll id hDeclared hNames =>
    obtain ⟨new, hLogs, hNone⟩ := logs_of_diagnoseAll hGives
    refine ⟨new, hLogs, Note.pairwise_of_no_emission hNone, .declaration hDeclared ?_⟩
    rw [(grows_of_diagnoseAll hGives).diagnostics, hClean]
    rintro _ hMem
    obtain ⟨fault, hFault, rfl⟩ := List.mem_map.mp hMem
    exact hNames fault hFault
  | candidates f =>
    obtain ⟨new, hLogs, hNone, hRecorded⟩ := logs_of_integrationCandidates hGives
    refine ⟨new, hLogs, Note.pairwise_of_no_emission hNone, ?_⟩
    rw [show s.journal.diagnostics = [] from hClean] at hRecorded
    rcases hRecorded with hNothing | hAll
    · rw [hNothing]
      exact .none
    · rw [hAll]
      exact .candidates f
  | emit _ _ =>
    obtain ⟨new, hLogs, hNone, hSame⟩ := logs_of_emit hQuiet hGives
    refine ⟨new, hLogs, Note.pairwise_of_no_diagnosis hNone, ?_⟩
    rw [hSame, hClean]
    exact .none
  | @bind _ _ first second _ _ _ _ hOnce h hThen ih ihThen =>
    obtain ⟨b, s₁, hGives₁, hGives₂⟩ := gives_bind.mp hGives
    obtain ⟨hPost, acc, hGrows, hValid⟩ := h.grows hCache hGives₁
    have hCache₁ := hCache.of_grows hValid hGrows
    cases first with
    | false =>
      obtain ⟨new, hLogs, hPlain, hSame⟩ := h.calm rfl hCache hGives₁
      have hClean₁ : s₁.Clean := hSame.trans hClean
      obtain ⟨new', hProceeds⟩ := ihThen b hPost hCache₁ hClean₁ hGives₂
      have hFirst : ctx.Proceeds s new s₁ := .of_plain hLogs hPlain hClean₁
      exact ⟨new ++ new', hFirst.trans hClean₁ hProceeds⟩
    | true =>
      obtain ⟨new, hProceeds⟩ := ih hCache hClean hGives₁
      obtain ⟨new', hLogs', hPlain', hSame'⟩ := (hThen b hPost).calm hOnce hCache₁ hGives₂
      exact ⟨new ++ new', hProceeds.quietly hLogs' hPlain' hSame'⟩
  | learn _ _ ih => exact ih hCache hClean hGives
  | weaken _ _ _ ih => exact ih hCache hClean hGives

/-- Behind its first diagnostics a run that stops early emits nothing and records no more. -/
theorem Composed.proceeds {gated : Bool} {m : Bool → Run σ α} (h : ctx.Composed mine gated m post)
    (hQuiet : Store.Quiet σ) (hCache : s.CacheValid ctx.table) (hClean : s.Clean)
    (hGives : (m true).Gives s a s') : ∃ new, ctx.Proceeds s new s' := by
  induction h generalizing s s' with
  | straight h => exact h.proceeds hQuiet hCache hClean hGives
  | pure hPost =>
    obtain ⟨_, rfl⟩ := gives_pure.mp hGives
    exact ⟨[], .of_plain (.refl s) (by simp) hClean⟩
  | @note n hPlain =>
    obtain rfl := gives_note.mp hGives
    have hOnly : ∀ n' ∈ [n], n'.Plain := by simpa using hPlain
    exact ⟨[n], .of_plain (.of_plain hOnly rfl rfl) hOnly hClean⟩
  | ask _ _ _ ihGo =>
    obtain ⟨_, _, hAsk, hThen⟩ := gives_bind.mp hGives
    obtain ⟨hStop, rfl⟩ := gives_shouldStop_iff.mp hAsk
    rw [hClean] at hStop
    obtain rfl := hStop
    exact ihGo hCache hClean hThen
  | bind h hThen ih ihThen =>
    obtain ⟨b, s₁, hGives₁, hGives₂⟩ := gives_bind.mp hGives
    obtain ⟨hPost, acc, hGrows, hValid⟩ := h.grows true hCache hGives₁
    obtain ⟨new, hFirst⟩ := ih hCache hClean hGives₁
    by_cases hClean₁ : s₁.Clean
    · obtain ⟨new', hSecond⟩ := ihThen b hPost (hCache.of_grows hValid hGrows) hClean₁ hGives₂
      exact ⟨new ++ new', hFirst.trans hClean₁ hSecond⟩
    · obtain ⟨c, notes, hIdle, _, hPlain⟩ := (hThen b hPost).idles rfl hClean₁
      obtain ⟨_, rfl⟩ := hIdle.unique hGives₂
      exact ⟨new ++ notes, hFirst.quietly (.of_plain hPlain rfl rfl) hPlain rfl⟩
  | during stretch _ ih =>
    obtain ⟨s₁, notes, hStep, rfl⟩ := gives_of_during hGives
    obtain ⟨new, hProceeds⟩ := ih hCache hClean hStep
    have hNotes := hStep.during stretch
    rw [hProceeds.logs.notes, List.take_left, List.drop_left] at hNotes
    obtain ⟨_, hSame⟩ := hNotes.unique hGives
    rw [← hSame]
    refine ⟨new.map (Note.during stretch), hProceeds.logs.during stretch, ?_, hProceeds.batch⟩
    exact List.pairwise_map.mpr hProceeds.ordered
  | weaken _ _ _ ih => exact ih hCache hClean hGives

end Context

end Bindery
