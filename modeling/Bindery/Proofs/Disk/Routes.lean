import Bindery.Proofs.Disk.Paths
import Bindery.Proofs.OrderedMap

/-! # Where names lead

Which key some names lead to does not depend on the disk. The disk decides only whether the names
can be followed: every key passed on the way has to be a directory. Making directories along some
names works unless a file is in the way, and afterwards every key on the trail of the names is a
directory.
-/

namespace Bindery.Disk

open Bindery.Path (IsName)

variable {disk disk' : Disk} {key k : DiskKey} {names : List String}

@[simp] theorem entry?_nil (disk : Disk) : disk.entry? [] = some .directory := rfl

theorem entry?_of_ne_nil (h : key ≠ []) : disk.entry? key = disk.entries.get? key := by
  cases key with
  | nil => exact absurd rfl h
  | cons name rest => rfl

theorem entry?_put (h : key ≠ []) (entry : DiskEntry) (k : DiskKey) :
    Disk.entry? (disk.put key entry) k = if k = key then some entry else disk.entry? k := by
  by_cases hNil : k = []
  · rw [hNil, entry?_nil, entry?_nil, if_neg h.symm]
  · rw [entry?_of_ne_nil hNil, entry?_of_ne_nil hNil, put, OrderedMap.get?_insert]
    simp only [eq_comm]

theorem entry?_remove (h : key ≠ []) (k : DiskKey) :
    Disk.entry? (disk.remove key) k = if k = key then none else disk.entry? k := by
  by_cases hNil : k = []
  · rw [hNil, entry?_nil, entry?_nil, if_neg h.symm]
  · rw [entry?_of_ne_nil hNil, entry?_of_ne_nil hNil, remove, OrderedMap.get?_erase]

/-! ## Following names -/

/-- The key that a name leads to from a directory. -/
def moved (key : DiskKey) (name : String) : DiskKey :=
  if name = "." then key else if name = ".." then key.dropLast else key ++ [name]

/-- The key at the end of some names. -/
def lead (key : DiskKey) (names : List String) : DiskKey := names.foldl moved key

/-- The keys that are come to along some names. -/
def trail (key : DiskKey) : List String → List DiskKey
  | [] => []
  | name :: rest => moved key name :: trail (moved key name) rest

/-- Every name is asked of a directory, and none is too long. -/
def Passes (disk : Disk) (key : DiskKey) : List String → Prop
  | [] => True
  | name :: rest => disk.entry? key = some .directory ∧ name.utf8ByteSize ≤ maxNameLength ∧
      disk.Passes (moved key name) rest

instance decidablePasses (disk : Disk) (key : DiskKey) :
    (names : List String) → Decidable (disk.Passes key names)
  | [] => inferInstanceAs (Decidable True)
  | name :: rest =>
    have := decidablePasses disk (moved key name) rest
    inferInstanceAs (Decidable (_ ∧ _ ∧ _))

theorem step_eq_ok_iff {name : String} : disk.step key name = .ok k ↔
    disk.entry? key = some .directory ∧ name.utf8ByteSize ≤ maxNameLength ∧ k = moved key name := by
  have hHere : ".".utf8ByteSize ≤ maxNameLength := by decide
  have hUp : "..".utf8ByteSize ≤ maxNameLength := by decide
  unfold step moved
  split
  · next hNone => simp [hNone]
  · next hFile => simp [hFile]
  · next hDirectory =>
    split_ifs with hDot hDots hLong
    · simp [hDirectory, hDot, hHere, eq_comm]
    · simp [hDirectory, hDots, hUp, eq_comm]
    · simp [hDirectory, hLong]
    · simp [hDirectory, Nat.not_lt.mp hLong, eq_comm]

theorem follow_eq_ok_iff :
    disk.follow key names = .ok k ↔ disk.Passes key names ∧ k = lead key names := by
  induction names generalizing key with
  | nil => simp [follow, Passes, lead, eq_comm]
  | cons name rest ih =>
    rw [follow, Passes]
    constructor
    · intro hFollow
      cases hStep : disk.step key name with
      | error kind =>
        rw [hStep] at hFollow
        cases hFollow
      | ok next =>
        rw [hStep] at hFollow
        obtain ⟨hDirectory, hShort, rfl⟩ := step_eq_ok_iff.mp hStep
        obtain ⟨hRest, hLead⟩ := ih.mp hFollow
        exact ⟨⟨hDirectory, hShort, hRest⟩, hLead⟩
    · rintro ⟨⟨hDirectory, hShort, hRest⟩, hLead⟩
      rw [step_eq_ok_iff.mpr ⟨hDirectory, hShort, rfl⟩]
      exact ih.mpr ⟨hRest, hLead⟩

theorem lead_append (key : DiskKey) (front rest : List String) :
    lead key (front ++ rest) = lead (lead key front) rest := List.foldl_append

theorem trail_append (key : DiskKey) (front rest : List String) :
    trail key (front ++ rest) = trail key front ++ trail (lead key front) rest := by
  induction front generalizing key with
  | nil => rfl
  | cons name front ih => simp [trail, ih, lead]

theorem passes_append {front rest : List String} : disk.Passes key (front ++ rest) ↔
    disk.Passes key front ∧ disk.Passes (lead key front) rest := by
  induction front generalizing key with
  | nil => simp [Passes, lead]
  | cons name front ih => simp [Passes, ih, lead, and_assoc]

theorem lead_mem_trail (h : names ≠ []) : lead key names ∈ trail key names := by
  induction names generalizing key with
  | nil => exact absurd rfl h
  | cons name rest ih =>
    cases rest with
    | nil => exact List.mem_cons_self
    | cons next rest => exact List.mem_cons_of_mem _ (ih (by simp))

/-- Names pass if they are short and lead through directories. -/
theorem passes_of_trail (hStart : disk.entry? key = some .directory)
    (hShort : ∀ name ∈ names, name.utf8ByteSize ≤ maxNameLength)
    (hTrail : ∀ k ∈ trail key names, disk.entry? k = some .directory) : disk.Passes key names := by
  induction names generalizing key with
  | nil => trivial
  | cons name rest ih =>
    obtain ⟨hNext, hRest⟩ := List.forall_mem_cons.mp hTrail
    obtain ⟨hName, hNames⟩ := List.forall_mem_cons.mp hShort
    exact ⟨hStart, hName, ih hNext hNames hRest⟩

theorem Passes.mono (h : disk.Passes key names)
    (hKept : ∀ k, disk.entry? k = some .directory → disk'.entry? k = some .directory) :
    disk'.Passes key names := by
  induction names generalizing key with
  | nil => trivial
  | cons name rest ih => exact ⟨hKept _ h.1, h.2.1, ih h.2.2⟩

theorem start_eq {path path' : String} (hHome : disk'.home = disk.home)
    (hPath : Path.isAbsolute path' = Path.isAbsolute path) :
    disk'.start path' = disk.start path := by
  rw [start, start, hHome, hPath]

theorem locate_eq_ok_iff {path : String} : disk.locate path = .ok k ↔
    refusal? path = none ∧ disk.Passes (disk.start path) (route path) ∧
      k = lead (disk.start path) (route path) := by
  rw [locate, followPath]
  split
  · next hRefused => simp [hRefused]
  · next hFine => simp [hFine, follow_eq_ok_iff]

/-- What is asked of a path, in a form that can be evaluated. -/
theorem locate_eq_ok_iff_text {path : String} : disk.locate path = .ok k ↔
    (path ≠ "" ∧ '\x00' ∉ path.toList ∧ path.utf8ByteSize ≤ maxPathLength) ∧
      let start := if path.toList.head? = some '/' then [] else disk.home
      let route := Disk.names path ++ if path.toList.getLast? = some '/' then ["."] else []
      disk.Passes start route ∧ k = lead start route := by
  have hRoute : route path =
      Disk.names path ++ if path.toList.getLast? = some '/' then ["."] else [] := by
    rw [route, Path.endsWith_slash_eq]
    by_cases hSlash : path.toList.getLast? = some '/' <;> simp [hSlash]
  rw [locate_eq_ok_iff, refusal?_eq_none_iff, hRoute, start, Path.isAbsolute_eq]
  simp only [decide_eq_true_eq]

/-- The later disk still has the directories of the earlier one. -/
structure Keeps (disk disk' : Disk) : Prop where
  home : disk'.home = disk.home
  directory : ∀ k, disk.entry? k = some .directory → disk'.entry? k = some .directory

theorem Keeps.trans {disk'' : Disk} (h : disk.Keeps disk') (h' : disk'.Keeps disk'') :
    disk.Keeps disk'' :=
  ⟨h'.home.trans h.home, fun k hDirectory => h'.directory k (h.directory k hDirectory)⟩

/-- Paths go on to lead where they led. -/
theorem Keeps.locate {path : String} (h : disk.Keeps disk') (hLocate : disk.locate path = .ok k) :
    disk'.locate path = .ok k := by
  obtain ⟨hFine, hPasses, hLead⟩ := locate_eq_ok_iff.mp hLocate
  rw [locate_eq_ok_iff, start_eq h.home rfl]
  exact ⟨hFine, hPasses.mono h.directory, hLead⟩

theorem lookup_eq_ok_iff {path : String} {entry : DiskEntry} : disk.lookup path = .ok (k, entry) ↔
    disk.locate path = .ok k ∧ disk.entry? k = some entry := by
  unfold lookup
  cases hLocate : disk.locate path with
  | error kind => simp [Except.bind]
  | ok found =>
    simp only [Except.bind]
    cases hEntry : disk.entry? found with
    | none =>
      simp only [reduceCtorEq, Except.ok.injEq, false_iff, not_and]
      rintro rfl
      simp [hEntry]
    | some other =>
      simp only [Except.ok.injEq, Prod.mk.injEq]
      constructor
      · rintro ⟨rfl, rfl⟩
        exact ⟨rfl, hEntry⟩
      · rintro ⟨rfl, hSame⟩
        exact ⟨rfl, Option.some.inj (hEntry.symm.trans hSame)⟩

theorem readText_eq_ok_iff {path text : String} : disk.readText path = .ok text ↔
    ∃ k, disk.locate path = .ok k ∧ disk.entry? k = some (.file (.text text)) := by
  simp only [← lookup_eq_ok_iff]
  unfold readText
  cases hLookup : disk.lookup path with
  | error kind => simp [Except.bind]
  | ok found =>
    obtain ⟨k, entry⟩ := found
    match entry with
    | .directory => simp [Except.bind]
    | .file (.binary bytes) => simp [Except.bind]
    | .file (.text other) => simp [Except.bind]

/-! ## Names of entries -/

theorem moved_of_isName {name : String} (h : IsName name) : moved key name = key ++ [name] := by
  rw [moved, if_neg h.notHere, if_neg h.notUp]

theorem lead_of_isName (h : ∀ name ∈ names, IsName name) : lead key names = key ++ names := by
  induction names generalizing key with
  | nil => simp [lead]
  | cons name rest ih =>
    obtain ⟨hName, hRest⟩ := List.forall_mem_cons.mp h
    have hLead : lead (moved key name) rest = moved key name ++ rest := ih hRest
    rw [moved_of_isName hName, List.append_assoc] at hLead
    rwa [lead, List.foldl_cons, moved_of_isName hName]

theorem mem_trail_of_isName (h : ∀ name ∈ names, IsName name) :
    k ∈ trail key names ↔ ∃ front, front ≠ [] ∧ front <+: names ∧ k = key ++ front := by
  induction names generalizing key with
  | nil =>
    simp only [trail, List.not_mem_nil, List.prefix_nil, false_iff, not_exists, not_and]
    intro front hSome hNone
    exact absurd hNone hSome
  | cons name rest ih =>
    obtain ⟨hName, hRest⟩ := List.forall_mem_cons.mp h
    rw [trail, List.mem_cons, ih hRest, moved_of_isName hName]
    constructor
    · rintro (rfl | ⟨front, -, hPrefix, rfl⟩)
      · exact ⟨[name], by simp, by simp, rfl⟩
      · exact ⟨name :: front, by simp, by simpa using hPrefix, by simp⟩
    · rintro ⟨front, hSome, hPrefix, rfl⟩
      obtain ⟨first, front, rfl⟩ := List.exists_cons_of_ne_nil hSome
      obtain ⟨rfl, hRestPrefix⟩ := List.cons_prefix_cons.mp hPrefix
      by_cases hNil : front = []
      · exact .inl (by rw [hNil])
      · exact .inr ⟨front, hNil, hRestPrefix, by simp⟩

theorem lead_append_dots {dots : List String} (h : ∀ dot ∈ dots, dot = ".") :
    lead key (names ++ dots) = lead key names := by
  rw [lead_append]
  generalize lead key names = key
  induction dots generalizing key with
  | nil => rfl
  | cons dot rest ih =>
    obtain ⟨rfl, hRest⟩ := List.forall_mem_cons.mp h
    exact ih hRest key

theorem eq_lead_of_mem_trail_dots {dots : List String} (h : ∀ dot ∈ dots, dot = ".")
    (hMem : k ∈ trail key dots) : k = key := by
  induction dots generalizing key with
  | nil => cases hMem
  | cons dot rest ih =>
    obtain ⟨rfl, hRest⟩ := List.forall_mem_cons.mp h
    rcases List.mem_cons.mp hMem with rfl | hMem
    · rfl
    · exact ih hRest hMem

/-! ## Making directories -/

/-- No file is on the trail of the names. -/
structure Clear (disk : Disk) (key : DiskKey) (names : List String) : Prop where
  start : names ≠ [] → disk.entry? key = some .directory
  short : ∀ name ∈ names, name.utf8ByteSize ≤ maxNameLength
  noFile : ∀ k ∈ trail key names, ∀ content, disk.entry? k ≠ some (.file content)

instance (disk : Disk) (key : DiskKey) (names : List String) : Decidable (disk.Clear key names) :=
  decidable_of_iff ((names ≠ [] → disk.entry? key = some .directory) ∧
      (∀ name ∈ names, name.utf8ByteSize ≤ maxNameLength) ∧
      ∀ k ∈ trail key names, disk.entry? k = none ∨ disk.entry? k = some .directory) <| by
    have hEntry (found : Option DiskEntry) : (found = none ∨ found = some .directory) ↔
        ∀ content, found ≠ some (.file content) := by
      rcases found with _ | _ | content <;> simp
    simp only [hEntry]
    exact ⟨fun h => ⟨h.1, h.2.1, h.2.2⟩, fun h => ⟨h.start, h.short, h.noFile⟩⟩

theorem Clear.of_append {front rest : List String} (h : disk.Clear key (front ++ rest)) :
    disk.Clear key front where
  start hSome := h.start (by simp [hSome])
  short name hMem := h.short name (List.mem_append_left _ hMem)
  noFile k hMem := h.noFile k (by
    rw [trail_append]
    exact List.mem_append_left _ hMem)

/-- The end of the names is a directory too, unless a file is there. -/
theorem Clear.append_dots {dots : List String} (h : disk.Clear key names)
    (hStart : disk.entry? key = some .directory) (hDots : ∀ dot ∈ dots, dot = ".") :
    disk.Clear key (names ++ dots) where
  start _ := hStart
  short name hMem := by
    rcases List.mem_append.mp hMem with hMem | hMem
    · exact h.short name hMem
    · rw [hDots name hMem]
      decide
  noFile k hMem content := by
    rw [trail_append, List.mem_append] at hMem
    rcases hMem with hMem | hMem
    · exact h.noFile k hMem content
    · rw [eq_lead_of_mem_trail_dots hDots hMem]
      by_cases hNil : names = []
      · rw [hNil, lead, List.foldl_nil, hStart]
        simp
      · exact h.noFile _ (lead_mem_trail hNil) content

theorem follow_singleton {name : String} (hStart : disk.entry? key = some .directory)
    (hShort : name.utf8ByteSize ≤ maxNameLength) : disk.follow key [name] = .ok (moved key name) :=
  follow_eq_ok_iff.mpr ⟨⟨hStart, hShort, trivial⟩, rfl⟩

/-- Exactly the keys became directories. -/
structure Made (disk disk' : Disk) (keys : List DiskKey) : Prop where
  home : disk'.home = disk.home
  entries : ∀ k, disk'.entry? k = if k ∈ keys then some .directory else disk.entry? k

theorem Made.keeps {keys : List DiskKey} (h : disk.Made disk' keys) : disk.Keeps disk' where
  home := h.home
  directory k hEntry := by
    rw [h.entries, hEntry, ite_self]

theorem Made.atEnd (h : disk.Made disk' (trail key names))
    (hStart : disk.entry? key = some .directory) :
    disk'.entry? (lead key names) = some .directory := by
  by_cases hNil : names = []
  · rw [hNil]
    exact h.keeps.directory key hStart
  · rw [h.entries, if_pos (lead_mem_trail hNil)]

/-- Names can be followed to a file in the last of the directories that were made for them. -/
theorem Made.passes (h : disk.Made disk' (trail key names))
    (hStart : disk.entry? key = some .directory)
    (hShort : ∀ name ∈ names, name.utf8ByteSize ≤ maxNameLength) {last : String}
    (hLast : last.utf8ByteSize ≤ maxNameLength) : disk'.Passes key (names ++ [last]) := by
  refine passes_append.mpr ⟨?_, h.atEnd hStart, hLast, trivial⟩
  refine passes_of_trail (h.keeps.directory key hStart) hShort fun k hMem => ?_
  rw [h.entries, if_pos hMem]

/-- What can be followed once the directories are made starts at a directory. -/
theorem Clear.start_of_made {rest : List String} {name : String} (h : disk.Clear key names)
    (hMade : disk.Made disk' (trail key names)) (hPasses : disk'.Passes key (names ++ name :: rest)) :
    disk.entry? key = some .directory := by
  by_cases hNil : names = []
  · rw [hNil] at hPasses hMade
    have hStart := hPasses.1
    rw [hMade.entries] at hStart
    simpa [trail] using hStart
  · exact h.start hNil

/-- Making the directories up to some dots makes those behind the dots as well. -/
theorem Made.append_dots {dots : List String} (h : disk.Made disk' (trail key names))
    (hStart : disk.entry? key = some .directory) (hDots : ∀ dot ∈ dots, dot = ".") :
    disk.Made disk' (trail key (names ++ dots)) where
  home := h.home
  entries k := by
    rw [trail_append, h.entries]
    by_cases hMem : k ∈ trail key names
    · simp [hMem]
    by_cases hDot : k ∈ trail (lead key names) dots
    · rw [eq_lead_of_mem_trail_dots hDots hDot] at hMem ⊢
      have hEnd := h.atEnd hStart
      rw [h.entries, if_neg hMem] at hEnd
      rw [if_neg hMem, hEnd, ite_self]
    · simp [hMem, hDot]

theorem Clear.climb_eq (h : disk.Clear key names) (hasMade : Bool) :
    ∃ disk', disk.climb hasMade key (names.map ([·])) = (.ok (), disk') ∧
      disk.Made disk' (trail key names) := by
  induction names generalizing disk hasMade key with
  | nil => exact ⟨disk, rfl, rfl, by simp [trail]⟩
  | cons name rest ih =>
    obtain ⟨hName, hShort⟩ := List.forall_mem_cons.mp h.short
    obtain ⟨hNext, hTrail⟩ := List.forall_mem_cons.mp h.noFile
    have hFollow := follow_singleton (h.start (by simp)) hName
    simp only [List.map_cons, climb, hFollow]
    cases hEntry : disk.entry? (moved key name) with
    | none =>
      have hSome : moved key name ≠ [] := by
        intro hNil
        rw [hNil, entry?_nil] at hEntry
        cases hEntry
      have hClear : (disk.put (moved key name) .directory).Clear (moved key name) rest := by
        refine ⟨fun _ => by simp [entry?_put hSome], hShort, fun k hMem content => ?_⟩
        rw [entry?_put hSome]
        split
        · simp
        · exact hTrail k hMem content
      obtain ⟨disk', hClimb, hMade⟩ := ih hClear true
      refine ⟨disk', hClimb, hMade.home, fun k => ?_⟩
      rw [hMade.entries, entry?_put hSome]
      by_cases hSame : k = moved key name <;> simp [trail, hSame]
    | some entry =>
      cases entry with
      | file content => exact absurd hEntry (hNext content)
      | directory =>
        obtain ⟨disk', hClimb, hMade⟩ := ih ⟨fun _ => hEntry, hShort, hTrail⟩ hasMade
        refine ⟨disk', hClimb, hMade.home, fun k => ?_⟩
        rw [hMade.entries]
        by_cases hSame : k = moved key name <;> simp [trail, hSame, hEntry]

theorem clear_cons {name : String} (hStart : disk.entry? key = some .directory)
    (hName : name.utf8ByteSize ≤ maxNameLength)
    (hShort : ∀ name ∈ names, name.utf8ByteSize ≤ maxNameLength)
    (hNext : ∀ content, disk.entry? (moved key name) ≠ some (.file content))
    (hTrail : ∀ k ∈ trail (moved key name) names,
      ∀ content, disk.entry? k ≠ some (.file content)) : disk.Clear key (name :: names) where
  start _ := hStart
  short := List.forall_mem_cons.mpr ⟨hName, hShort⟩
  noFile := List.forall_mem_cons.mpr ⟨hNext, hTrail⟩

theorem clear_of_climb {hasMade : Bool}
    (h : (disk.climb hasMade key (names.map ([·]))).1 = .ok ()) : disk.Clear key names := by
  induction names generalizing disk hasMade key with
  | nil => exact ⟨by simp, by simp, by simp [trail]⟩
  | cons name rest ih =>
    rw [List.map_cons, climb] at h
    cases hFollow : disk.follow key [name] with
    | error kind =>
      rw [hFollow] at h
      cases h
    | ok next =>
      obtain ⟨⟨hStart, hName, -⟩, hLead⟩ := follow_eq_ok_iff.mp hFollow
      obtain rfl : next = moved key name := hLead
      simp only [hFollow] at h
      cases hEntry : disk.entry? (moved key name) with
      | none =>
        have hSome : moved key name ≠ [] := by
          intro hNil
          rw [hNil, entry?_nil] at hEntry
          cases hEntry
        simp only [hEntry] at h
        refine clear_cons hStart hName (ih h).short (by simp [hEntry]) fun k hMem content hFile => ?_
        have hOther : k ≠ moved key name := by
          rintro rfl
          rw [hEntry] at hFile
          cases hFile
        exact (ih h).noFile k hMem content (by rwa [entry?_put hSome, if_neg hOther])
      | some entry =>
        cases entry with
        | directory =>
          simp only [hEntry] at h
          exact clear_cons hStart hName (ih h).short (by simp [hEntry]) (ih h).noFile
        | file content =>
          simp only [hEntry] at h
          split at h
          · cases h
          · next hMore =>
            have hRest : rest ≠ [] := by
              rintro rfl
              simp at hMore
            have hDirectory := (ih h).start hRest
            rw [hEntry] at hDirectory
            cases hDirectory

end Bindery.Disk
