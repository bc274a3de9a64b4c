import Bindery.Proofs.Run.Records
import Bindery.Proofs.Symbols.Nearness

/-! # Whose duplicate a skip is

A duplicate is left out because of an earlier bid for its scope. The scopes of one list differ, so
both bids come from one declaration only if it is a component of the scope that it lists as well:
nothing compares the list with the scope of the component.
-/

namespace Bindery

open Context Integration Run

namespace Integration

variable {t : SymbolTable} {d : Declaration} {scope : ClassName} {i j : Nat}

/-- A component of the scope that lists it too. -/
structure AsksTwice (t : SymbolTable) (d : Declaration) (scope : ClassName) : Prop where
  component : isComponent d = true
  own : Resolution.scopeOf t d WellKnown.componentMarkers = .ok scope
  listed : ∃ a scopes, d.annotationOf? WellKnown.multiScopeIntegration = some a ∧
    listedScopes d a = .ok scopes ∧ scope ∈ scopes

theorem nodup_of_listedScopes {a : Annotation} {scopes : List ClassName}
    (h : listedScopes d a = .ok scopes) : scopes.Nodup := by
  obtain ⟨value, _, hValue⟩ := bind_eq_ok_iff.mp h
  split at hValue
  · nomatch hValue
  · split at hValue
    · obtain rfl := Except.ok.inj hValue
      exact SymbolTable.nodup_eraseDups _
    · nomatch hValue

/-- The later of two positions is in the list, and the list has room for one of them only. -/
theorem asksTwice_of_lt (hFirst : Asks t d i scope) (hSecond : Asks t d j scope) (hLess : i < j) :
    AsksTwice t d scope := by
  generalize hLate : j = late at hSecond
  cases hSecond with
  | component _ _ => omega
  | @listed a scopes n _ hCarried hListed hScope =>
    generalize hEarly : i = early at hFirst
    cases hFirst with
    | component hComponent hOwn =>
      exact ⟨hComponent, hOwn, a, scopes, hCarried, hListed, List.mem_of_getElem? hScope⟩
    | @listed a' scopes' m _ hCarried' hListed' hScope' =>
      obtain rfl : a' = a := Option.some.inj (hCarried'.symm.trans hCarried)
      obtain rfl : scopes' = scopes := Except.ok.inj (hListed'.symm.trans hListed)
      obtain ⟨hBound, _⟩ := List.getElem?_eq_some_iff.mp hScope'
      have hNodup := nodup_of_listedScopes hListed
      have hSame : m = n := (List.getElem?_inj hBound hNodup).mp (hScope'.trans hScope.symm)
      omega

end Integration

theorem Context.Beats.asksTwice {ctx : Context} {f : Feature} {w b : Bid} (h : ctx.Beats f w b)
    (hSame : w.declaration.name = b.declaration.name) :
    AsksTwice ctx.table b.declaration b.scope := by
  have hDeclaration : w.declaration = b.declaration := by
    have hFind := SymbolTable.find?_eq_some_iff.mpr ⟨h.wins.placed.declared, hSame⟩
    have hFind' := SymbolTable.find?_eq_some_iff.mpr ⟨h.placed.declared, rfl⟩
    exact Option.some.inj (hFind.symm.trans hFind')
  have hAsks : Asks ctx.table b.declaration w.position b.scope := by
    rw [← hDeclaration, ← h.scope]
    exact h.wins.placed.asks
  rcases h.before with hLess | ⟨_, hPosition⟩
  · exact absurd hSame (OrderedMap.key_ne_of_lt hLess)
  · exact asksTwice_of_lt hAsks h.placed.asks hPosition

namespace Pipeline

/-- A skip for a duplicate leaves out a bid because of an earlier one that has won the scope, and it
names the declaration of the winner. That is another declaration than its own, unless its own
declaration asks for the scope twice. -/
theorem duplicates_beaten_by_another_bid {σ : Type} [Store σ] (settings : Settings)
    (extra : List Generator) (t : SymbolTable) (store : σ) (report : Report)
    (hExtra : ∀ g ∈ extra, g ∈ builtIn)
    (hRun : ((build settings extra).run t store).result = .ok report) :
    ∀ k ∈ report.journal.skips, ∀ kept, k.reason = .duplicateScope kept →
      ∃ (f : Feature) (w b : Bid), b.Placed t ∧ w.Wins t (ScopeGraph.build t).1 f ∧
        w.scope = b.scope ∧ w.Before b ∧ k.generator = f.integrationId ∧ k.scope = b.scope ∧
        k.declaration = b.declaration.name ∧ kept = w.declaration.name ∧
        (kept = k.declaration → AsksTwice t b.declaration k.scope) := by
  intro k hMem kept hReason
  obtain ⟨a, hJournal, hTraced⟩ := traced_of_run hExtra hRun
  rw [← hJournal] at hMem
  obtain ⟨f, w, b, hBeats, rfl⟩ := hTraced.skips k hMem kept hReason
  obtain rfl : w.declaration.name = kept := SkipReason.duplicateScope.inj hReason
  refine ⟨f, w, b, hBeats.placed, hBeats.wins, hBeats.scope, hBeats.before, rfl, rfl, rfl, rfl, ?_⟩
  intro hOwn
  exact hBeats.asksTwice hOwn

end Pipeline

namespace Sample

/-- A component that lists its own scope. -/
def eager : Declaration where
  name := mainComponent
  kind := .interfaceKind
  annotations := [⟨WellKnown.mergeComponent, [scopeArgument appScope]⟩,
    ⟨WellKnown.multiScopeIntegration, [.named scopesArgument (.array [.classRef appScope])]⟩]

def eagerRivals : SymbolTable :=
  .ofList [scope appScope .all none, eager, component testComponent appScope]

end Sample

namespace Pipeline

open Sample

theorem skips_eagerRivals : ∃ report : Report,
    ((build (.only .work) []).run eagerRivals MemoryStore.empty).result = .ok report ∧
      report.journal.skips = [
        ⟨"work-integration", appScope, mainComponent, .duplicateScope mainComponent⟩,
        ⟨"work-integration", appScope, testComponent, .duplicateScope mainComponent⟩] := by
  have hSkips : ((build (.only .work) []).run eagerRivals MemoryStore.empty).result.toOption.map
      (·.journal.skips) = some [
        ⟨"work-integration", appScope, mainComponent, .duplicateScope mainComponent⟩,
        ⟨"work-integration", appScope, testComponent, .duplicateScope mainComponent⟩] := by
    decide +kernel
  obtain ⟨report, hReport, hList⟩ := Option.map_eq_some_iff.mp hSkips
  exact ⟨report, toOption_eq_some_iff.mp hReport, hList⟩

theorem duplicates_beaten_by_another_bid_eager : ∃ report : Report,
    ((build (.only .work) []).run eagerRivals MemoryStore.empty).result = .ok report ∧
      ⟨"work-integration", appScope, mainComponent, .duplicateScope mainComponent⟩ ∈
        report.journal.skips ∧
      ∃ b : Bid, b.Placed eagerRivals ∧ b.declaration.name = mainComponent ∧
        AsksTwice eagerRivals b.declaration appScope := by
  obtain ⟨report, hRun, hSkips⟩ := skips_eagerRivals
  have hMem : ⟨"work-integration", appScope, mainComponent, .duplicateScope mainComponent⟩ ∈
      report.journal.skips := by
    rw [hSkips]
    exact List.mem_cons_self
  obtain ⟨_, _, b, hPlaced, _, _, _, _, _, hOwn, _, hTwice⟩ := duplicates_beaten_by_another_bid
    (.only .work) [] eagerRivals MemoryStore.empty report nofun hRun _ hMem mainComponent rfl
  exact ⟨report, hRun, hMem, b, hPlaced, hOwn.symm, hTwice rfl⟩

/-- A component that lists its own scope is left out as a duplicate of itself. -/
theorem duplicate_of_itself : ∃ report : Report,
    ((build (.only .work) []).run eagerRivals MemoryStore.empty).result = .ok report ∧
      ¬ ∀ k ∈ report.journal.skips, ∀ kept, k.reason = .duplicateScope kept →
        kept ≠ k.declaration := by
  obtain ⟨report, hRun, hSkips⟩ := skips_eagerRivals
  refine ⟨report, hRun, ?_⟩
  intro hOther
  rw [hSkips] at hOther
  exact hOther _ List.mem_cons_self mainComponent rfl rfl

end Pipeline

end Bindery
