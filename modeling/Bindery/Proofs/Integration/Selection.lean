import Bindery.Proofs.Integration.Bids

/-! # Selecting one bid for each scope

A scan over the bids settles one after the other: a bid for an enabled scope that is still free
wins, and any later bid for that scope is beaten by the winner. Over all bids of a table the winners
are the first bids for their scopes, and every other bid for an enabled scope is beaten just once.
-/

namespace Bindery.Integration

/-- How a scan settles bids, given the bids that won before. -/
inductive Scan (g : ScopeGraph) (f : Feature) :
    List Bid → List Bid → List Bid → List (Bid × Bid) → Prop where
  | done (held : List Bid) : Scan g f held [] [] []
  | disabled {held rest winners : List Bid} {beaten : List (Bid × Bid)} {b : Bid}
      (hDisabled : g.enabled b.scope f = false) (hRest : Scan g f held rest winners beaten) :
      Scan g f held (b :: rest) winners beaten
  | wins {held rest winners : List Bid} {beaten : List (Bid × Bid)} {b : Bid}
      (hEnabled : g.enabled b.scope f = true) (hFree : ∀ w ∈ held, w.scope ≠ b.scope)
      (hRest : Scan g f (b :: held) rest winners beaten) :
      Scan g f held (b :: rest) (b :: winners) beaten
  | loses {held rest winners : List Bid} {beaten : List (Bid × Bid)} {b w : Bid}
      (hEnabled : g.enabled b.scope f = true) (hHeld : w ∈ held) (hSame : w.scope = b.scope)
      (hRest : Scan g f held rest winners beaten) :
      Scan g f held (b :: rest) winners ((b, w) :: beaten)

namespace Scan

variable {g : ScopeGraph} {f : Feature} {held l winners : List Bid} {beaten : List (Bid × Bid)}

theorem winners_sublist (h : Scan g f held l winners beaten) : winners.Sublist l := by
  induction h with
  | done _ => exact .slnil
  | disabled _ _ ih => exact ih.cons _
  | wins _ _ _ ih => exact ih.cons_cons _
  | loses _ _ _ _ ih => exact ih.cons _

theorem beaten_sublist (h : Scan g f held l winners beaten) :
    (beaten.map Prod.fst).Sublist l := by
  induction h with
  | done _ => exact .slnil
  | disabled _ _ ih => exact ih.cons _
  | wins _ _ _ ih => exact ih.cons _
  | loses _ _ _ _ ih => exact ih.cons_cons _

/-- No enabled bid is lost. -/
theorem settled (h : Scan g f held l winners beaten) {b : Bid} (hMem : b ∈ l)
    (hEnabled : g.enabled b.scope f = true) : b ∈ winners ∨ ∃ w, (b, w) ∈ beaten := by
  induction h with
  | done _ => cases hMem
  | disabled hDisabled _ ih =>
    rcases List.mem_cons.mp hMem with rfl | hMem
    · rw [hDisabled] at hEnabled
      cases hEnabled
    · exact ih hMem
  | wins _ _ _ ih =>
    rcases List.mem_cons.mp hMem with rfl | hMem
    · exact .inl List.mem_cons_self
    · exact (ih hMem).imp_left (List.mem_cons_of_mem _)
  | @loses _ _ _ _ _ w _ _ _ _ ih =>
    rcases List.mem_cons.mp hMem with rfl | hMem
    · exact .inr ⟨w, List.mem_cons_self⟩
    · exact (ih hMem).imp_right fun ⟨w, hBeaten⟩ => ⟨w, List.mem_cons_of_mem _ hBeaten⟩

theorem winner_enabled (h : Scan g f held l winners beaten) {b : Bid} (hMem : b ∈ winners) :
    g.enabled b.scope f = true ∧ ∀ w ∈ held, w.scope ≠ b.scope := by
  induction h with
  | done _ => cases hMem
  | disabled _ _ ih => exact ih hMem
  | wins hEnabled hFree _ ih =>
    rcases List.mem_cons.mp hMem with rfl | hMem
    · exact ⟨hEnabled, hFree⟩
    · exact ⟨(ih hMem).1, fun w hHeld => (ih hMem).2 w (List.mem_cons_of_mem _ hHeld)⟩
  | loses _ _ _ _ ih => exact ih hMem

theorem scopes_nodup (h : Scan g f held l winners beaten) : (winners.map (·.scope)).Nodup := by
  induction h with
  | done _ => exact .nil
  | disabled _ _ ih => exact ih
  | wins _ _ hRest ih =>
    refine List.nodup_cons.mpr ⟨fun hMem => ?_, ih⟩
    obtain ⟨w, hWinner, hSame⟩ := List.mem_map.mp hMem
    exact (hRest.winner_enabled hWinner).2 _ List.mem_cons_self hSame.symm
  | loses _ _ _ _ ih => exact ih

/-- A bid is beaten by an earlier winner. Bids that won before the scan stand in front of the list,
which is why the order is carried along. -/
theorem beaten_by (h : Scan g f held l winners beaten)
    (hHeld : ∀ w ∈ held, ∀ b ∈ l, w.Before b) (hOrdered : l.Pairwise Bid.Before) {b w : Bid}
    (hMem : (b, w) ∈ beaten) : g.enabled b.scope f = true ∧ (w ∈ held ∨ w ∈ winners) ∧
      w.scope = b.scope ∧ w.Before b := by
  induction h with
  | done _ => cases hMem
  | disabled _ _ ih =>
    exact ih (fun w hw b hb => hHeld w hw b (List.mem_cons_of_mem _ hb)) hOrdered.tail hMem
  | wins _ _ _ ih =>
    have hHeld' := List.forall_mem_cons.mpr ⟨(List.pairwise_cons.mp hOrdered).1,
      fun w hw b hb => hHeld w hw b (List.mem_cons_of_mem _ hb)⟩
    obtain ⟨hEnabled, hSource, hSame, hBefore⟩ := ih hHeld' hOrdered.tail hMem
    refine ⟨hEnabled, ?_, hSame, hBefore⟩
    rcases hSource with hSource | hSource
    · rcases List.mem_cons.mp hSource with rfl | hSource
      · exact .inr List.mem_cons_self
      · exact .inl hSource
    · exact .inr (List.mem_cons_of_mem _ hSource)
  | loses hEnabled hIn hSame _ ih =>
    rcases List.mem_cons.mp hMem with hFirst | hMem
    · obtain ⟨rfl, rfl⟩ := Prod.mk.inj hFirst
      exact ⟨hEnabled, .inl hIn, hSame, hHeld _ hIn _ List.mem_cons_self⟩
    · exact ih (fun w hw b hb => hHeld w hw b (List.mem_cons_of_mem _ hb)) hOrdered.tail hMem

end Scan

/-- The bid is the first one for its scope, and the scope enables the feature. -/
structure Bid.Wins (t : SymbolTable) (g : ScopeGraph) (f : Feature) (b : Bid) : Prop where
  placed : b.Placed t
  enabled : g.enabled b.scope f = true
  first : ∀ c : Bid, c.Placed t → c.scope = b.scope → c = b ∨ b.Before c

/-- Bids divided into those that win and those that are beaten, each beside its winner. -/
structure Selection (t : SymbolTable) (g : ScopeGraph) (f : Feature) (winners : List Bid)
    (beaten : List (Bid × Bid)) : Prop where
  winners_iff : ∀ b, b ∈ winners ↔ b.Wins t g f
  winners_ordered : winners.Pairwise Bid.Before
  scopes_nodup : (winners.map (·.scope)).Nodup
  settled : ∀ b : Bid, b.Placed t → g.enabled b.scope f = true →
    b ∈ winners ∨ ∃ w, (b, w) ∈ beaten
  beaten_iff : ∀ b w, (b, w) ∈ beaten ↔
    b.Placed t ∧ w.Wins t g f ∧ w.scope = b.scope ∧ w.Before b
  beaten_ordered : (beaten.map Prod.fst).Pairwise Bid.Before

/-- Every enabled scope that somebody bids for has a winner, and no other scope has one. -/
theorem Selection.mem_scopes_iff {t : SymbolTable} {g : ScopeGraph} {f : Feature}
    {winners : List Bid} {beaten : List (Bid × Bid)} (h : Selection t g f winners beaten)
    {s : ClassName} : s ∈ winners.map (·.scope) ↔
      g.enabled s f = true ∧ ∃ b : Bid, b.Placed t ∧ b.scope = s := by
  rw [List.mem_map]
  constructor
  · rintro ⟨w, hMem, rfl⟩
    have hWins := (h.winners_iff w).mp hMem
    exact ⟨hWins.enabled, w, hWins.placed, rfl⟩
  · rintro ⟨hEnabled, b, hPlaced, rfl⟩
    rcases h.settled b hPlaced hEnabled with hMem | ⟨w, hMem⟩
    · exact ⟨b, hMem, rfl⟩
    · obtain ⟨_, hWins, hSame, _⟩ := (h.beaten_iff b w).mp hMem
      exact ⟨w, (h.winners_iff w).mpr hWins, hSame⟩

/-- A scan over all bids that starts with no winner makes the selection. -/
theorem Scan.selection {t : SymbolTable} {g : ScopeGraph} {f : Feature} {winners : List Bid}
    {beaten : List (Bid × Bid)} (h : Scan g f [] (bids t) winners beaten) :
    Selection t g f winners beaten := by
  have hBeaten {b w : Bid} (hMem : (b, w) ∈ beaten) :
      w ∈ winners ∧ w.scope = b.scope ∧ w.Before b := by
    obtain ⟨_, hSource, hSame, hBefore⟩ := h.beaten_by (by simp) (pairwise_bids t) hMem
    exact ⟨hSource.resolve_left List.not_mem_nil, hSame, hBefore⟩
  have hUnique {b c : Bid} (hb : b ∈ winners) (hc : c ∈ winners) (hSame : c.scope = b.scope) :
      c = b := List.inj_on_of_nodup_map h.scopes_nodup hc hb hSame
  have hFirst {b c : Bid} (hb : b ∈ winners) (hPlaced : c.Placed t) (hSame : c.scope = b.scope) :
      c = b ∨ b.Before c := by
    rcases h.settled (mem_bids.mpr hPlaced) (hSame ▸ (h.winner_enabled hb).1) with hc | ⟨w, hc⟩
    · exact .inl (hUnique hb hc hSame)
    · obtain ⟨hw, hwSame, hBefore⟩ := hBeaten hc
      exact .inr (hUnique hb hw (hwSame.trans hSame) ▸ hBefore)
  have hWinner (b : Bid) : b ∈ winners ↔ b.Wins t g f := by
    constructor
    · intro hMem
      exact ⟨mem_bids.mp (h.winners_sublist.subset hMem), (h.winner_enabled hMem).1,
        fun c => hFirst hMem⟩
    · rintro ⟨hPlaced, hEnabled, hLeast⟩
      rcases h.settled (mem_bids.mpr hPlaced) hEnabled with hMem | ⟨w, hMem⟩
      · exact hMem
      · obtain ⟨hw, hSame, hBefore⟩ := hBeaten hMem
        rcases hLeast w (mem_bids.mp (h.winners_sublist.subset hw)) hSame with rfl | hAfter
        · exact absurd hBefore (Bid.Before.irrefl w)
        · exact absurd hBefore hAfter.asymm
  refine ⟨hWinner, (pairwise_bids t).sublist h.winners_sublist, h.scopes_nodup,
    fun b hPlaced => h.settled (mem_bids.mpr hPlaced), fun b w => ?_,
    (pairwise_bids t).sublist h.beaten_sublist⟩
  constructor
  · intro hMem
    obtain ⟨hw, hSame, hBefore⟩ := hBeaten hMem
    have hBid : b ∈ bids t := h.beaten_sublist.subset (List.mem_map.mpr ⟨_, hMem, rfl⟩)
    exact ⟨mem_bids.mp hBid, (hWinner w).mp hw, hSame, hBefore⟩
  · rintro ⟨hPlaced, hWins, hSame, hBefore⟩
    have hw := (hWinner w).mpr hWins
    rcases h.settled (mem_bids.mpr hPlaced) (hSame ▸ hWins.enabled) with hb | ⟨v, hb⟩
    · exact absurd hBefore (hUnique hb hw hSame ▸ Bid.Before.irrefl w)
    · obtain ⟨hv, hvSame, _⟩ := hBeaten hb
      exact hUnique hv hw (hSame.trans hvSame.symm) ▸ hb

end Bindery.Integration
