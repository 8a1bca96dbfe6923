import AccessSampling.Proofs.BudgetBound
import AccessSampling.Proofs.Rounds

/-!
# The rounds of the scaling

The rounds that fit the proposals into the budget go on without a counter for as long as they pin
classes. A class that is pinned stays pinned, so for `n` classes there are at most `n` such rounds
and one more. At the ceiling all classes together fit into the budget, hence so do the pinned ones
in every round, and the room that they leave is never cut off at zero.
-/

namespace AccessSampling

variable {budget ceiling : Nat} {ls ls' : List Load}

/-- The classes as the next round finds them, if there is one. -/
def nextLoads? (budget ceiling : Nat) (ls : List Load) : Option (List Load) :=
  match scalingRound budget ceiling ls with
  | .settled _ => none
  | .pinned ls => some ls

theorem nextLoads?_eq_some_iff :
    nextLoads? budget ceiling ls = some ls' ↔ scalingRound budget ceiling ls = .pinned ls' := by
  unfold nextLoads?
  cases scalingRound budget ceiling ls with
  | settled => simp
  | pinned => simp

theorem exists_settled_of_nextLoads? (h : nextLoads? budget ceiling ls = none) :
    ∃ qs, scalingRound budget ceiling ls = .settled qs := by
  rw [nextLoads?] at h
  cases hround : scalingRound budget ceiling ls with
  | settled qs => exact ⟨qs, rfl⟩
  | pinned => simp [hround] at h

/-- The same classes with the same proposals; those that were pinned still are, and at least one
that was not is now. -/
structure PinsMore (ls ls' : List Load) : Prop where
  kept : List.Forall₂ (fun l l' : Load =>
    l'.proposed = l.proposed ∧ (l.pinned = true → l'.pinned = true)) ls ls'
  more : ∃ x ∈ ls.zip ls', x.1.pinned = false ∧ x.2.pinned = true

theorem pinsMore_map_pinIf {free room : Nat}
    (hany : ls.any (Load.overflows ceiling free room) = true) :
    PinsMore ls (ls.map (Load.pinIf ceiling free room)) := by
  constructor
  · rw [List.forall₂_map_right_iff, List.forall₂_same]
    exact fun l _ => ⟨rfl, fun hpinned => by rw [Load.pinIf, hpinned, Bool.true_or]⟩
  · obtain ⟨l, hl, hover⟩ := List.any_eq_true.1 hany
    refine ⟨(l, l.pinIf ceiling free room), ?_, Load.pinned_of_overflows hover, ?_⟩
    · rw [← List.map_prod_left_eq_zip]
      exact List.mem_map_of_mem hl
    · rw [Load.pinIf, hover, Bool.or_true]

theorem PinsMore.map_proposed (h : PinsMore ls ls') :
    ls'.map Load.proposed = ls.map Load.proposed := by
  have hproposed : List.Forall₂ (· = ·) (ls.map Load.proposed) (ls'.map Load.proposed) := by
    rw [List.forall₂_map_left_iff, List.forall₂_map_right_iff]
    exact h.kept.imp fun _ _ hl => hl.1.symm
  rw [List.forall₂_eq_eq_eq] at hproposed
  exact hproposed.symm

/-- A round that pins leaves the pinned classes pinned and pins at least one more. -/
theorem pinsMore_of_scalingRound (h : scalingRound budget ceiling ls = .pinned ls') :
    PinsMore ls ls' := by
  simp only [scalingRound] at h
  split at h
  · cases h
  · split at h
    · rename_i hany
      cases h
      exact pinsMore_map_pinIf hany
    · cases h

/-- The classes as round `k` finds them, counted from 0, or the last round if there are fewer. -/
def roundLoads (budget ceiling : Nat) (ps : List Projection) (k : Nat) : List Load :=
  Rounds.after (nextLoads? budget ceiling) k (loads ps)

theorem map_proposed_roundLoads (budget ceiling : Nat) (ps : List Projection) (k : Nat) :
    (roundLoads budget ceiling ps k).map Load.proposed = ps := by
  refine Rounds.after_keeps (P := fun ls : List Load => ls.map Load.proposed = ps)
    (fun h hls => ?_) (map_proposed_loads ps) k
  rw [(pinsMore_of_scalingRound (nextLoads?_eq_some_iff.1 h)).map_proposed, hls]

theorem settle_roundLoads (budget ceiling : Nat) (ps : List Projection) (k : Nat) :
    settle budget ceiling (roundLoads budget ceiling ps k) = settle budget ceiling (loads ps) :=
  Rounds.after_keeps (P := fun ls => settle budget ceiling ls = settle budget ceiling (loads ps))
    (fun h hls => (settle_of_pinned (nextLoads?_eq_some_iff.1 h)).symm.trans hls) rfl k

theorem unpinned_loads_le (ps : List Projection) : unpinned (loads ps) ≤ ps.length := by
  have hle : unpinned (loads ps) ≤ (loads ps).length := List.countP_le_length
  rwa [loads, List.length_map] at hle

/-- For `n` classes there are at most `n + 1` rounds: every one but the last pins at least one more
class and leaves the pinned ones pinned. In every round the pinned classes take no more than all
classes at the ceiling; if that is within the budget, the room they leave is the exact difference,
and the outcome is what the last round settles. -/
theorem scaling_ends (budget ceiling : Nat) (ps : List Projection) :
    ∃ last ≤ ps.length, ∃ qs,
      scalingRound budget ceiling (roundLoads budget ceiling ps last) = .settled qs ∧
      (∀ k < last,
        scalingRound budget ceiling (roundLoads budget ceiling ps k) =
            .pinned (roundLoads budget ceiling ps (k + 1)) ∧
          PinsMore (roundLoads budget ceiling ps k) (roundLoads budget ceiling ps (k + 1))) ∧
      (∀ k, pinnedVolume ceiling (roundLoads budget ceiling ps k) ≤
        totalVolume (ps.map (Projection.raise ceiling))) ∧
      (budget < totalVolume ps → totalVolume (ps.map (Projection.raise ceiling)) ≤ budget →
        enforceBudget budget ceiling ps = (.scaled (totalVolume ps) (totalVolume qs), qs) ∧
          ∀ k, pinnedVolume ceiling (roundLoads budget ceiling ps k) ≤ budget ∧
            pinnedVolume ceiling (roundLoads budget ceiling ps k) +
              (budget - pinnedVolume ceiling (roundLoads budget ceiling ps k)) = budget) := by
  obtain ⟨last, hlast, hend, hbefore⟩ := Rounds.exists_end
    (fun h => unpinned_lt_of_scalingRound (nextLoads?_eq_some_iff.1 h)) (loads ps)
  obtain ⟨qs, hqs⟩ := exists_settled_of_nextLoads? hend
  have hpinned (k : Nat) : pinnedVolume ceiling (roundLoads budget ceiling ps k) ≤
      totalVolume (ps.map (Projection.raise ceiling)) := by
    have hle := pinnedVolume_le ceiling (roundLoads budget ceiling ps k)
    rwa [map_proposed_roundLoads] at hle
  refine ⟨last, hlast.trans (unpinned_loads_le ps), qs, hqs, fun k hk => ?_, hpinned, ?_⟩
  · have hround := nextLoads?_eq_some_iff.1 (hbefore k hk)
    exact ⟨hround, pinsMore_of_scalingRound hround⟩
  · intro hover hmet
    have hsettle : settle budget ceiling (loads ps) = qs := by
      rw [← settle_roundLoads budget ceiling ps last]
      exact settle_of_settled hqs
    refine ⟨by rw [enforceBudget_of_met hover hmet, hsettle], fun k => ?_⟩
    have hfits := (hpinned k).trans hmet
    exact ⟨hfits, Nat.add_sub_cancel' hfits⟩

/-- Two classes, pinned one after the other, make three rounds. -/
theorem scaling_ends_inThreeRounds :
    let ps : List Projection := [⟨.dramRead, 30, 5⟩, ⟨.nvmRead, 15, 4⟩]
    let qs : List Projection := [⟨.dramRead, 30, 10⟩, ⟨.nvmRead, 15, 10⟩]
    (4 < totalVolume ps ∧ totalVolume (ps.map (Projection.raise 10)) ≤ 4) ∧
      (roundLoads 4 10 ps 1).map Load.pinned = [true, false] ∧
      PinsMore (roundLoads 4 10 ps 0) (roundLoads 4 10 ps 1) ∧
      PinsMore (roundLoads 4 10 ps 1) (roundLoads 4 10 ps 2) ∧
      scalingRound 4 10 (roundLoads 4 10 ps 2) = .settled qs ∧
      enforceBudget 4 10 ps = (.scaled 9 4, qs) ∧
      pinnedVolume 10 (roundLoads 4 10 ps 2) +
        (4 - pinnedVolume 10 (roundLoads 4 10 ps 2)) = 4 := by
  intro ps qs
  have hover : 4 < totalVolume ps := by decide
  have hmet : totalVolume (ps.map (Projection.raise 10)) ≤ 4 := by decide
  have hsettles : scalingRound 4 10 (roundLoads 4 10 ps 2) = .settled qs := by decide
  obtain ⟨last, hlast, qs', hend, hrounds, -, hreached⟩ := scaling_ends 4 10 ps
  obtain ⟨houtcome, hroom⟩ := hreached hover hmet
  have hthree : last = 2 := by
    have hpins : ∀ k < 2, (nextLoads? 4 10 (roundLoads 4 10 ps k)).isSome := by decide
    have hnone : nextLoads? 4 10 (roundLoads 4 10 ps last) = none := by rw [nextLoads?, hend]
    rcases Nat.lt_or_eq_of_le hlast with hlt | heq
    · have hsome := hpins last hlt
      rw [hnone] at hsome
      cases hsome
    · exact heq
  subst hthree
  cases hend.symm.trans hsettles
  exact ⟨⟨hover, hmet⟩, by decide, (hrounds 0 (by decide)).2, (hrounds 1 (by decide)).2, hsettles,
    houtcome, (hroom 2).2⟩

end AccessSampling
