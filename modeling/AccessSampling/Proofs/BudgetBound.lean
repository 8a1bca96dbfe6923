import AccessSampling.Budget
import Mathlib.Algebra.Order.BigOperators.Group.List
import Mathlib.Data.List.Forall2
import Mathlib.Tactic.Linarith
import Mathlib.Tactic.Ring

/-!
# What the budget makes of the proposals

Whatever a round pins, the final list holds the same classes with the same events, and each period
lies between its proposal and the ceiling. The scaled periods share the room by one factor and are
rounded up, so each class takes less than one sample more than its share, and together the `n`
classes exceed the budget by at most `n - 1`.
-/

namespace AccessSampling

/-! ## Projections -/

/-- A projection that was raised, but not above the ceiling. -/
structure Projection.RaisedTo (ceiling : Nat) (p q : Projection) : Prop where
  cls : q.cls = p.cls
  events : q.events = p.events
  le : p.period ≤ q.period
  le_ceiling : q.period ≤ max ceiling p.period

/-- The projection with another period. -/
def Projection.withPeriod (p : Projection) (period : Nat) : Projection := { p with period }

/-- A class that has events has a period. -/
def Projection.Sound (p : Projection) : Prop := 0 < p.events → 0 < p.period

instance (p : Projection) : Decidable p.Sound :=
  inferInstanceAs (Decidable (0 < p.events → 0 < p.period))

namespace Projection

theorem RaisedTo.refl (ceiling : Nat) (p : Projection) : p.RaisedTo ceiling p where
  cls := rfl
  events := rfl
  le := Nat.le_refl _
  le_ceiling := Nat.le_max_right _ _

theorem RaisedTo.eq_withPeriod {ceiling : Nat} {p q : Projection} (h : p.RaisedTo ceiling q) :
    q = p.withPeriod q.period := by
  obtain ⟨cls, events, period⟩ := q
  rw [show cls = _ from h.cls, show events = _ from h.events]
  rfl

theorem raisedTo_raise (ceiling : Nat) (p : Projection) : p.RaisedTo ceiling (p.raise ceiling) where
  cls := rfl
  events := rfl
  le := Nat.le_max_right _ _
  le_ceiling := Nat.le_refl _

/-- A sound class takes fewer than `volume + 1` samples, also in the fraction that the volume
drops. -/
theorem Sound.events_lt {p : Projection} (h : p.Sound) :
    p.events = 0 ∨ 0 < p.period ∧ p.events < (p.volume + 1) * p.period := by
  rcases Nat.eq_zero_or_pos p.events with h0 | hpos
  · exact .inl h0
  · have hperiod := h hpos
    refine .inr ⟨hperiod, ?_⟩
    rw [volume, Nat.max_eq_left hperiod, Nat.mul_comm]
    exact Nat.lt_mul_div_succ _ hperiod

end Projection

/-! ## Rounding up -/

theorem le_ceilDiv_mul (n : Nat) {d : Nat} (hd : 0 < d) : n ≤ ceilDiv n d * d := by
  have h := Nat.lt_mul_div_succ (n + d - 1) hd
  rw [Nat.mul_add, Nat.mul_one, Nat.mul_comm] at h
  rw [ceilDiv]
  omega

namespace Load

variable {ceiling free room : Nat} {l : Load}

/-- A class that does not overflow is pinned, or has a scaled period up to the ceiling. -/
theorem not_overflows_iff : l.overflows ceiling free room = false ↔
    l.pinned = true ∨
      0 < room ∧ ceilDiv (l.proposed.period * free) room ≤ ceiling := by
  unfold overflows scaledPeriod?
  cases l.pinned with
  | true => simp
  | false =>
      by_cases hroom : room = 0
      · simp [hroom]
      · simp [hroom, Nat.pos_of_ne_zero hroom]

theorem scaled_of_pinned (h : l.pinned = true) :
    l.scaled ceiling free room = l.proposed.raise ceiling := by
  rw [scaled, if_pos h]

theorem scaled_of_not_pinned (h : l.pinned = false) (hroom : 0 < room) :
    l.scaled ceiling free room =
      { l.proposed with period := ceilDiv (l.proposed.period * free) room } := by
  rw [scaled, if_neg (by simp [h]), scaledPeriod?, if_neg (Nat.ne_of_gt hroom)]
  rfl

theorem raisedTo_unscaled (ceiling : Nat) (l : Load) :
    l.proposed.RaisedTo ceiling (l.unscaled ceiling) := by
  unfold unscaled
  split
  · exact Projection.raisedTo_raise ..
  · exact .refl ..

/-- With less room than samples, scaling raises the period. -/
theorem le_scaledPeriod (p : Nat) (hroom : 0 < room) (hfree : room < free) :
    p ≤ ceilDiv (p * free) room := by
  have h := le_ceilDiv_mul (p * free) hroom
  have hmul : p * room ≤ p * free := Nat.mul_le_mul_left _ (Nat.le_of_lt hfree)
  exact Nat.le_of_mul_le_mul_right (hmul.trans h) hroom

theorem raisedTo_scaled (hfree : room < free) (h : l.overflows ceiling free room = false) :
    l.proposed.RaisedTo ceiling (l.scaled ceiling free room) := by
  cases hpinned : l.pinned with
  | true =>
      rw [scaled_of_pinned hpinned]
      exact Projection.raisedTo_raise ..
  | false =>
      obtain ⟨hroom, hceiling⟩ := (not_overflows_iff.1 h).resolve_left (by simp [hpinned])
      rw [scaled_of_not_pinned hpinned hroom]
      exact
        { cls := rfl
          events := rfl
          le := le_scaledPeriod _ hroom hfree
          le_ceiling := hceiling.trans (Nat.le_max_left _ _) }

/-- A scaled class takes less than one sample more than its share of the room. -/
theorem volume_scaled_mul_lt (hl : l.proposed.Sound) (hpinned : l.pinned = false)
    (hroom : 0 < room) :
    (l.scaled ceiling free room).volume * free < (l.proposed.volume + 1) * room := by
  rw [scaled_of_not_pinned hpinned hroom]
  rcases hl.events_lt with h0 | ⟨hperiod, hevents⟩
  · rw [Projection.volume, h0, Nat.zero_div, Nat.zero_mul]
    positivity
  · have hceil := le_ceilDiv_mul (l.proposed.period * free) hroom
    have hdiv := Nat.div_mul_le_self l.proposed.events
      (max (ceilDiv (l.proposed.period * free) room) 1)
    have hmax := Nat.le_max_left (ceilDiv (l.proposed.period * free) room) 1
    rw [Projection.volume]
    generalize l.proposed.events / max (ceilDiv (l.proposed.period * free) room) 1 = v at hdiv ⊢
    generalize max (ceilDiv (l.proposed.period * free) room) 1 = q at hdiv hmax
    -- cancel the proposed period
    refine Nat.lt_of_mul_lt_mul_right (a := l.proposed.period) ?_
    calc v * free * l.proposed.period
        = v * (l.proposed.period * free) := by ring
      _ ≤ v * (q * room) := Nat.mul_le_mul_left _ (hceil.trans (Nat.mul_le_mul_right _ hmax))
      _ = v * q * room := by ring
      _ ≤ l.proposed.events * room := Nat.mul_le_mul_right _ hdiv
      _ < (l.proposed.volume + 1) * l.proposed.period * room :=
        Nat.mul_lt_mul_of_pos_right hevents hroom
      _ = (l.proposed.volume + 1) * room * l.proposed.period := by ring

end Load

/-! ## Volumes of a round -/

section Volumes

variable {budget ceiling free room : Nat} {ls : List Load}

theorem totalVolume_eq_sum (ps : List Projection) :
    totalVolume ps = (ps.map Projection.volume).sum :=
  List.sum_eq_foldr.symm

theorem sum_eq_pinned_add_free (g : Load → Nat) (ls : List Load) :
    (ls.map g).sum = ((ls.filter fun l => l.pinned).map g).sum +
      ((ls.filter fun l => !l.pinned).map g).sum := by
  induction ls with
  | nil => rfl
  | cons l rest ih =>
      cases hl : l.pinned with
      | true => simp [hl, ih, Nat.add_assoc]
      | false => simp [hl, ih, Nat.add_left_comm]

/-- If every pinned class is raised, the volume splits into that of the pinned classes and that of
the others. -/
theorem totalVolume_map (f : Load → Projection)
    (hf : ∀ l, l.pinned = true → f l = l.proposed.raise ceiling) (ls : List Load) :
    totalVolume (ls.map f) =
      pinnedVolume ceiling ls + totalVolume ((ls.filter fun l => !l.pinned).map f) := by
  rw [totalVolume_eq_sum, List.map_map, sum_eq_pinned_add_free, pinnedVolume, totalVolume_eq_sum,
    totalVolume_eq_sum, List.map_map, List.map_map]
  congr 2
  refine List.map_congr_left fun l hl => ?_
  rw [Function.comp_apply, hf l (List.mem_filter.1 hl).2]
  rfl

theorem pinnedVolume_le (ceiling : Nat) (ls : List Load) :
    pinnedVolume ceiling ls ≤
      totalVolume ((ls.map Load.proposed).map (Projection.raise ceiling)) := by
  rw [List.map_map, totalVolume_map (Projection.raise ceiling ∘ Load.proposed) fun _ _ => rfl]
  exact Nat.le_add_right _ _

theorem totalVolume_unscaled (ceiling : Nat) (ls : List Load) :
    totalVolume (ls.map (Load.unscaled ceiling)) = pinnedVolume ceiling ls + freeVolume ls := by
  have hf : ∀ l : Load, l.pinned = true → l.unscaled ceiling = l.proposed.raise ceiling :=
    fun l hl => by rw [Load.unscaled, if_pos hl]
  rw [totalVolume_map _ hf, freeVolume]
  congr 2
  refine List.map_congr_left fun l hl => ?_
  have hpinned : l.pinned = false := by simpa using (List.mem_filter.1 hl).2
  rw [Load.unscaled, if_neg (by simp [hpinned])]

theorem exists_not_pinned (h : 0 < freeVolume ls) : ∃ l ∈ ls, l.pinned = false := by
  by_contra hall
  have hnil : (ls.filter fun l => !l.pinned) = [] := by
    refine List.filter_eq_nil_iff.2 fun l hl hpinned => hall ⟨l, hl, ?_⟩
    simpa using hpinned
  rw [freeVolume, hnil] at h
  exact absurd h (Nat.lt_irrefl 0)

/-- The classes that are scaled take less than one sample each more than the room has for them. -/
theorem totalVolume_scaled_mul_le (hroom : 0 < room) (hls : ∀ l ∈ ls, l.pinned = false)
    (hsound : ∀ l ∈ ls, l.proposed.Sound) :
    totalVolume (ls.map (Load.scaled ceiling free room)) * free + ls.length ≤
      (totalVolume (ls.map Load.proposed) + ls.length) * room := by
  induction ls with
  | nil => simp [totalVolume]
  | cons l rest ih =>
      have hl : (l.scaled ceiling free room).volume * free < (l.proposed.volume + 1) * room :=
        Load.volume_scaled_mul_lt (hsound l (by simp)) (hls l (by simp)) hroom
      have hrest := ih (fun l hl => hls l (by simp [hl])) (fun l hl => hsound l (by simp [hl]))
      simp only [totalVolume_eq_sum, List.map_cons, List.sum_cons, List.length_cons] at hrest ⊢
      linarith

theorem totalVolume_scaled_lt (hroom : 0 < room) (hfree : freeVolume ls = free)
    (hlt : room < free) (hsound : ∀ l ∈ ls, l.proposed.Sound) :
    totalVolume ((ls.filter fun l => !l.pinned).map (Load.scaled ceiling free room)) <
      room + (ls.filter fun l => !l.pinned).length := by
  have hne : 0 < (ls.filter fun l => !l.pinned).length := by
    obtain ⟨l, hl, hpinned⟩ := exists_not_pinned (hfree ▸ Nat.zero_lt_of_lt hlt)
    exact List.length_pos_of_mem (List.mem_filter.2 ⟨hl, by simp [hpinned]⟩)
  have hmul : totalVolume ((ls.filter fun l => !l.pinned).map (Load.scaled ceiling free room)) *
        free + (ls.filter fun l => !l.pinned).length ≤
      (free + (ls.filter fun l => !l.pinned).length) * room := by
    conv_rhs => rw [← hfree]
    exact totalVolume_scaled_mul_le hroom (fun l hl => by simpa using (List.mem_filter.1 hl).2)
      (fun l hl => hsound l (List.mem_filter.1 hl).1)
  generalize totalVolume ((ls.filter fun l => !l.pinned).map (Load.scaled ceiling free room)) = v
    at hmul ⊢
  generalize (ls.filter fun l => !l.pinned).length = k at hmul hne ⊢
  -- one sample too many would be more than what the classes lose to rounding
  by_contra hge
  have hle : room + k ≤ v := Nat.le_of_not_lt hge
  nlinarith [Nat.mul_le_mul_right free hle, Nat.mul_lt_mul_of_pos_left hlt hne]

end Volumes

/-! ## Rounds -/

section Rounds

variable {budget ceiling room : Nat} {ls : List Load}

theorem settle_of_settled {qs : List Projection}
    (h : scalingRound budget ceiling ls = .settled qs) : settle budget ceiling ls = qs := by
  unfold settle
  split
  · rename_i hround
    exact Round.settled.inj (hround.symm.trans h)
  · rename_i hround
    cases hround.symm.trans h

theorem settle_of_pinned {ls' : List Load} (h : scalingRound budget ceiling ls = .pinned ls') :
    settle budget ceiling ls = settle budget ceiling ls' := by
  conv_lhs => unfold settle
  split
  · rename_i hround
    cases hround.symm.trans h
  · rename_i hround
    rw [Round.pinned.inj (hround.symm.trans h)]

/-- If the classes that are not pinned fit with their proposals, these are final. -/
theorem settle_of_fits (hfits : freeVolume ls ≤ budget - pinnedVolume ceiling ls) :
    settle budget ceiling ls = ls.map (Load.unscaled ceiling) :=
  settle_of_settled (by simp only [scalingRound, if_pos hfits])

/-- If no class would pass the ceiling, the scaled periods are final. -/
theorem settle_of_scales (hlt : budget - pinnedVolume ceiling ls < freeVolume ls)
    (hnone : ∀ l ∈ ls,
      l.overflows ceiling (freeVolume ls) (budget - pinnedVolume ceiling ls) = false) :
    settle budget ceiling ls =
      ls.map (Load.scaled ceiling (freeVolume ls) (budget - pinnedVolume ceiling ls)) := by
  have hany : ¬ls.any
      (Load.overflows ceiling (freeVolume ls) (budget - pinnedVolume ceiling ls)) = true := by
    simpa using hnone
  exact settle_of_settled (by simp only [scalingRound, if_neg (Nat.not_le.2 hlt), if_neg hany])

/-- Classes that would pass the ceiling are pinned before the next round. -/
theorem settle_of_pins (hlt : budget - pinnedVolume ceiling ls < freeVolume ls)
    (hany : ls.any
      (Load.overflows ceiling (freeVolume ls) (budget - pinnedVolume ceiling ls)) = true) :
    settle budget ceiling ls = settle budget ceiling
      (ls.map (Load.pinIf ceiling (freeVolume ls) (budget - pinnedVolume ceiling ls))) :=
  settle_of_pinned (by simp only [scalingRound, if_neg (Nat.not_le.2 hlt), if_pos hany])

/-- What holds of both kinds of last round, and of a round that pins if it holds of the rounds after
it, holds of all rounds. -/
theorem settle_induction (budget ceiling : Nat) {motive : List Load → List Projection → Prop}
    (fits : ∀ ls, freeVolume ls ≤ budget - pinnedVolume ceiling ls →
      motive ls (ls.map (Load.unscaled ceiling)))
    (scales : ∀ ls, budget - pinnedVolume ceiling ls < freeVolume ls →
      (∀ l ∈ ls, l.overflows ceiling (freeVolume ls) (budget - pinnedVolume ceiling ls) = false) →
      motive ls
        (ls.map (Load.scaled ceiling (freeVolume ls) (budget - pinnedVolume ceiling ls))))
    (pins : ∀ ls qs, budget - pinnedVolume ceiling ls < freeVolume ls →
      ls.any (Load.overflows ceiling (freeVolume ls) (budget - pinnedVolume ceiling ls)) = true →
      motive (ls.map (Load.pinIf ceiling (freeVolume ls) (budget - pinnedVolume ceiling ls))) qs →
      motive ls qs)
    (ls : List Load) : motive ls (settle budget ceiling ls) := by
  -- every round that pins leaves fewer classes that are not pinned
  induction hn : unpinned ls using Nat.strongRecOn generalizing ls with
  | ind n ih =>
      subst hn
      rcases Nat.lt_or_ge (budget - pinnedVolume ceiling ls) (freeVolume ls) with hlt | hfits
      · by_cases hany : ls.any
            (Load.overflows ceiling (freeVolume ls) (budget - pinnedVolume ceiling ls)) = true
        · rw [settle_of_pins hlt hany]
          exact pins ls _ hlt hany (ih _ (Load.unpinned_map_pinIf_lt hany) _ rfl)
        · have hnone : ∀ l ∈ ls, l.overflows ceiling (freeVolume ls)
              (budget - pinnedVolume ceiling ls) = false := by
            simpa using hany
          rw [settle_of_scales hlt hnone]
          exact scales ls hlt hnone
      · rw [settle_of_fits hfits]
        exact fits ls hfits

/-- A class that is not pinned would pass the ceiling if there were no room. -/
theorem room_pos (hlt : room < freeVolume ls)
    (hnone : ∀ l ∈ ls, l.overflows ceiling (freeVolume ls) room = false) : 0 < room := by
  obtain ⟨l, hl, hpinned⟩ := exists_not_pinned (Nat.zero_lt_of_lt hlt)
  exact ((Load.not_overflows_iff.1 (hnone l hl)).resolve_left (by simp [hpinned])).1

theorem Load.map_proposed_map_pinIf (ceiling free room : Nat) (ls : List Load) :
    (ls.map (Load.pinIf ceiling free room)).map Load.proposed = ls.map Load.proposed := by
  rw [List.map_map]
  rfl

/-- What a settled list keeps of the proposals. -/
structure Settled (budget ceiling : Nat) (ps qs : List Projection) : Prop where
  raised : List.Forall₂ (Projection.RaisedTo ceiling) ps qs
  volume_le : totalVolume qs ≤ budget + (ps.length - 1)

theorem forall₂_map_proposed {r : Projection → Projection → Prop} {f : Load → Projection}
    (hf : ∀ l ∈ ls, r l.proposed (f l)) :
    List.Forall₂ r (ls.map Load.proposed) (ls.map f) := by
  rw [List.forall₂_map_left_iff, List.forall₂_map_right_iff, List.forall₂_same]
  exact hf

theorem settled_unscaled (hpinned : pinnedVolume ceiling ls ≤ budget)
    (hfits : freeVolume ls ≤ budget - pinnedVolume ceiling ls) :
    Settled budget ceiling (ls.map Load.proposed) (ls.map (Load.unscaled ceiling)) := by
  refine ⟨forall₂_map_proposed fun l _ => Load.raisedTo_unscaled ceiling l, ?_⟩
  rw [totalVolume_unscaled]
  omega

theorem settled_scaled (hsound : ∀ l ∈ ls, l.proposed.Sound)
    (hpinned : pinnedVolume ceiling ls ≤ budget)
    (hlt : budget - pinnedVolume ceiling ls < freeVolume ls)
    (hnone : ∀ l ∈ ls,
      l.overflows ceiling (freeVolume ls) (budget - pinnedVolume ceiling ls) = false) :
    Settled budget ceiling (ls.map Load.proposed)
      (ls.map (Load.scaled ceiling (freeVolume ls) (budget - pinnedVolume ceiling ls))) := by
  refine ⟨forall₂_map_proposed fun l hl => Load.raisedTo_scaled hlt (hnone l hl), ?_⟩
  have hscaled :
      totalVolume ((ls.filter fun l => !l.pinned).map
          (Load.scaled ceiling (freeVolume ls) (budget - pinnedVolume ceiling ls))) <
        budget - pinnedVolume ceiling ls + (ls.filter fun l => !l.pinned).length :=
    totalVolume_scaled_lt (room_pos hlt hnone) rfl hlt hsound
  have hlen := List.length_filter_le (fun l : Load => !l.pinned) ls
  rw [totalVolume_map (Load.scaled ceiling _ _) fun _ => Load.scaled_of_pinned, List.length_map]
  omega

/-- Whatever earlier rounds pinned, the rounds to come settle within the bounds. -/
theorem settled_settle (hsound : ∀ l ∈ ls, l.proposed.Sound)
    (hceiling : totalVolume ((ls.map Load.proposed).map (Projection.raise ceiling)) ≤ budget) :
    Settled budget ceiling (ls.map Load.proposed) (settle budget ceiling ls) := by
  refine settle_induction budget ceiling
    (motive := fun ls qs => (∀ l ∈ ls, l.proposed.Sound) →
      totalVolume ((ls.map Load.proposed).map (Projection.raise ceiling)) ≤ budget →
      Settled budget ceiling (ls.map Load.proposed) qs) ?_ ?_ ?_ ls hsound hceiling
  · intro ls hfits _ hceiling
    exact settled_unscaled ((pinnedVolume_le ceiling ls).trans hceiling) hfits
  · intro ls hlt hnone hsound hceiling
    exact settled_scaled hsound ((pinnedVolume_le ceiling ls).trans hceiling) hlt hnone
  · -- pinning leaves the proposals alone, so the next round starts from the same bounds
    intro ls qs _ _ ih hsound hceiling
    rw [Load.map_proposed_map_pinIf] at ih
    refine ih ?_ hceiling
    intro l hl
    obtain ⟨l', hl', rfl⟩ := List.mem_map.1 hl
    exact hsound l' hl'

end Rounds

/-! ## The budget -/

/-- The classes before the first round. -/
def loads (ps : List Projection) : List Load := ps.map fun proposed => { proposed }

theorem map_proposed_loads (ps : List Projection) : (loads ps).map Load.proposed = ps := by
  rw [loads, List.map_map]
  exact List.map_id ps

section Budget

variable {budget ceiling : Nat} {ps : List Projection}

theorem enforceBudget_of_fits (hfits : totalVolume ps ≤ budget) :
    enforceBudget budget ceiling ps = (.within (totalVolume ps), ps) := by
  simp only [enforceBudget, if_pos hfits]

theorem enforceBudget_of_passed (hover : budget < totalVolume ps)
    (hpassed : budget < totalVolume (ps.map (Projection.raise ceiling))) :
    enforceBudget budget ceiling ps =
      (.infeasible (totalVolume ps) (totalVolume (ps.map (Projection.raise ceiling))),
        ps.map (Projection.raise ceiling)) := by
  simp only [enforceBudget, if_neg (Nat.not_le.2 hover), if_pos hpassed]

theorem enforceBudget_of_met (hover : budget < totalVolume ps)
    (hmet : totalVolume (ps.map (Projection.raise ceiling)) ≤ budget) :
    enforceBudget budget ceiling ps =
      (.scaled (totalVolume ps) (totalVolume (settle budget ceiling (loads ps))),
        settle budget ceiling (loads ps)) := by
  simp only [enforceBudget, if_neg (Nat.not_le.2 hover), if_neg (Nat.not_lt.2 hmet)]
  rfl

end Budget

/-- All that the budget can do with sound proposals. -/
theorem enforceBudget_cases (budget ceiling : Nat) {ps : List Projection}
    (hsound : ∀ p ∈ ps, p.Sound) :
    (totalVolume ps ≤ budget ∧
        enforceBudget budget ceiling ps = (.within (totalVolume ps), ps)) ∨
      (budget < totalVolume (ps.map (Projection.raise ceiling)) ∧
        enforceBudget budget ceiling ps =
          (.infeasible (totalVolume ps) (totalVolume (ps.map (Projection.raise ceiling))),
            ps.map (Projection.raise ceiling))) ∨
      ∃ qs, Settled budget ceiling ps qs ∧
        enforceBudget budget ceiling ps = (.scaled (totalVolume ps) (totalVolume qs), qs) := by
  rcases Nat.lt_or_ge budget (totalVolume ps) with hover | hfits
  · rcases Nat.lt_or_ge budget (totalVolume (ps.map (Projection.raise ceiling))) with
      hpassed | hmet
    · exact .inr (.inl ⟨hpassed, enforceBudget_of_passed hover hpassed⟩)
    · refine .inr (.inr ⟨_, ?_, enforceBudget_of_met hover hmet⟩)
      have hloads : ∀ l ∈ loads ps, l.proposed.Sound := by
        simpa [loads] using hsound
      have h := settled_settle hloads ((map_proposed_loads ps).symm ▸ hmet)
      rwa [map_proposed_loads] at h
  · exact .inl ⟨hfits, enforceBudget_of_fits hfits⟩

theorem exists_of_raised {ceiling : Nat} {ps qs : List Projection}
    (h : List.Forall₂ (Projection.RaisedTo ceiling) ps qs) {q : Projection} (hq : q ∈ qs) :
    ∃ p ∈ ps, p.RaisedTo ceiling q := by
  induction h with
  | nil => cases hq
  | cons hp _ ih =>
      rcases List.mem_cons.1 hq with rfl | hq
      · exact ⟨_, List.mem_cons_self, hp⟩
      · obtain ⟨p, hmem, hraised⟩ := ih hq
        exact ⟨p, List.mem_cons_of_mem _ hmem, hraised⟩

/-- What the budget writes is one of the proposals, raised to the ceiling at most. -/
theorem exists_raised_of_enforceBudget {budget ceiling : Nat} {ps qs : List Projection}
    {outcome : BudgetOutcome} (hsound : ∀ p ∈ ps, p.Sound)
    (h : enforceBudget budget ceiling ps = (outcome, qs)) {q : Projection} (hq : q ∈ qs) :
    ∃ p ∈ ps, p.RaisedTo ceiling q := by
  rcases enforceBudget_cases budget ceiling hsound with
    ⟨-, hbudget⟩ | ⟨-, hbudget⟩ | ⟨rs, hsettled, hbudget⟩
  · cases hbudget.symm.trans h
    exact ⟨q, hq, .refl ceiling q⟩
  · cases hbudget.symm.trans h
    obtain ⟨p, hp, rfl⟩ := List.mem_map.1 hq
    exact ⟨p, hp, p.raisedTo_raise ceiling⟩
  · cases hbudget.symm.trans h
    exact exists_of_raised hsettled.raised hq

/-! ## Outcomes -/

theorem Projection.volume_raise_le (ceiling : Nat) (p : Projection) :
    (p.raise ceiling).volume ≤ p.volume := by
  have hperiod : max p.period 1 ≤ max (p.raise ceiling).period 1 :=
    max_le_max_right 1 (Nat.le_max_right ceiling p.period)
  exact Nat.div_le_div_left hperiod (Nat.lt_of_lt_of_le Nat.one_pos (Nat.le_max_right _ _))

theorem totalVolume_raise_le (ceiling : Nat) (ps : List Projection) :
    totalVolume (ps.map (Projection.raise ceiling)) ≤ totalVolume ps := by
  rw [totalVolume_eq_sum, totalVolume_eq_sum, List.map_map]
  exact List.sum_le_sum fun p _ => p.volume_raise_le ceiling

theorem raisedTo_map_raise (ceiling : Nat) (ps : List Projection) :
    List.Forall₂ (Projection.RaisedTo ceiling) ps (ps.map (Projection.raise ceiling)) := by
  rw [List.forall₂_map_right_iff, List.forall₂_same]
  exact fun p _ => p.raisedTo_raise ceiling

/-- What an outcome says of the proposals `ps` and of the projections `qs` that were made of
them. -/
def BudgetOutcome.Reports (budget ceiling : Nat) (ps qs : List Projection) : BudgetOutcome → Prop
  | .within volume => volume = totalVolume ps ∧ qs = ps
  | .scaled before after =>
      before = totalVolume ps ∧ after = totalVolume qs ∧
        totalVolume qs ≤ budget + ps.length - 1
  | .infeasible before after =>
      before = totalVolume ps ∧ after = totalVolume qs ∧
        qs = ps.map (Projection.raise ceiling)

/-- The proposals are left as they are exactly if they fit, and are all raised to the ceiling
exactly if not even that fits. What the outcome reports is true, and whatever it is, every class
keeps its events and a period between its proposal and the ceiling. -/
theorem enforceBudget_outcome (budget ceiling : Nat) {ps : List Projection}
    (hsound : ∀ p ∈ ps, p.Sound) :
    ((∃ volume, (enforceBudget budget ceiling ps).1 = .within volume) ↔
        totalVolume ps ≤ budget) ∧
      ((∃ before after, (enforceBudget budget ceiling ps).1 = .infeasible before after) ↔
        budget < totalVolume (ps.map (Projection.raise ceiling))) ∧
      (enforceBudget budget ceiling ps).1.Reports budget ceiling ps
        (enforceBudget budget ceiling ps).2 ∧
      List.Forall₂ (Projection.RaisedTo ceiling) ps (enforceBudget budget ceiling ps).2 := by
  have hraise := totalVolume_raise_le ceiling ps
  by_cases hwithin : totalVolume ps ≤ budget
  · have hbudget : enforceBudget budget ceiling ps = (.within (totalVolume ps), ps) := by
      simp only [enforceBudget, if_pos hwithin]
    rw [hbudget]
    refine ⟨by simpa using hwithin, by simpa using hraise.trans hwithin, ⟨rfl, rfl⟩, ?_⟩
    exact List.forall₂_same.2 fun p _ => .refl ceiling p
  · rcases enforceBudget_cases budget ceiling hsound with
      ⟨h, -⟩ | ⟨hlt, hbudget⟩ | ⟨qs, hsettled, hbudget⟩
    · exact absurd h hwithin
    · rw [hbudget]
      exact ⟨by simpa using hwithin, by simpa using hlt, ⟨rfl, rfl, rfl⟩,
        raisedTo_map_raise ceiling ps⟩
    · have hfits : ¬budget < totalVolume (ps.map (Projection.raise ceiling)) := by
        intro hlt
        simp only [enforceBudget, if_neg hwithin, if_pos hlt, Prod.mk.injEq, reduceCtorEq,
          false_and] at hbudget
      rw [hbudget]
      refine ⟨by simpa using hwithin, by simpa using hfits, ⟨rfl, rfl, ?_⟩, hsettled.raised⟩
      have hvolume := hsettled.volume_le
      cases ps with
      | nil => exact absurd (Nat.zero_le budget) hwithin
      | cons p ps => simpa using hvolume

/-- One class is pinned at the ceiling, and the other shares what that leaves. -/
theorem enforceBudget_outcome_pinnedClass :
    enforceBudget 1000 200000 [⟨.dramRead, 100000000, 100000⟩, ⟨.nvmRead, 18000000, 2000⟩] =
        (.scaled 10000 1000, [⟨.dramRead, 100000000, 200000⟩, ⟨.nvmRead, 18000000, 36000⟩]) ∧
      totalVolume [⟨.dramRead, 100000000, 200000⟩, ⟨.nvmRead, 18000000, 36000⟩] ≤ 1000 + 2 - 1 := by
  have hsound : ∀ p ∈ [(⟨.dramRead, 100000000, 100000⟩ : Projection),
      ⟨.nvmRead, 18000000, 2000⟩], p.Sound := by
    decide
  have h := enforceBudget_outcome 1000 200000 hsound
  have hbudget : enforceBudget 1000 200000
        [⟨.dramRead, 100000000, 100000⟩, ⟨.nvmRead, 18000000, 2000⟩] =
      (.scaled 10000 1000, [⟨.dramRead, 100000000, 200000⟩, ⟨.nvmRead, 18000000, 36000⟩]) := by
    decide +kernel
  rw [hbudget] at h
  exact ⟨hbudget, h.2.2.1.2.2⟩

/-! ## The classes -/

@[simp] theorem Load.cls_unscaled (ceiling : Nat) (l : Load) :
    (l.unscaled ceiling).cls = l.proposed.cls := by
  unfold unscaled
  split
  · rfl
  · rfl

@[simp] theorem Load.cls_scaled (ceiling free room : Nat) (l : Load) :
    (l.scaled ceiling free room).cls = l.proposed.cls := by
  unfold scaled
  split
  · rfl
  · rfl

theorem map_cls_settle (budget ceiling : Nat) (ls : List Load) :
    (settle budget ceiling ls).map Projection.cls = ls.map fun l => l.proposed.cls := by
  refine settle_induction budget ceiling
    (motive := fun ls qs => qs.map Projection.cls = ls.map fun l => l.proposed.cls) ?_ ?_ ?_ ls
  · intro ls _
    simp [Function.comp_def]
  · intro ls _ _
    simp [Function.comp_def]
  · intro ls qs _ _ ih
    rw [ih, List.map_map]
    rfl

/-- The budget keeps the classes and their order, whatever the proposals are. -/
theorem map_cls_enforceBudget (budget ceiling : Nat) (ps : List Projection) :
    (enforceBudget budget ceiling ps).2.map Projection.cls = ps.map Projection.cls := by
  simp only [enforceBudget]
  split
  · rfl
  · split
    · rw [List.map_map]
      rfl
    · rw [map_cls_settle, List.map_map]
      rfl

theorem length_enforceBudget (budget ceiling : Nat) (ps : List Projection) :
    (enforceBudget budget ceiling ps).2.length = ps.length := by
  rw [← List.length_map Projection.cls, map_cls_enforceBudget, List.length_map]

end AccessSampling
