import AccessSampling.Proofs.BudgetBound
import Mathlib.Data.List.FinRange

/-!
# How the classes share the budget

Scaling is the same for all. The classes below the ceiling all have their proposals times one
factor, rounded up, so their ratios are kept up to the rounding. And a round decides by sums over
all classes and by each class on its own, so a class has the same period wherever it stands.
-/

namespace AccessSampling

/-! ## One factor -/

theorem ceilDiv_mul_lt (n : Nat) {d : Nat} (hd : 0 < d) : ceilDiv n d * d < n + d := by
  have h := Nat.div_mul_le_self (n + d - 1) d
  rw [ceilDiv]
  omega

/-- Two periods scaled by one factor keep their ratio up to what one of them is rounded. -/
theorem ceilDiv_mul_lt_ceilDiv_mul (p : Nat) {q : Nat} (free : Nat) {room : Nat} (hq : 0 < q)
    (hroom : 0 < room) :
    ceilDiv (p * free) room * q < ceilDiv (q * free) room * p + q := by
  have hp := ceilDiv_mul_lt (p * free) hroom
  have hle := le_ceilDiv_mul (q * free) hroom
  refine Nat.lt_of_mul_lt_mul_right (a := room) ?_
  calc ceilDiv (p * free) room * q * room
      = ceilDiv (p * free) room * room * q := by ring
    _ < (p * free + room) * q := Nat.mul_lt_mul_of_pos_right hp hq
    _ = q * free * p + q * room := by ring
    _ ≤ ceilDiv (q * free) room * room * p + q * room :=
      Nat.add_le_add_right (Nat.mul_le_mul_right _ hle) _
    _ = (ceilDiv (q * free) room * p + q) * room := by ring

/-- The projection at the ceiling, or with its period times `free / room`, rounded up, if that does
not pass the ceiling. -/
def Projection.Shares (ceiling free room : Nat) (p q : Projection) : Prop :=
  q = p.raise ceiling ∨
    q = p.withPeriod (ceilDiv (p.period * free) room) ∧ q.period ≤ ceiling

theorem Projection.Shares.period_eq {ceiling free room : Nat} {p q : Projection}
    (h : p.Shares ceiling free room q) (hlt : q.period < ceiling) :
    q.period = ceilDiv (p.period * free) room := by
  rcases h with rfl | ⟨rfl, -⟩
  · exact absurd hlt (Nat.not_lt.2 (Nat.le_max_left ceiling p.period))
  · rfl

namespace Load

variable {ceiling free room : Nat} {l : Load}

/-- The class is pinned, or its proposal is not above the ceiling. -/
def Proper (ceiling : Nat) (l : Load) : Prop := l.pinned = true ∨ l.proposed.period ≤ ceiling

theorem shares_unscaled (h : l.Proper ceiling) :
    l.proposed.Shares ceiling 1 1 (l.unscaled ceiling) := by
  unfold unscaled
  split
  · exact .inl rfl
  · rename_i hpinned
    refine .inr ⟨?_, h.resolve_left hpinned⟩
    rw [ceilDiv, Nat.mul_one, Nat.add_sub_cancel, Nat.div_one]
    rfl

theorem shares_scaled (h : l.overflows ceiling free room = false) :
    l.proposed.Shares ceiling free room (l.scaled ceiling free room) := by
  cases hpinned : l.pinned with
  | true => exact .inl (scaled_of_pinned hpinned)
  | false =>
      obtain ⟨hroom, hceiling⟩ := (not_overflows_iff.1 h).resolve_left (by simp [hpinned])
      rw [scaled_of_not_pinned hpinned hroom]
      exact .inr ⟨rfl, hceiling⟩

/-- Scaling raises a period, so a class above the ceiling is pinned. -/
theorem proper_pinIf (ceiling : Nat) (l : Load) (hlt : room < free) :
    (l.pinIf ceiling free room).Proper ceiling := by
  cases hover : l.overflows ceiling free room with
  | true => exact .inl (by rw [pinIf, hover, Bool.or_true])
  | false =>
      rcases not_overflows_iff.1 hover with hpinned | ⟨hroom, hceiling⟩
      · exact .inl (by rw [pinIf, hpinned, Bool.true_or])
      · exact .inr ((le_scaledPeriod l.proposed.period hroom hlt).trans hceiling)

end Load

/-- The rounds end with one factor for all classes that are not pinned. A class above the ceiling is
pinned by the first round that finds too little room. -/
theorem exists_factor_settle {budget ceiling : Nat} {ls : List Load}
    (h : budget - pinnedVolume ceiling ls < freeVolume ls ∨ ∀ l ∈ ls, l.Proper ceiling) :
    ∃ free room, 1 ≤ room ∧ room ≤ free ∧
      List.Forall₂ (Projection.Shares ceiling free room) (ls.map Load.proposed)
        (settle budget ceiling ls) := by
  refine settle_induction budget ceiling
    (motive := fun ls qs =>
      (budget - pinnedVolume ceiling ls < freeVolume ls ∨ ∀ l ∈ ls, l.Proper ceiling) →
      ∃ free room, 1 ≤ room ∧ room ≤ free ∧
        List.Forall₂ (Projection.Shares ceiling free room) (ls.map Load.proposed) qs)
    ?_ ?_ ?_ ls h
  · intro ls hfits h
    have hproper := h.resolve_left (Nat.not_lt.2 hfits)
    exact ⟨1, 1, Nat.le_refl 1, Nat.le_refl 1,
      forall₂_map_proposed fun l hl => Load.shares_unscaled (hproper l hl)⟩
  · intro ls hlt hnone _
    exact ⟨_, _, room_pos hlt hnone, Nat.le_of_lt hlt,
      forall₂_map_proposed fun l hl => Load.shares_scaled (hnone l hl)⟩
  · -- whatever came before, a round that pins leaves no class above the ceiling to be scaled
    intro ls qs hlt _ ih _
    rw [Load.map_proposed_map_pinIf] at ih
    refine ih (.inr fun l hl => ?_)
    obtain ⟨l, -, rfl⟩ := List.mem_map.1 hl
    exact l.proper_pinIf ceiling hlt

theorem pinnedVolume_loads (ceiling : Nat) (ps : List Projection) :
    pinnedVolume ceiling (loads ps) = 0 := by
  have hnil : ((loads ps).filter fun l => l.pinned) = [] := by
    simp [loads]
  rw [pinnedVolume, hnil]
  rfl

theorem freeVolume_loads (ps : List Projection) : freeVolume (loads ps) = totalVolume ps := by
  have hall : ((loads ps).filter fun l => !l.pinned) = loads ps := by
    simp [loads]
  rw [freeVolume, hall]
  exact congrArg totalVolume (map_proposed_loads ps)

theorem eq_settle_of_scaled {budget ceiling before after : Nat} {ps qs : List Projection}
    (h : enforceBudget budget ceiling ps = (.scaled before after, qs)) :
    budget < totalVolume ps ∧ qs = settle budget ceiling (loads ps) := by
  rcases Nat.lt_or_ge budget (totalVolume ps) with hover | hfits
  · rcases Nat.lt_or_ge budget (totalVolume (ps.map (Projection.raise ceiling))) with
      hpassed | hmet
    · cases (enforceBudget_of_passed hover hpassed).symm.trans h
    · cases (enforceBudget_of_met hover hmet).symm.trans h
      exact ⟨hover, rfl⟩
  · cases (enforceBudget_of_fits hfits).symm.trans h

/-- Proposals that are scaled have one factor in common, which is at least one: each class is pinned
at the ceiling, or has its proposal times the factor, rounded up, and is then not above the ceiling.
So two classes below the ceiling keep their ratio up to what their periods are rounded. -/
theorem enforceBudget_common_factor {budget ceiling before after : Nat} {ps qs : List Projection}
    (hperiod : ∀ p ∈ ps, 1 ≤ p.period)
    (h : enforceBudget budget ceiling ps = (.scaled before after, qs)) :
    ∃ free room, 1 ≤ room ∧ room ≤ free ∧
      List.Forall₂ (Projection.Shares ceiling free room) ps qs ∧
      (∀ x ∈ ps.zip qs, x.2.period < ceiling →
        x.2.period = ceilDiv (x.1.period * free) room) ∧
      ∀ x ∈ ps.zip qs, ∀ y ∈ ps.zip qs, x.2.period < ceiling → y.2.period < ceiling →
        -(x.1.period : Int) < x.2.period * y.1.period - y.2.period * x.1.period ∧
          (x.2.period * y.1.period - y.2.period * x.1.period : Int) < y.1.period := by
  obtain ⟨hover, rfl⟩ := eq_settle_of_scaled h
  have hfirst : budget - pinnedVolume ceiling (loads ps) < freeVolume (loads ps) := by
    rwa [pinnedVolume_loads, freeVolume_loads, Nat.sub_zero]
  obtain ⟨free, room, hroom, hle, hshares⟩ := exists_factor_settle (.inl hfirst)
  rw [map_proposed_loads] at hshares
  have hscaled : ∀ x ∈ ps.zip (settle budget ceiling (loads ps)), x.2.period < ceiling →
      x.2.period = ceilDiv (x.1.period * free) room :=
    fun x hx => ((List.forall₂_iff_zip.1 hshares).2 hx).period_eq
  refine ⟨free, room, hroom, hle, hshares, hscaled, ?_⟩
  intro x hx y hy hxlt hylt
  have hxpos := hperiod x.1 (List.of_mem_zip hx).1
  have hypos := hperiod y.1 (List.of_mem_zip hy).1
  have hxy := ceilDiv_mul_lt_ceilDiv_mul x.1.period free hypos hroom
  have hyx := ceilDiv_mul_lt_ceilDiv_mul y.1.period free hxpos hroom
  rw [← hscaled x hx hxlt, ← hscaled y hy hylt] at hxy hyx
  zify at hxy hyx
  constructor
  · linarith
  · linarith

/-- One class is pinned at the ceiling; the periods of the others are rounded up. -/
theorem enforceBudget_common_factor_roundedUp :
    let ps : List Projection := [⟨.dramRead, 300, 50⟩, ⟨.nvmRead, 60, 3⟩, ⟨.memWrite, 70, 5⟩]
    let qs : List Projection := [⟨.dramRead, 300, 70⟩, ⟨.nvmRead, 60, 17⟩, ⟨.memWrite, 70, 29⟩]
    (∀ p ∈ ps, 1 ≤ p.period) ∧ enforceBudget 10 70 ps = (.scaled 40 9, qs) ∧
      (∃ free room, 1 ≤ room ∧ room ≤ free ∧
        List.Forall₂ (Projection.Shares 70 free room) ps qs) ∧
      (-3 : Int) < 17 * 5 - 29 * 3 ∧ (17 * 5 - 29 * 3 : Int) < 5 := by
  intro ps qs
  have hperiod : ∀ p ∈ ps, 1 ≤ p.period := by decide
  have hscaled : enforceBudget 10 70 ps = (.scaled 40 9, qs) := by decide +kernel
  obtain ⟨free, room, hroom, hle, hshares, -, hratio⟩ :=
    enforceBudget_common_factor hperiod hscaled
  have hcross := hratio (⟨.nvmRead, 60, 3⟩, ⟨.nvmRead, 60, 17⟩) (by decide)
    (⟨.memWrite, 70, 5⟩, ⟨.memWrite, 70, 29⟩) (by decide) (by decide) (by decide)
  exact ⟨hperiod, hscaled, ⟨free, room, hroom, hle, hshares⟩, hcross⟩

/-! ## Any order -/

theorem totalVolume_of_perm {ps ps' : List Projection} (h : ps'.Perm ps) :
    totalVolume ps' = totalVolume ps := by
  rw [totalVolume_eq_sum, totalVolume_eq_sum, (h.map _).sum_eq]

theorem freeVolume_of_perm {ls ls' : List Load} (h : ls'.Perm ls) :
    freeVolume ls' = freeVolume ls :=
  totalVolume_of_perm ((h.filter _).map _)

theorem pinnedVolume_of_perm (ceiling : Nat) {ls ls' : List Load} (h : ls'.Perm ls) :
    pinnedVolume ceiling ls' = pinnedVolume ceiling ls :=
  totalVolume_of_perm ((h.filter _).map _)

/-- The rounds settle every class by itself, and the same in any order of the classes. -/
theorem exists_map_settle (budget ceiling : Nat) (ls : List Load) :
    ∃ f : Load → Projection, ∀ ls', ls'.Perm ls → settle budget ceiling ls' = ls'.map f := by
  refine settle_induction budget ceiling
    (motive := fun ls _ => ∃ f : Load → Projection, ∀ ls', ls'.Perm ls →
      settle budget ceiling ls' = ls'.map f) ?_ ?_ ?_ ls
  · intro ls hfits
    refine ⟨Load.unscaled ceiling, fun ls' hperm => ?_⟩
    rw [← freeVolume_of_perm hperm, ← pinnedVolume_of_perm ceiling hperm] at hfits
    exact settle_of_fits hfits
  · intro ls hlt hnone
    refine ⟨Load.scaled ceiling (freeVolume ls) (budget - pinnedVolume ceiling ls),
      fun ls' hperm => ?_⟩
    rw [← freeVolume_of_perm hperm, ← pinnedVolume_of_perm ceiling hperm] at hlt hnone ⊢
    exact settle_of_scales hlt fun l hl => hnone l (hperm.mem_iff.1 hl)
  · -- pinning a permuted list gives a permutation of the pinned list
    rintro ls - hlt hany ⟨f, hf⟩
    refine ⟨f ∘ Load.pinIf ceiling (freeVolume ls) (budget - pinnedVolume ceiling ls),
      fun ls' hperm => ?_⟩
    have hnext := hf _ (hperm.map _)
    rw [← hperm.any_eq] at hany
    rw [← freeVolume_of_perm hperm, ← pinnedVolume_of_perm ceiling hperm] at hlt hany hnext ⊢
    rw [settle_of_pins hlt hany, hnext, List.map_map]

/-- Whatever the order of the classes is, the outcome is the same, and so is the period of each. -/
theorem exists_map_enforceBudget (budget ceiling : Nat) (ps : List Projection) :
    ∃ (outcome : BudgetOutcome) (f : Projection → Projection), ∀ ps', ps'.Perm ps →
      enforceBudget budget ceiling ps' = (outcome, ps'.map f) := by
  rcases Nat.lt_or_ge budget (totalVolume ps) with hover | hfits
  · rcases Nat.lt_or_ge budget (totalVolume (ps.map (Projection.raise ceiling))) with
      hpassed | hmet
    · refine ⟨.infeasible (totalVolume ps) (totalVolume (ps.map (Projection.raise ceiling))),
        Projection.raise ceiling, fun ps' hperm => ?_⟩
      have hvolume := totalVolume_of_perm hperm
      have hraised := totalVolume_of_perm (hperm.map (Projection.raise ceiling))
      rw [enforceBudget_of_passed (by rwa [hvolume]) (by rwa [hraised]), hvolume, hraised]
    · -- the volume that is reported is a sum over the settled classes, in whatever order
      obtain ⟨f, hf⟩ := exists_map_settle budget ceiling (loads ps)
      refine ⟨.scaled (totalVolume ps) (totalVolume ((loads ps).map f)),
        fun p => f { proposed := p }, fun ps' hperm => ?_⟩
      have hloads : (loads ps').Perm (loads ps) := hperm.map _
      have hvolume := totalVolume_of_perm hperm
      have hraised := totalVolume_of_perm (hperm.map (Projection.raise ceiling))
      rw [enforceBudget_of_met (by rwa [hvolume]) (by rwa [hraised]), hf _ hloads, hvolume,
        totalVolume_of_perm (hloads.map f), loads, loads, List.map_map, List.map_map]
      rfl
  · refine ⟨.within (totalVolume ps), id, fun ps' hperm => ?_⟩
    have hvolume := totalVolume_of_perm hperm
    rw [enforceBudget_of_fits (by rwa [hvolume]), hvolume, List.map_id]

section Reordered

variable {α β : Type} {n : Nat}

/-- The elements in another order: place `i` has the one of place `order i`. -/
def reordered (xs : List α) (hlen : xs.length = n) (order : Equiv.Perm (Fin n)) : List α :=
  List.ofFn fun i => xs.get ((order i).cast hlen.symm)

theorem reordered_perm (xs : List α) (hlen : xs.length = n) (order : Equiv.Perm (Fin n)) :
    (reordered xs hlen order).Perm xs := by
  subst hlen
  exact (order.ofFn_comp_perm xs.get).trans (List.Perm.of_eq (List.ofFn_get xs))

theorem reordered_map (f : α → β) (xs : List α) (hlen : xs.length = n)
    (hmap : (xs.map f).length = n) (order : Equiv.Perm (Fin n)) :
    reordered (xs.map f) hmap order = (reordered xs hlen order).map f := by
  simp [reordered, List.map_ofFn, Function.comp_def]

end Reordered

/-- Classes in another order meet the budget the same way, and each gets the period that it gets in
the first order, so none is favoured by its place. -/
theorem enforceBudget_reordered (budget ceiling : Nat) (ps : List Projection)
    (order : Equiv.Perm (Fin ps.length)) :
    enforceBudget budget ceiling (reordered ps rfl order) =
      ((enforceBudget budget ceiling ps).1,
        reordered (enforceBudget budget ceiling ps).2 (length_enforceBudget budget ceiling ps)
          order) := by
  obtain ⟨outcome, f, hf⟩ := exists_map_enforceBudget budget ceiling ps
  have hps := hf ps (List.Perm.refl ps)
  rw [hf _ (reordered_perm ps rfl order)]
  simp only [hps]
  rw [reordered_map]

/-- The classes the other way round. -/
example :
    enforceBudget 10 70 [⟨.memWrite, 70, 5⟩, ⟨.nvmRead, 60, 3⟩, ⟨.dramRead, 300, 50⟩] =
      (.scaled 40 9, [⟨.memWrite, 70, 29⟩, ⟨.nvmRead, 60, 17⟩, ⟨.dramRead, 300, 70⟩]) := by
  decide +kernel

end AccessSampling
