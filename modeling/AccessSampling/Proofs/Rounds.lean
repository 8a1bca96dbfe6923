/-!
# Loops in rounds

A loop without a counter is given by its round: the next state, or none if the loop is over. If
every round lowers a measure of the state, there are at most as many rounds as the measure says, and
what every round keeps, the loop keeps.
-/

namespace AccessSampling.Rounds

variable {σ : Type} {round : σ → Option σ}

/-- The state after some rounds, or after fewer if the loop is over before. -/
def after (round : σ → Option σ) : Nat → σ → σ
  | 0, s => s
  | n + 1, s =>
    match round s with
    | none => s
    | some s => after round n s

theorem after_succ_of_some {s s' : σ} (h : round s = some s') (n : Nat) :
    after round (n + 1) s = after round n s' := by
  rw [after, h]

theorem after_keeps {P : σ → Prop} (hround : ∀ {s s'}, round s = some s' → P s → P s') {s : σ}
    (hs : P s) (n : Nat) : P (after round n s) := by
  induction n generalizing s with
  | zero => exact hs
  | succ n ih =>
      rw [after]
      cases h : round s with
      | none => exact hs
      | some s' => exact ih (hround h hs)

section Measure

variable {measure : σ → Nat} (hlt : ∀ {s s'}, round s = some s' → measure s' < measure s)
include hlt

/-- A loop whose rounds lower a measure is over after as many rounds as it says, and after more. -/
theorem over_after {n : Nat} {s : σ} (h : measure s ≤ n) : round (after round n s) = none := by
  induction n generalizing s with
  | zero =>
      rw [after]
      cases hs : round s with
      | none => rfl
      | some s' => exact absurd (Nat.lt_of_lt_of_le (hlt hs) h) (Nat.not_lt_zero _)
  | succ n ih =>
      rw [after]
      cases hs : round s with
      | none => exact hs
      | some s' => exact ih (Nat.le_of_lt_succ (Nat.lt_of_lt_of_le (hlt hs) h))

/-- Such a loop has a last round, and every round before that one goes on to the next. -/
theorem exists_end (s : σ) :
    ∃ last ≤ measure s, round (after round last s) = none ∧
      ∀ n < last, round (after round n s) = some (after round (n + 1) s) := by
  induction hm : measure s using Nat.strongRecOn generalizing s with
  | ind m ih =>
      subst hm
      cases h : round s with
      | none => exact ⟨0, Nat.zero_le _, h, fun n hn => absurd hn (Nat.not_lt_zero n)⟩
      | some s' =>
          obtain ⟨last, hle, hend, hbefore⟩ := ih _ (hlt h) s' rfl
          refine ⟨last + 1, Nat.lt_of_le_of_lt hle (hlt h), ?_, fun n hn => ?_⟩
          · rw [after_succ_of_some h]
            exact hend
          · cases n with
            | zero => rw [after_succ_of_some h, after, h, after]
            | succ n =>
                rw [after_succ_of_some h, after_succ_of_some h]
                exact hbefore n (Nat.lt_of_succ_lt_succ hn)

end Measure

end AccessSampling.Rounds
