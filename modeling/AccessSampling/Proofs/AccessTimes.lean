import AccessSampling.IntervalStats
import Mathlib.Algebra.BigOperators.Ring.List
import Mathlib.Algebra.Order.Ring.Nat
import Mathlib.Data.List.MinMax
import Mathlib.Order.Nat

/-!
# Access times

What a list of sample times says by itself, in unbounded integers: the distances between successive
times, the longest of them, and the scaled observations that the statistics of an item are about.
The first sample starts the statistics and counts as an observation of zero.
-/

namespace AccessSampling

namespace IntervalStats

/-- The distances between successive times. -/
def intervals : List UInt64 → List Nat
  | t :: u :: rest => (u.toNat - t.toNat) :: intervals (u :: rest)
  | _ => []

/-- The longest distance between successive times, zero if there is none. -/
def longest (ts : List UInt64) : Nat := (intervals ts).foldr max 0

/-- The observations of some times: zero for the first, then every scaled distance. -/
def observations (ts : List UInt64) : List Nat := 0 :: (intervals ts).map (scale * ·)

/-- Times of an item that is sampled in order: none is zero, each is after the one before, and the
distances and their number fit the words of the statistics. -/
structure InOrder (ts : List UInt64) : Prop where
  head_pos : ∀ t ∈ ts.head?, 0 < t
  rising : ts.Pairwise (· < ·)
  interval_lt : ∀ d ∈ intervals ts, d < 2 ^ 53
  length_le : ts.length ≤ 2 ^ 32 - 1

instance (ts : List UInt64) : Decidable (InOrder ts) :=
  -- the words are finitely many, but trying each of them is no way to decide about the first time
  letI : Decidable (∀ t ∈ ts.head?, 0 < t) := Option.decidableForallMem ts.head?
  decidable_of_iff ((∀ t ∈ ts.head?, 0 < t) ∧ ts.Pairwise (· < ·) ∧
      (∀ d ∈ intervals ts, d < 2 ^ 53) ∧ ts.length ≤ 2 ^ 32 - 1)
    ⟨fun ⟨h1, h2, h3, h4⟩ => ⟨h1, h2, h3, h4⟩, fun h => ⟨h.1, h.2, h.3, h.4⟩⟩

/-! ## Distances -/

/-- A later time adds one distance, the one from the last time before it. -/
theorem intervals_append_singleton {ts : List UInt64} {last : UInt64}
    (h : ts.getLast? = some last) (now : UInt64) :
    intervals (ts ++ [now]) = intervals ts ++ [now.toNat - last.toNat] := by
  induction ts with
  | nil => simp at h
  | cons t rest ih =>
      cases rest with
      | nil =>
          rw [List.getLast?_singleton] at h
          cases h
          rfl
      | cons u rest =>
          rw [List.getLast?_cons_cons] at h
          simpa [intervals] using ih h

theorem observations_append_singleton {ts : List UInt64} {last : UInt64}
    (h : ts.getLast? = some last) (now : UInt64) :
    observations (ts ++ [now]) = observations ts ++ [scale * (now.toNat - last.toNat)] := by
  rw [observations, intervals_append_singleton h, List.map_append]
  rfl

theorem intervals_isPrefix_append (ts us : List UInt64) :
    intervals ts <+: intervals (ts ++ us) := by
  induction ts with
  | nil => exact List.nil_prefix
  | cons t rest ih =>
      cases rest with
      | nil => exact List.nil_prefix
      | cons u rest => simpa [intervals] using ih

theorem length_intervals_cons (t : UInt64) (ts : List UInt64) :
    (intervals (t :: ts)).length = ts.length := by
  induction ts generalizing t with
  | nil => rfl
  | cons u rest ih => rw [intervals, List.length_cons, List.length_cons, ih]

theorem length_observations {ts : List UInt64} {last : UInt64} (h : ts.getLast? = some last) :
    (observations ts).length = ts.length := by
  cases ts with
  | nil => simp at h
  | cons t rest =>
      rw [observations, List.length_cons, List.length_map, length_intervals_cons, List.length_cons]

theorem le_longest {ts : List UInt64} {d : Nat} (h : d ∈ intervals ts) : d ≤ longest ts :=
  List.le_max_of_le h (Nat.le_refl d)

theorem longest_le_append (ts us : List UInt64) : longest ts ≤ longest (ts ++ us) :=
  List.max_le_of_forall_le _ _ fun _ hd =>
    le_longest ((intervals_isPrefix_append ts us).subset hd)

/-- The longest distance is below every positive bound of the distances. -/
theorem longest_lt {ts : List UInt64} {b : Nat} (hb : 0 < b) (h : ∀ d ∈ intervals ts, d < b) :
    longest ts < b := by
  have hle : longest ts ≤ b - 1 :=
    List.max_le_of_forall_le _ _ fun d hd => Nat.le_sub_one_of_lt (h d hd)
  omega

/-- No observation is above the scaled longest distance. -/
theorem le_scale_longest {ts : List UInt64} {x : Nat} (h : x ∈ observations ts) :
    x ≤ scale * longest ts := by
  rw [observations, List.mem_cons, List.mem_map] at h
  rcases h with rfl | ⟨d, hd, rfl⟩
  · exact Nat.zero_le _
  · exact Nat.mul_le_mul_left _ (le_longest hd)

/-- The distances of rising times add up to the distance between the first and the last. -/
theorem sum_intervals {t : UInt64} {ts : List UInt64} (h : (t :: ts).Pairwise (· < ·)) :
    t.toNat + (intervals (t :: ts)).sum = ((t :: ts).getLast (by simp)).toNat := by
  induction ts generalizing t with
  | nil => rfl
  | cons u rest ih =>
      have hlt : t.toNat < u.toNat :=
        UInt64.lt_iff_toNat_lt.1 (List.rel_of_pairwise_cons h (by simp))
      have hrest := ih h.tail
      rw [List.getLast_cons (by simp), intervals, List.sum_cons]
      omega

theorem sum_observations (ts : List UInt64) :
    (observations ts).sum = scale * (intervals ts).sum := by
  rw [observations, List.sum_cons, Nat.zero_add, List.sum_map_mul_left, List.map_id']

/-! ## Times in order -/

namespace InOrder

theorem of_append {ts us : List UInt64} (h : InOrder (ts ++ us)) : InOrder ts where
  head_pos := by
    intro t ht
    refine h.head_pos t ?_
    cases ts with
    | nil => simp at ht
    | cons u rest => exact ht
  rising := (List.pairwise_append.1 h.rising).1
  interval_lt := fun d hd => h.interval_lt d ((intervals_isPrefix_append ts us).subset hd)
  length_le := by
    have hlen := h.length_le
    rw [List.length_append] at hlen
    omega

theorem scale_longest_lt {ts : List UInt64} (h : InOrder ts) : scale * longest ts < 2 ^ 63 := by
  have hlt := longest_lt (by decide) h.interval_lt
  rw [scale]
  omega

theorem getLast_lt {ts : List UInt64} {last now : UInt64} (h : InOrder (ts ++ [now]))
    (hlast : ts.getLast? = some last) : last < now := by
  have hmem : last ∈ ts := List.mem_of_getLast? hlast
  exact (List.pairwise_append.1 h.rising).2.2 last hmem now (by simp)

theorem getLast_pos {ts : List UInt64} {last : UInt64} (h : InOrder ts)
    (hlast : ts.getLast? = some last) : 0 < last := by
  cases ts with
  | nil => simp at hlast
  | cons t rest =>
      have ht : 0 < t := h.head_pos t (by simp)
      rcases List.mem_cons.1 (List.mem_of_getLast? hlast) with rfl | hmem
      · exact ht
      · exact UInt64.lt_trans ht (List.rel_of_pairwise_cons h.rising hmem)

end InOrder

/-! ## The latest time -/

/-- The latest of some times, zero if there is none. -/
def latest (ts : List UInt64) : Nat := (ts.map UInt64.toNat).foldr max 0

theorem latest_append_singleton (ts : List UInt64) (t : UInt64) :
    latest (ts ++ [t]) = max (latest ts) t.toNat := by
  induction ts with
  | nil => exact Nat.max_comm ..
  | cons u rest ih =>
      show max u.toNat (latest (rest ++ [t])) = max (max u.toNat (latest rest)) t.toNat
      rw [ih, Nat.max_assoc]

/-- The order of the times does not matter. -/
theorem latest_perm {ts us : List UInt64} (h : ts.Perm us) : latest ts = latest us :=
  (h.map _).foldr_eq 0

/-- Whatever the order of its samples, an item remembers the latest of their times. -/
theorem lastTime_observeAll (ts : List UInt64) :
    (({} : IntervalStats).observeAll ts).lastTime.toNat = latest ts := by
  induction ts using List.reverseRecOn with
  | nil => rfl
  | append_singleton ts t ih =>
      rw [observeAll_append, latest_append_singleton, ← ih]
      exact lastTime_observe ..

end IntervalStats

end AccessSampling
