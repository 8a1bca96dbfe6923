import AccessSampling.ItemTable
import AccessSampling.Proofs.RunningMean
import Mathlib.Data.List.TakeWhile

/-!
# Times out of order

Sample times reach an item in any order. Only those that are later than every time before them
count: the others are dropped and leave no trace. So the statistics are those of the leading times
alone, which rise. A time of zero is that of an item that was never sampled, hence zeros at the
front are forgotten as well, and the first time after them starts the statistics.
-/

namespace AccessSampling

/-- The interval that was folded into the statistics, if there was one. -/
def Observation.interval? : Observation → Option UInt64
  | accepted interval => some interval
  | coldStart | outOfOrder => none

namespace IntervalStats

/-! ## Leading times -/

/-- Those of some times that are later than every time before them, among the times `before` and
their own predecessors. -/
def leadersAfter (before : List UInt64) : List UInt64 → List UInt64
  | [] => []
  | t :: ts =>
    if before.all (· < t) then t :: leadersAfter (before ++ [t]) ts
    else leadersAfter (before ++ [t]) ts

/-- The strict running maxima of some times. -/
def leaders (ts : List UInt64) : List UInt64 := leadersAfter [] ts

theorem leadersAfter_append_singleton (before ts : List UInt64) (now : UInt64) :
    leadersAfter before (ts ++ [now]) =
      leadersAfter before ts ++ if (before ++ ts).all (· < now) then [now] else [] := by
  induction ts generalizing before with
  | nil =>
      rw [List.append_nil]
      simp only [List.nil_append, leadersAfter]
  | cons t ts ih =>
      have happend : before ++ t :: ts = before ++ [t] ++ ts := by simp
      rw [List.cons_append, leadersAfter, leadersAfter, ih, happend]
      split
      · rw [List.cons_append]
      · rfl

/-- A further time leads if it is later than all times before it. -/
theorem leaders_append_singleton (ts : List UInt64) (now : UInt64) :
    leaders (ts ++ [now]) = leaders ts ++ if ts.all (· < now) then [now] else [] :=
  leadersAfter_append_singleton [] ts now

theorem leaders_of_leads {ts : List UInt64} {now : UInt64} (h : ∀ u ∈ ts, u < now) :
    leaders (ts ++ [now]) = leaders ts ++ [now] := by
  rw [leaders_append_singleton, if_pos (List.all_eq_true.2 fun u hu => decide_eq_true (h u hu))]

theorem leaders_of_trails {ts : List UInt64} {now : UInt64} (h : ¬ ∀ u ∈ ts, u < now) :
    leaders (ts ++ [now]) = leaders ts := by
  rw [leaders_append_singleton, if_neg, List.append_nil]
  exact fun hall => h fun u hu => of_decide_eq_true (List.all_eq_true.1 hall u hu)

/-! ## The latest time -/

theorem latest_cons (t : UInt64) (ts : List UInt64) :
    latest (t :: ts) = max t.toNat (latest ts) := rfl

theorem latest_eq_zero_iff {ts : List UInt64} : latest ts = 0 ↔ ∀ u ∈ ts, u = 0 := by
  induction ts with
  | nil => simp [latest]
  | cons t ts ih =>
      rw [latest_cons, Nat.max_eq_zero_iff, ih, List.forall_mem_cons, ← UInt64.toNat_inj]
      rfl

theorem latest_lt_iff {ts : List UInt64} (hts : ts ≠ []) {now : UInt64} :
    latest ts < now.toNat ↔ ∀ u ∈ ts, u < now := by
  induction ts with
  | nil => exact absurd rfl hts
  | cons t ts ih =>
      rw [latest_cons, Nat.max_lt, List.forall_mem_cons, UInt64.lt_iff_toNat_lt]
      cases ts with
      | nil =>
          refine and_congr_right fun ht => iff_of_true ?_ nofun
          exact Nat.lt_of_le_of_lt (Nat.zero_le _) ht
      | cons u us => rw [ih (List.cons_ne_nil _ _)]

/-! ## One more time -/

/-- The statistics of a new item after some times. -/
abbrev ofTimes (ts : List UInt64) : IntervalStats := ({} : IntervalStats).observeAll ts

theorem lastTime_ofTimes_eq_zero_iff {ts : List UInt64} :
    (ofTimes ts).lastTime = 0 ↔ ∀ u ∈ ts, u = 0 := by
  rw [← latest_eq_zero_iff, ← lastTime_observeAll, ← UInt64.toNat_inj]
  rfl

theorem lastTime_ofTimes_lt_iff {ts : List UInt64} (hts : ts ≠ []) {now : UInt64} :
    (ofTimes ts).lastTime < now ↔ ∀ u ∈ ts, u < now := by
  rw [← latest_lt_iff hts, ← lastTime_observeAll, UInt64.lt_iff_toNat_lt]

/-- After zeros alone every time starts the statistics. -/
theorem observe_of_zeros {ts : List UInt64} (h : ∀ u ∈ ts, u = 0) (now : UInt64) :
    (ofTimes ts).observe now = (.coldStart, { lastTime := now, count := 1 }) := by
  rw [observe, if_pos (lastTime_ofTimes_eq_zero_iff.2 h)]

/-- A leading time is accepted. -/
theorem observe_of_leads {ts : List UInt64} (h0 : ¬ ∀ u ∈ ts, u = 0) {now : UInt64}
    (h : ∀ u ∈ ts, u < now) :
    (ofTimes ts).lastTime < now ∧
      (ofTimes ts).observe now = (.accepted (now - (ofTimes ts).lastTime),
        (ofTimes ts).extend now (now - (ofTimes ts).lastTime)) := by
  have hts : ts ≠ [] := fun hnil => h0 (by simp [hnil])
  have hlt := (lastTime_ofTimes_lt_iff hts).2 h
  have hpos : 0 < (ofTimes ts).lastTime :=
    UInt64.pos_iff_ne_zero.2 fun hzero => h0 (lastTime_ofTimes_eq_zero_iff.1 hzero)
  exact ⟨hlt, observe_of_lt hpos hlt⟩

/-- Any other time is dropped and changes no field. -/
theorem observe_of_trails {ts : List UInt64} (h0 : ¬ ∀ u ∈ ts, u = 0) {now : UInt64}
    (h : ¬ ∀ u ∈ ts, u < now) : (ofTimes ts).observe now = (.outOfOrder, ofTimes ts) := by
  have hts : ts ≠ [] := fun hnil => h0 (by simp [hnil])
  exact observe_of_le (fun hzero => h0 (lastTime_ofTimes_eq_zero_iff.1 hzero))
    (UInt64.not_lt.1 fun hlt => h ((lastTime_ofTimes_lt_iff hts).1 hlt))

/-! ## All times -/

/-- What became of each of some times. -/
def answers (s : IntervalStats) : List UInt64 → List Observation
  | [] => []
  | t :: ts => (s.observe t).1 :: answers (s.observe t).2 ts

theorem answers_append (s : IntervalStats) (ts us : List UInt64) :
    s.answers (ts ++ us) = s.answers ts ++ (s.observeAll ts).answers us := by
  induction ts generalizing s with
  | nil => rfl
  | cons t ts ih => rw [List.cons_append, answers, ih, answers, List.cons_append, observeAll_cons]

theorem length_answers (s : IntervalStats) (ts : List UInt64) :
    (s.answers ts).length = ts.length := by
  induction ts generalizing s with
  | nil => rfl
  | cons t ts ih => rw [answers, List.length_cons, ih, List.length_cons]

/-- The intervals that were folded into the statistics, added up. -/
def elapsed (seen : List Observation) : Nat :=
  ((seen.filterMap Observation.interval?).map UInt64.toNat).sum

theorem elapsed_append (seen seen' : List Observation) :
    elapsed (seen ++ seen') = elapsed seen + elapsed seen' := by
  simp [elapsed]

/-- What the statistics of a new item and their answers say about times that start with `first`. -/
structure Follows (first : UInt64) (ts : List UInt64) : Prop where
  /-- The last leading time is the last accepted one. -/
  getLast? : (leaders ts).getLast? = some (ofTimes ts).lastTime
  eq_leaders : ofTimes ts = ofTimes (leaders ts)
  count : (ofTimes ts).count.toNat = min (leaders ts).length 0xffffffff
  elapsed : first.toNat + elapsed (({} : IntervalStats).answers ts) = (ofTimes ts).lastTime.toNat

theorem follows_singleton (first : UInt64) : Follows first [first] where
  getLast? := rfl
  eq_leaders := rfl
  count := rfl
  elapsed := rfl

/-- A leading time goes the same way after the leading times alone, any other one leaves both
sides as they are. -/
theorem Follows.append_singleton {first : UInt64} {ts : List UInt64} (h : Follows first ts)
    (h0 : ¬ ∀ u ∈ ts, u = 0) (now : UInt64) : Follows first (ts ++ [now]) := by
  have hnext : ofTimes (ts ++ [now]) = ((ofTimes ts).observe now).2 := observeAll_append _ ts [now]
  have hanswers : ({} : IntervalStats).answers (ts ++ [now]) =
      ({} : IntervalStats).answers ts ++ [((ofTimes ts).observe now).1] := answers_append _ ts [now]
  by_cases hlead : ∀ u ∈ ts, u < now
  · obtain ⟨hlt, hobserve⟩ := observe_of_leads h0 hlead
    have hleaders := leaders_of_leads hlead
    constructor
    · rw [hleaders, hnext, hobserve, List.getLast?_concat]
      rfl
    · rw [hleaders, hnext, h.eq_leaders]
      exact (observeAll_append _ (leaders ts) [now]).symm
    · have hcount := h.count
      rw [hleaders, hnext, hobserve, List.length_append, List.length_singleton]
      show (saturatingSucc (ofTimes ts).count).toNat = _
      rw [toNat_saturatingSucc]
      omega
    · have helapsed := h.elapsed
      have hinterval : (now - (ofTimes ts).lastTime).toNat =
          now.toNat - (ofTimes ts).lastTime.toNat :=
        UInt64.toNat_sub_of_le _ _ (UInt64.le_of_lt hlt)
      rw [UInt64.lt_iff_toNat_lt] at hlt
      rw [hanswers, hnext, hobserve, elapsed_append]
      show first.toNat + (_ + ((now - (ofTimes ts).lastTime).toNat + 0)) = now.toNat
      omega
  · have hobserve := observe_of_trails h0 hlead
    have hleaders := leaders_of_trails hlead
    have hsame : ofTimes (ts ++ [now]) = ofTimes ts := by rw [hnext, hobserve]
    constructor
    · rw [hleaders, hsame, h.getLast?]
    · rw [hleaders, hsame, ← h.eq_leaders]
    · rw [hleaders, hsame, h.count]
    · rw [hanswers, hsame, hobserve, elapsed_append, ← h.elapsed]
      rfl

/-- The statistics follow the leading times of every list that starts with a time other than
zero. -/
theorem follows {first : UInt64} (h : first ≠ 0) (rest : List UInt64) :
    Follows first (first :: rest) := by
  induction rest using List.reverseRecOn with
  | nil => exact follows_singleton first
  | append_singleton rest now ih =>
      rw [← List.cons_append]
      exact ih.append_singleton (fun hzeros => h (hzeros first List.mem_cons_self)) now

/-! ## Zeros at the front -/

/-- After zeros a further time, and all that follow it, meet statistics as good as new. -/
theorem ofTimes_zeros_append {zeros : List UInt64} (h : ∀ u ∈ zeros, u = 0) (first : UInt64)
    (rest : List UInt64) : ofTimes (zeros ++ first :: rest) = ofTimes (first :: rest) := by
  rw [ofTimes, observeAll_append, observeAll_cons, observe_of_zeros h]
  rfl

theorem coldStart_of_zeros {zeros : List UInt64} (h : ∀ u ∈ zeros, u = 0) :
    ∀ a ∈ ({} : IntervalStats).answers zeros, a = .coldStart := by
  induction zeros using List.reverseRecOn with
  | nil => nofun
  | append_singleton zeros z ih =>
      have hbefore : ∀ u ∈ zeros, u = 0 := fun u hu => h u (List.mem_append_left _ hu)
      intro a ha
      rw [answers_append, answers, observe_of_zeros hbefore, List.mem_append] at ha
      rcases ha with ha | ha
      · exact ih hbefore a ha
      · exact List.mem_singleton.1 ha

theorem elapsed_zeros_append {zeros : List UInt64} (h : ∀ u ∈ zeros, u = 0) (first : UInt64)
    (rest : List UInt64) :
    elapsed (({} : IntervalStats).answers (zeros ++ first :: rest)) =
      elapsed (({} : IntervalStats).answers (first :: rest)) := by
  have hzeros : (({} : IntervalStats).answers zeros).filterMap Observation.interval? = [] := by
    rw [List.filterMap_eq_nil_iff]
    intro a ha
    rw [coldStart_of_zeros h a ha]
    rfl
  rw [answers_append, elapsed_append, elapsed, hzeros, List.map_nil, List.sum_nil, Nat.zero_add,
    answers, observe_of_zeros h]
  rfl

/-- Times that are not all zero are some zeros, a time other than zero, and the rest. -/
theorem exists_first {ts : List UInt64} (h : ¬ ∀ u ∈ ts, u = 0) :
    ∃ zeros first rest, ts = zeros ++ first :: rest ∧ (∀ u ∈ zeros, u = 0) ∧ first ≠ 0 ∧
      ts.dropWhile (· = 0) = first :: rest := by
  cases hdrop : ts.dropWhile (· = 0) with
  | nil => exact absurd (by simpa using List.dropWhile_eq_nil_iff.1 hdrop) h
  | cons first rest =>
      refine ⟨ts.takeWhile (· = 0), first, rest, ?_, fun u hu => ?_, ?_, rfl⟩
      · rw [← hdrop, List.takeWhile_append_dropWhile]
      · simpa using List.mem_takeWhile_imp hu
      · have hhead := List.head_dropWhile_not (p := (· = 0)) (l := ts) (by rw [hdrop]; simp)
        simpa [hdrop] using hhead

/-- The statistics of any times are those of the times that lead after the zeros at the front. -/
theorem ofTimes_eq_ofTimes_leaders {ts : List UInt64} {first : UInt64}
    (h : first ∈ (ts.dropWhile (· = 0)).head?) :
    ofTimes ts = ofTimes (leaders (ts.dropWhile (· = 0))) ∧
      (ofTimes ts).count.toNat = min (leaders (ts.dropWhile (· = 0))).length 0xffffffff ∧
      elapsed (({} : IntervalStats).answers ts) = latest ts - first.toNat := by
  have hsome : ¬ ∀ u ∈ ts, u = 0 := by
    intro hzeros
    rw [List.dropWhile_eq_nil_iff.2 (by simpa using hzeros)] at h
    cases h
  obtain ⟨zeros, first', rest, hts, hzeros, hne, hdrop⟩ := exists_first hsome
  rw [hdrop, List.head?_cons, Option.mem_some_iff] at h
  subst h
  have hfollows := follows hne rest
  have helapsed := hfollows.elapsed
  have hlatest : (ofTimes ts).lastTime.toNat = latest ts := lastTime_observeAll ts
  rw [hdrop, hts, ofTimes_zeros_append hzeros, elapsed_zeros_append hzeros]
  rw [hts, ofTimes_zeros_append hzeros] at hlatest
  exact ⟨hfollows.eq_leaders, hfollows.count, by omega⟩

/-- What becomes of one more time, as the times before it say. -/
theorem observe_cases (before : List UInt64) (now : UInt64) :
    ((∀ u ∈ before, u = 0) → ((ofTimes before).observe now).1 = .coldStart) ∧
      ((¬ ∀ u ∈ before, u = 0) → (∀ u ∈ before, u < now) →
        ∃ prev, (leaders (before.dropWhile (· = 0))).getLast? = some prev ∧ prev < now ∧
          ((ofTimes before).observe now).1 = .accepted (now - prev)) ∧
      ((¬ ∀ u ∈ before, u = 0) → (¬ ∀ u ∈ before, u < now) →
        (ofTimes before).observe now = (.outOfOrder, ofTimes before)) := by
  refine ⟨fun hzeros => by rw [observe_of_zeros hzeros], fun h0 hlead => ?_,
    fun h0 htrail => observe_of_trails h0 htrail⟩
  obtain ⟨hlt, hobserve⟩ := observe_of_leads h0 hlead
  obtain ⟨zeros, first, rest, hbefore, hzeros, hne, hdrop⟩ := exists_first h0
  refine ⟨(ofTimes before).lastTime, ?_, hlt, by rw [hobserve]⟩
  rw [hdrop, (follows hne rest).getLast?, hbefore, ofTimes_zeros_append hzeros]

end IntervalStats

/-! ## Items -/

namespace ItemTable

open IntervalStats (leaders latest elapsed)

variable {ι : Type} [DecidableEq ι]

/-- Feeds some sample times of one item: what became of each of them, and the table after them. -/
def observeAll (t : ItemTable ι) (i : ι) : List UInt64 → List Observation × ItemTable ι
  | [] => ([], t)
  | now :: rest =>
    let (seen, t) := t.observe i now
    let (more, t) := observeAll t i rest
    (seen :: more, t)

theorem fst_observeAll (t : ItemTable ι) (i : ι) (ts : List UInt64) :
    (t.observeAll i ts).1 = (t.get i).answers ts := by
  induction ts generalizing t with
  | nil => rfl
  | cons now rest ih =>
      have hnext : (t.observe i now).2.get i = ((t.get i).observe now).2 := by
        rw [get_observe, if_pos rfl]
      rw [IntervalStats.answers, ← hnext, ← ih]
      rfl

theorem get_observeAll (t : ItemTable ι) (i j : ι) (ts : List UInt64) :
    (t.observeAll i ts).2.get j = if j = i then (t.get i).observeAll ts else t.get j := by
  induction ts generalizing t with
  | nil =>
      split
      · rename_i h
        rw [h]
        rfl
      · rfl
  | cons now rest ih =>
      refine (ih (t.observe i now).2).trans ?_
      rw [get_observe, if_pos rfl, get_observe, IntervalStats.observeAll_cons]
      split
      · rfl
      · rfl

/-- A new item is fed some sample times in any order. If all are zero, each of them is a cold start.
Otherwise the item ends as if it had been fed only those times that are later than all before them,
from the first time other than zero on: its last time is the latest of all, its count is the number
of these times as far as the word goes, and the accepted intervals lead from the first of them to
the last. A time is a cold start if there are only zeros before it; a later one is accepted with its
distance from the leading time before it if it leads itself, and otherwise it is dropped and changes
no field. No other item is touched. -/
theorem observeAll_disordered {t : ItemTable ι} {i : ι} (hnew : t.get i = {})
    (times : List UInt64) :
    let ts := times.dropWhile (· = 0)
    let seen := (t.observeAll i times).1
    let s := fun fed => (t.observeAll i fed).2.get i
    (ts = [] → ∀ a ∈ seen, a = .coldStart) ∧
      (∀ first ∈ ts.head?,
        s times = s (leaders ts) ∧ (s times).lastTime.toNat = latest times ∧
          (s times).count.toNat = min (leaders ts).length 0xffffffff ∧
          elapsed seen = latest times - first.toNat) ∧
      seen.length = times.length ∧
      (∀ before now after, times = before ++ now :: after →
        ∃ a, seen[before.length]? = some a ∧
          ((∀ u ∈ before, u = 0) → a = .coldStart) ∧
          ((¬ ∀ u ∈ before, u = 0) → (∀ u ∈ before, u < now) →
            ∃ prev, (leaders (before.dropWhile (· = 0))).getLast? = some prev ∧ prev < now ∧
              a = .accepted (now - prev)) ∧
          ((¬ ∀ u ∈ before, u = 0) → (¬ ∀ u ∈ before, u < now) →
            a = .outOfOrder ∧ s (before ++ [now]) = s before)) ∧
      ∀ j, j ≠ i → (t.observeAll i times).2.get j = t.get j := by
  intro ts seen s
  have hs : ∀ fed, s fed = IntervalStats.ofTimes fed := fun fed =>
    (t.get_observeAll i i fed).trans (by rw [if_pos rfl, hnew])
  have hseen : seen = ({} : IntervalStats).answers times :=
    (t.fst_observeAll i times).trans (by rw [hnew])
  refine ⟨fun hnil => ?_, fun first hfirst => ?_, ?_, ?_, fun j hj => ?_⟩
  · rw [hseen]
    exact IntervalStats.coldStart_of_zeros (by simpa using List.dropWhile_eq_nil_iff.1 hnil)
  · obtain ⟨hleaders, hcount, helapsed⟩ := IntervalStats.ofTimes_eq_ofTimes_leaders hfirst
    rw [hs, hs, hseen]
    exact ⟨hleaders, IntervalStats.lastTime_observeAll times, hcount, helapsed⟩
  · rw [hseen, IntervalStats.length_answers]
  · rintro before now after htimes
    refine ⟨((IntervalStats.ofTimes before).observe now).1, ?_, ?_⟩
    · rw [hseen, htimes, IntervalStats.answers_append,
        List.getElem?_append_right (by rw [IntervalStats.length_answers]),
        IntervalStats.length_answers, Nat.sub_self]
      rfl
    · obtain ⟨hcold, haccepted, hdropped⟩ := IntervalStats.observe_cases before now
      refine ⟨hcold, haccepted, fun h0 htrail => ?_⟩
      have hnext : s (before ++ [now]) = ((IntervalStats.ofTimes before).observe now).2 := by
        rw [hs, IntervalStats.ofTimes, IntervalStats.observeAll_append]
        rfl
      rw [hnext, hs, hdropped h0 htrail]
      exact ⟨rfl, rfl⟩
  · rw [get_observeAll, if_neg hj]

/-- Zeros, a first time, and late times among those that lead. -/
theorem observeAll_late_times :
    let t : ItemTable UInt64 := .empty
    let times : List UInt64 := [0, 0, 5, 3, 9, 9, 0, 12]
    let seen := (t.observeAll 7 times).1
    let s := fun fed => (t.observeAll 7 fed).2.get 7
    t.get 7 = {} ∧
      (seen = [.coldStart, .coldStart, .coldStart, .outOfOrder, .accepted 4, .outOfOrder,
        .outOfOrder, .accepted 3]) ∧
      (s times = s [5, 9, 12] ∧ (s times).lastTime.toNat = 12 ∧ (s times).count.toNat = 3 ∧
        elapsed seen = 12 - 5) ∧
      (∃ prev, (leaders [5, 3, 9, 9, 0]).getLast? = some prev ∧ prev < 12 ∧
        seen[7]? = some (.accepted (12 - prev))) ∧
      s [0, 0, 5, 3] = s [0, 0, 5] ∧
      (t.observeAll 7 times).2.get 8 = t.get 8 := by
  intro t times seen s
  have hnew : t.get 7 = {} := rfl
  obtain ⟨-, hfirst, -, hsplit, hother⟩ := observeAll_disordered hnew times
  obtain ⟨a, ha, -, haccepted, -⟩ := hsplit [0, 0, 5, 3, 9, 9, 0] 12 [] rfl
  obtain ⟨prev, hprev, hlt, rfl⟩ := haccepted (by simp) (by simp)
  obtain ⟨b, -, -, -, hdropped⟩ := hsplit [0, 0, 5] 3 [9, 9, 0, 12] rfl
  obtain ⟨-, hsame⟩ := hdropped (by simp) (by simp)
  exact ⟨hnew, by decide, hfirst 5 rfl, ⟨prev, hprev, hlt, ha⟩, hsame, hother 8 (by decide)⟩

end ItemTable

end AccessSampling
