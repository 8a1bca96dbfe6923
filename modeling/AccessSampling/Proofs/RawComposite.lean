import AccessSampling.Proofs.ControlSign

/-!
# The reported weighted sum

The composite is normalized from the exact weighted sum of the sub-scores, but the sum is reported
as a signed word of 32 bits. Each weight fits such a word, the sum of three need not. A sum that
fits is reported as it is, and then the larger of two sums goes with the larger composite. A sum
that does not fit wraps, and the report can then be negative while the composite is full.
-/

namespace AccessSampling

/-- Whether a weighted sum fits the word in which it is reported. -/
def FitsReport (raw : Int) : Prop := -2 ^ 31 ≤ raw ∧ raw < 2 ^ 31

/-- The report of a sum is the sum exactly if the sum fits. -/
theorem wrapSigned_eq_self_iff {raw : Int} : wrapSigned 32 raw = raw ↔ FitsReport raw := by
  constructor
  · intro h
    have hlow : -(2 ^ 31 : Int) ≤ wrapSigned 32 raw := Int.le_bmod (m := 1 <<< 32) (by decide)
    have hhigh : wrapSigned 32 raw < 2 ^ 31 := Int.bmod_lt (m := 1 <<< 32) (by decide)
    rw [h] at hlow hhigh
    exact ⟨hlow, hhigh⟩
  · rintro ⟨hlow, hhigh⟩
    exact wrapSigned_of_range (by omega) (by omega)

namespace Weights

variable {w : Weights}

/-- If the ends of the range of the weights fit, so does every sum in it. -/
theorem fitsReport_weigh (hlow : -2 ^ 31 ≤ w.lowest) (hhigh : w.highest < 2 ^ 31) {v h n : Nat}
    (hv : v ≤ fullScore) (hh : h ≤ fullScore) (hn : n ≤ fullScore) :
    FitsReport (w.weigh v h n) := by
  have hbetween := weigh_between (w := w) hv hh hn
  exact ⟨Int.le_trans hlow hbetween.1, Int.lt_of_le_of_lt hbetween.2 hhigh⟩

end Weights

namespace Metrics

/-- Of two reports that are exact the larger one goes with the larger composite. -/
theorem composite_le_of_raw_lt {w : Weights} {v h n v' h' n' : Nat}
    (hfits : FitsReport (w.weigh v h n)) (hfits' : FitsReport (w.weigh v' h' n'))
    (hlt : (ofSubscores w v h n).raw < (ofSubscores w v' h' n').raw) :
    (ofSubscores w v h n).composite ≤ (ofSubscores w v' h' n').composite := by
  have hraw : (ofSubscores w v h n).raw = w.weigh v h n := wrapSigned_eq_self_iff.2 hfits
  have hraw' : (ofSubscores w v' h' n').raw = w.weigh v' h' n' := wrapSigned_eq_self_iff.2 hfits'
  rw [hraw, hraw'] at hlt
  exact Weights.normalize_mono (Int.le_of_lt hlt)

end Metrics

/-- For every content of a heap and every number of samples the reported composite is the exact
weighted sum, divided by the full score and rounded towards zero, precisely if that number fits the
word of the report. Of two scorings whose sums fit, the one with the larger report never has the
smaller composite. All sums fit if the lowest and the highest composite of the weights do. -/
theorem raw_exact_iff_fits {ι : Type} (o : ScoreOptions) (heap heap' : HotHeap ι)
    (stats stats' : ι → IntervalStats) (samples samples' : Nat) :
    let w := o.weights
    let m := heap.metrics stats samples o
    let m' := heap'.metrics stats' samples' o
    let raw := (w.vibrate * m.vibrate + w.hotness * m.hotness + w.overhead * m.overhead).tdiv
      fullScore
    let raw' := (w.vibrate * m'.vibrate + w.hotness * m'.hotness + w.overhead * m'.overhead).tdiv
      fullScore
    (m.raw = raw ↔ FitsReport raw) ∧
      (FitsReport raw → FitsReport raw' → m.raw < m'.raw → m.composite ≤ m'.composite) ∧
      (-2 ^ 31 ≤ w.lowest → w.highest < 2 ^ 31 → FitsReport raw ∧ FitsReport raw') := by
  intro w m m' raw raw'
  refine ⟨wrapSigned_eq_self_iff, Metrics.composite_le_of_raw_lt, fun hlow hhigh => ⟨?_, ?_⟩⟩
  · exact Weights.fitsReport_weigh hlow hhigh (vibrateScore_le ..) (hotnessScore_le ..)
      (overheadScore_le ..)
  · exact Weights.fitsReport_weigh hlow hhigh (vibrateScore_le ..) (hotnessScore_le ..)
      (overheadScore_le ..)

/-- A heap of one item with a hundred hits, which are a full hotness score. -/
def hotHeap : HotHeap UInt64 := { capacity := 1, entries := #[⟨0, 100⟩] }

/-- The widest weights whose range fits, with the overhead that they count against the hits. -/
theorem raw_exact_of_widest :
    let o : ScoreOptions :=
      { weights := { vibrate := 0, hotness := 2147483647, overhead := -2147483648 } }
    let m := hotHeap.metrics (fun _ => {}) 10000 o
    let m' := hotHeap.metrics (fun _ => {}) 0 o
    (-2 ^ 31 ≤ o.weights.lowest ∧ o.weights.highest < 2 ^ 31 ∧ m.raw < m'.raw) ∧
      m.raw = -1 ∧ m'.raw = 2147483647 ∧ m.composite ≤ m'.composite := by
  intro o m m'
  have hlow : -2 ^ 31 ≤ o.weights.lowest := by decide
  have hhigh : o.weights.highest < 2 ^ 31 := by decide
  have hlt : m.raw < m'.raw := by decide
  obtain ⟨hexact, horder, hrange⟩ :=
    raw_exact_iff_fits o hotHeap hotHeap (fun _ => {}) (fun _ => {}) 10000 0
  obtain ⟨hfits, hfits'⟩ := hrange hlow hhigh
  exact ⟨⟨hlow, hhigh, hlt⟩, (hexact.2 hfits).trans (by decide), by decide,
    horder hfits hfits' hlt⟩

/-! ## A sum that wraps -/

/-- Valid options whose largest weighted sum does not fit the word of the report. -/
def heavyOptions : Options :=
  { score := { weights := { vibrate := 0, hotness := 2147483647, overhead := 2147483647 } } }

/-- Neither is the report always the exact sum, nor does the larger of two reports always go with a
composite that is no smaller. With a full overhead the heap has a negative report and a full
composite; without overhead it has a positive report and half the composite. -/
theorem not_every_raw_exact :
    (¬ ∀ (o : Options) (heap : HotHeap UInt64) (stats : UInt64 → IntervalStats) (samples : Nat),
      o.Valid →
        let w := o.score.weights
        let m := heap.metrics stats samples o.score
        m.raw = (w.vibrate * m.vibrate + w.hotness * m.hotness + w.overhead * m.overhead).tdiv
          fullScore) ∧
    (¬ ∀ (o : Options) (heap heap' : HotHeap UInt64) (stats stats' : UInt64 → IntervalStats)
        (samples samples' : Nat), o.Valid →
      let m := heap.metrics stats samples o.score
      let m' := heap'.metrics stats' samples' o.score
      m.raw < m'.raw → m.composite ≤ m'.composite) := by
  have hvalid : heavyOptions.Valid := by decide
  constructor
  · intro h
    have hexact := h heavyOptions hotHeap (fun _ => {}) 10000 hvalid
    exact absurd hexact (by decide)
  · intro h
    have hle := h heavyOptions hotHeap hotHeap (fun _ => {}) (fun _ => {}) 10000 0 hvalid
    exact absurd (hle (by decide)) (by decide)

end AccessSampling
