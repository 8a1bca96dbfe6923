import AccessSampling.Proofs.Emptying
import Mathlib.Data.List.Dedup

/-!
# What the rings gave up

In which order passes take records depends on the pressures of the rings. But each ring gives up its
own records in the order of its queue, so once all queues are empty, the records that were taken are
those that were queued, up to the order in which the rings took turns.
-/

namespace AccessSampling

/-! ## Records by ring and by class -/

/-- A record that a ring gave up, with the class for which it counts. -/
structure Take where
  id : RingId
  cls : EventClass
  record : Record
  deriving DecidableEq, Repr

/-- The record that a ring gave up in an event, if there is one. -/
def Event.take? : Event → Option Take
  | took id c r => some ⟨id, c, r⟩
  | _ => none

/-- The records that all rings gave up in the course of some events. -/
def takes (es : List Event) : List Take := es.filterMap Event.take?

namespace Take

/-- The records of one ring. -/
def recordsFrom (id : RingId) (ks : List Take) : List Record := (ks.filter (·.id = id)).map record

/-- The records that count for one class. -/
def recordsOf (c : EventClass) (ks : List Take) : List Record := (ks.filter (·.cls = c)).map record

theorem recordsFrom_takes (id : RingId) (es : List Event) :
    recordsFrom id (takes es) = popped id es := by
  induction es with
  | nil => rfl
  | cons e es ih =>
      cases e with
      | took id' c r =>
          have htakes : takes (.took id' c r :: es) = ⟨id', c, r⟩ :: takes es := rfl
          rw [recordsFrom] at ih ⊢
          rw [htakes, popped, List.filterMap_cons, Event.recordFrom?]
          by_cases h : id' = id
          · rw [if_pos h, List.filter_cons_of_pos (by simpa using h), List.map_cons, ih, popped]
          · rw [if_neg h, List.filter_cons_of_neg (by simpa using h), ih, popped]
      | foundEmpty | reported => exact ih

/-- If all records of a ring count for one class, the class need not be told with each of them. -/
theorem map_recordsFrom {id : RingId} {c : EventClass} {ks : List Take}
    (h : ∀ k ∈ ks, k.id = id → k.cls = c) :
    (recordsFrom id ks).map (Take.mk id c) = ks.filter (·.id = id) := by
  rw [recordsFrom, List.map_map]
  refine (List.map_congr_left fun k hk => ?_).trans (List.map_id _)
  obtain ⟨hmem, hid⟩ := List.mem_filter.1 hk
  have hid' : k.id = id := of_decide_eq_true hid
  show Take.mk id c k.record = k
  rw [← hid', ← h k hmem hid']

end Take

/-- Elements can be put together by the values of a key. -/
theorem regroup_perm {α κ : Type} [DecidableEq κ] (key : α → κ) {keys : List κ}
    (hnodup : keys.Nodup) {l : List α} (h : ∀ a ∈ l, key a ∈ keys) :
    (keys.flatMap fun k => l.filter (key · = k)).Perm l := by
  induction keys generalizing l with
  | nil =>
      cases l with
      | nil => rfl
      | cons a l => cases h a List.mem_cons_self
  | cons k keys ih =>
      obtain ⟨hk, hnodup⟩ := List.nodup_cons.1 hnodup
      -- the other keys do not look at the elements of the first one
      have hrest : (keys.flatMap fun k' => l.filter (key · = k')) =
          keys.flatMap fun k' => (l.filter fun a => !decide (key a = k)).filter (key · = k') := by
        refine List.flatMap_congr fun k' hk' => ?_
        rw [List.filter_filter]
        refine List.filter_congr fun a _ => ?_
        by_cases ha : key a = k'
        · have hne : key a ≠ k := fun heq => hk (heq ▸ ha ▸ hk')
          simp [ha, ha ▸ hne]
        · simp [ha]
      rw [List.flatMap_cons, hrest]
      refine (List.Perm.append_left _ (ih hnodup fun a ha => ?_)).trans
        (List.filter_append_perm _ l)
      obtain ⟨hmem, hne⟩ := List.mem_filter.1 ha
      exact (List.mem_cons.1 (h a hmem)).resolve_left (by simpa using hne)

/-! ## Emptied rings -/

namespace Drain

variable {ρ ι : Type}

/-- The rings of a worker, each once, with the class that its records count for. -/
def sources (d : Drain ρ ι) : List (RingId × EventClass) :=
  (d.rings.map fun r => (r.id, r.cls)).dedup

/-- The records that are queued in the rings of a worker, ring by ring. -/
def queuedTakes (d : Drain ρ ι) : List Take :=
  d.sources.flatMap fun s => (d.buffer s.1).queue.map (Take.mk s.1 s.2)

/-- A worker may know a ring twice, but never with two classes. -/
def OneClass (d : Drain ρ ι) : Prop :=
  ∀ r ∈ d.rings, ∀ r' ∈ d.rings, r.id = r'.id → r.cls = r'.cls

instance (d : Drain ρ ι) : Decidable d.OneClass :=
  inferInstanceAs (Decidable (∀ r ∈ d.rings, ∀ r' ∈ d.rings, r.id = r'.id → r.cls = r'.cls))

theorem mem_sources {d : Drain ρ ι} {s : RingId × EventClass} :
    s ∈ d.sources ↔ ∃ r ∈ d.rings, r.id = s.1 ∧ r.cls = s.2 := by
  rw [sources, List.mem_dedup, List.mem_map]
  simp only [Prod.ext_iff]

theorem OneClass.eq_of_mem {d : Drain ρ ι} (h : d.OneClass) {s s' : RingId × EventClass}
    (hs : s ∈ d.sources) (hs' : s' ∈ d.sources) (hid : s.1 = s'.1) : s.2 = s'.2 := by
  obtain ⟨r, hr, hid1, hcls1⟩ := mem_sources.1 hs
  obtain ⟨r', hr', hid2, hcls2⟩ := mem_sources.1 hs'
  rw [← hcls1, ← hcls2]
  exact h r hr r' hr' (by rw [hid1, hid2, hid])

variable [Resolver ρ ι] [DecidableEq ι] {o : DrainOptions} {d : Drain ρ ι} {n : Nat}

theorem sources_pass (o : DrainOptions) (d : Drain ρ ι) : (d.pass o).2.sources = d.sources := by
  rw [sources, map_rings_pass (fun _ _ => rfl), sources]

/-- Passes take records from the rings of the worker only. -/
theorem mem_sources_of_take {k : Take} (h : k ∈ takes (d.history o (.replicate n .pass))) :
    (k.id, k.cls) ∈ d.sources := by
  induction n generalizing d with
  | zero => cases h
  | succ n ih =>
      rw [List.replicate_succ, history, takes, List.filterMap_append, List.mem_append] at h
      rcases h with hnow | hlater
      · obtain ⟨e, he, hk⟩ := List.mem_filterMap.1 hnow
        cases e with
        | took id c r =>
            cases hk
            exact mem_sources.2 (exists_ring_of_took he)
        | foundEmpty | reported => cases hk
      · rw [← sources_pass o]
        exact ih hlater

/-- Passes that empty a ring take its whole queue, in order. -/
theorem recordsFrom_of_emptied {id : RingId}
    (hempty : ((d.run o (.replicate n .pass)).buffer id).queue = []) :
    Take.recordsFrom id (takes (d.history o (.replicate n .pass))) = (d.buffer id).queue := by
  have hpushed : pushed id (.replicate n .pass) = [] := by
    rw [pushed, List.flatMap_eq_nil_iff]
    intro op hop
    rw [List.eq_of_mem_replicate hop]
    rfl
  have hqueue := d.queue_append_pushed o (.replicate n .pass) id
  rw [hempty, hpushed, List.append_nil, List.append_nil] at hqueue
  rw [Take.recordsFrom_takes, hqueue]

/-- Passes that empty all rings take the queued records, in some order. -/
theorem takes_perm_of_emptied (hcls : d.OneClass)
    (hempty : ∀ id ∈ d.rings.map Ring.id,
      ((d.run o (.replicate n .pass)).buffer id).queue = []) :
    (takes (d.history o (.replicate n .pass))).Perm d.queuedTakes := by
  have hmem : ∀ k ∈ takes (d.history o (.replicate n .pass)), (k.id, k.cls) ∈ d.sources :=
    fun k hk => mem_sources_of_take hk
  refine (regroup_perm (fun k : Take => (k.id, k.cls)) (List.nodup_dedup _) hmem).symm.trans
    (List.Perm.of_eq ?_)
  refine List.flatMap_congr fun s hs => ?_
  obtain ⟨r, hr, hid, -⟩ := mem_sources.1 hs
  have hone : ∀ k ∈ takes (d.history o (.replicate n .pass)), k.id = s.1 → k.cls = s.2 :=
    fun k hk heq => hcls.eq_of_mem (hmem k hk) hs heq
  rw [← recordsFrom_of_emptied (hempty s.1 (List.mem_map.2 ⟨r, hr, hid⟩)),
    Take.map_recordsFrom hone]
  refine List.filter_congr fun k hk => ?_
  have hkey := hone k hk
  rw [decide_eq_decide, Prod.ext_iff]
  exact ⟨fun h => h.1, fun h => ⟨h, hkey h⟩⟩

end Drain

end AccessSampling
