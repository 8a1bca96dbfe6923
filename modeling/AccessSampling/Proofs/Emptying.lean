import AccessSampling.Proofs.WaitingBytes

/-!
# Passes until nothing is left

The worker repeats passes until one consumes nothing. Every pass before that one shortens a queue,
so there are no more of them than there are queued records. A visit of a ring that holds a record
takes one, so every pass shortens the longest queue, and the one that consumes nothing has found all
queues empty.
-/

namespace AccessSampling

namespace Drain

/-! ## What a pass takes -/

theorem map_fst_visits (o : DrainOptions) (rs : List Ring) (s : RingStore) :
    (visits o rs s).map Prod.fst = rs := by
  induction rs generalizing s with
  | nil => rfl
  | cons r rs ih => rw [visits, List.map_cons, ih]

/-- A pass takes records from its own rings only, and each counts for the class of its ring. -/
theorem exists_ring_of_took {o : DrainOptions} {rs : List Ring} {s : RingStore} {id : RingId}
    {c : EventClass} {r : Record} (h : .took id c r ∈ passEvents o rs s) :
    ∃ ring ∈ rs, ring.id = id ∧ ring.cls = c := by
  rw [passEvents, List.mem_flatMap] at h
  obtain ⟨v, hv, hmem⟩ := h
  have hring : v.1 ∈ rs := by
    rw [← map_fst_visits o rs s]
    exact List.mem_map_of_mem hv
  rw [Ring.events, List.mem_append] at hmem
  rcases hmem with htaken | hempty
  · obtain ⟨r', -, heq⟩ := List.mem_map.1 htaken
    cases heq
    exact ⟨v.1, hring, rfl, rfl⟩
  · split at hempty
    · simp at hempty
    · simp at hempty

/-- A pass takes a record from every exact ring that holds one. -/
theorem popped_ne_nil {o : DrainOptions} {rs : List Ring} {s : RingStore} {id : RingId}
    (hid : id ∈ rs.map Ring.id) (hexact : (s.get id).IsExact) (hq : (s.get id).queue ≠ []) :
    popped id (passEvents o rs s) ≠ [] := by
  induction rs generalizing s with
  | nil => cases hid
  | cons r rs ih =>
      rw [passEvents_cons, popped_append, Ring.popped_events]
      by_cases heq : r.id = id
      · rw [if_pos heq, heq]
        exact List.append_ne_nil_of_left_ne_nil (Visit.taken_ne_nil hexact hq) _
      · -- the ring is not the first one, and it waits for its turn with what it holds
        rw [List.map_cons, List.mem_cons] at hid
        have hsame : (s.set r.id (r.visit o (s.get r.id)).buffer).get id = s.get id :=
          s.get_set_of_ne (Ne.symm heq) _
        rw [if_neg heq, List.nil_append]
        exact ih (hid.resolve_left (Ne.symm heq)) (by rwa [hsame]) (by rwa [hsame])

theorem popped_eq_nil_of_countP {es : List Event} (h : es.countP Event.isTook = 0) (id : RingId) :
    popped id es = [] := by
  rw [popped, List.filterMap_eq_nil_iff]
  intro e he
  have hnot := List.countP_eq_zero.1 h e he
  cases e with
  | took => exact absurd rfl hnot
  | foundEmpty | reported => rfl

section Pass

variable {ρ ι : Type} [Resolver ρ ι] [DecidableEq ι] {o : DrainOptions} {d : Drain ρ ι}

theorem records_pass (o : DrainOptions) (d : Drain ρ ι) :
    (d.pass o).1.records = (d.eventsOf o .pass).countP Event.isTook := by
  have hpass : (d.pass o).1 = _ := pass_visitAll o d.rings d.store d.intake
  rw [hpass]
  rfl

/-- A pass changes the pressures of its rings and nothing else about them. -/
theorem map_rings_pass {α : Type} {f : Ring → α} (hf : ∀ r v, f (r.leave v) = f r)
    (o : DrainOptions) (d : Drain ρ ι) : (d.pass o).2.rings.map f = d.rings.map f := by
  have hrings : (d.pass o).2.rings = _ := rings_pass o d
  have hfst := map_fst_visits o d.rings d.store
  refine Eq.trans ?_ (congrArg (List.map f) hfst)
  rw [hrings, List.map_map, List.map_map]
  exact List.map_congr_left fun v _ => hf v.1 (v.1.visit o v.2)

theorem map_id_pass (o : DrainOptions) (d : Drain ρ ι) :
    (d.pass o).2.rings.map Ring.id = d.rings.map Ring.id :=
  map_rings_pass (fun _ _ => rfl) o d

omit [Resolver ρ ι] [DecidableEq ι] in
theorem queued_eq_sum (d : Drain ρ ι) :
    d.queued = ((d.rings.map Ring.id).map fun id => (d.buffer id).queue.length).sum := by
  rw [List.map_map]
  rfl

/-- A pass that consumes something shortens a queue and lengthens none. -/
theorem queued_pass_lt (h : (d.pass o).1.records ≠ 0) : (d.pass o).2.queued < d.queued := by
  have hle : ∀ id, (popped id (d.eventsOf o .pass)).length +
      ((d.pass o).2.buffer id).queue.length = (d.buffer id).queue.length := by
    intro id
    have hqueue := d.queue_apply o .pass id
    rw [Op.recordsFor, List.append_nil] at hqueue
    rw [← hqueue, List.length_append]
    rfl
  have htook : ∃ id ∈ d.rings.map Ring.id, popped id (d.eventsOf o .pass) ≠ [] := by
    rw [records_pass, ← Nat.pos_iff_ne_zero, List.countP_pos_iff] at h
    obtain ⟨e, he, htook⟩ := h
    cases e with
    | took id c r =>
        obtain ⟨ring, hring, hid, -⟩ := exists_ring_of_took he
        refine ⟨id, List.mem_map.2 ⟨ring, hring, hid⟩, List.ne_nil_of_mem (a := r) ?_⟩
        exact List.mem_filterMap.2 ⟨_, he, if_pos rfl⟩
    | foundEmpty | reported => cases htook
  rw [queued_eq_sum, queued_eq_sum, map_id_pass]
  refine List.sum_lt_sum _ _ (fun id _ => ?_) ?_
  · have := hle id
    omega
  · obtain ⟨id, hid, hne⟩ := htook
    have hpos := List.length_pos_iff.2 hne
    have := hle id
    exact ⟨id, hid, by omega⟩

/-- A pass that consumes nothing has found the queues of all exact rings empty. -/
theorem queue_eq_nil_of_pass {id : RingId} (h : (d.pass o).1.records = 0)
    (hid : id ∈ d.rings.map Ring.id) (hexact : (d.buffer id).IsExact) :
    ((d.pass o).2.buffer id).queue = [] := by
  rw [records_pass] at h
  have hpopped := popped_eq_nil_of_countP h id
  have hqueue := d.queue_apply o .pass id
  rw [hpopped, Op.recordsFor, List.append_nil, List.nil_append] at hqueue
  refine hqueue.trans (Decidable.byContradiction fun hne => ?_)
  exact popped_ne_nil hid hexact hne hpopped

/-! ## The longest queue -/

/-- The number of records in the longest queue. -/
def longest (d : Drain ρ ι) : Nat :=
  (d.rings.map fun r => (d.buffer r.id).queue.length).foldr max 0

omit [Resolver ρ ι] [DecidableEq ι] in
theorem longest_le_iff {d : Drain ρ ι} {n : Nat} :
    d.longest ≤ n ↔ ∀ id ∈ d.rings.map Ring.id, (d.buffer id).queue.length ≤ n := by
  rw [longest, List.forall_mem_map]
  induction d.rings with
  | nil => simp
  | cons r rs ih => rw [List.map_cons, List.foldr_cons, Nat.max_le, ih, List.forall_mem_cons]

omit [Resolver ρ ι] [DecidableEq ι] in
theorem longest_le_queued (d : Drain ρ ι) : d.longest ≤ d.queued := by
  rw [longest_le_iff, queued_eq_sum]
  exact fun id hid => List.single_le_sum (fun _ _ => Nat.zero_le _) _ (List.mem_map_of_mem hid)

/-- A pass that consumes something has found a queue that is not empty. -/
theorem longest_pos_of_pass (h : (d.pass o).1.records ≠ 0) : 0 < d.longest := by
  refine Nat.pos_of_ne_zero fun hzero => ?_
  have hqueued : d.queued = 0 := by
    rw [queued_eq_sum, List.sum_eq_zero_iff, List.forall_mem_map]
    exact fun id hid => Nat.le_zero.1 (longest_le_iff.1 hzero.le id hid)
  exact Nat.not_lt_zero _ (hqueued ▸ queued_pass_lt h)

/-- A pass takes a record from every ring that has one, so the longest queue gets shorter. -/
theorem longest_pass_le (hexact : ∀ id ∈ d.rings.map Ring.id, (d.buffer id).IsExact) :
    (d.pass o).2.longest ≤ d.longest - 1 := by
  rw [longest_le_iff, map_id_pass]
  intro id hid
  have hle := longest_le_iff.1 (Nat.le_refl d.longest) id hid
  have hqueue := congrArg List.length (d.queue_apply o .pass id)
  rw [Op.recordsFor, List.append_nil, List.length_append] at hqueue
  -- of an empty queue nothing is taken, and nothing need be
  have htook : (d.buffer id).queue ≠ [] → 0 < (popped id (d.eventsOf o .pass)).length :=
    fun hne => List.length_pos_iff.2 (popped_ne_nil hid (hexact id hid) hne)
  rw [← List.length_pos_iff] at htook
  show ((d.apply o .pass).buffer id).queue.length ≤ _
  omega

/-! ## Repeated passes -/

/-- Repeated passes are a run of passes. -/
theorem passes_eq_run (o : DrainOptions) (n : Nat) (d : Drain ρ ι) :
    ∃ k, passes o n d = (d.passResults o (.replicate k .pass), d.run o (.replicate k .pass)) := by
  induction n generalizing d with
  | zero => exact ⟨0, rfl⟩
  | succ n ih =>
      rw [passes]
      simp only
      split
      · exact ⟨1, rfl⟩
      · obtain ⟨k, hk⟩ := ih (d.pass o).2
        rw [hk]
        exact ⟨k + 1, rfl⟩

/-- With more passes allowed than the longest queue has records, the last one consumes nothing,
every other one consumes a record, there are at most as many others as the longest queue has
records, and in the end the queue of every exact ring is empty. -/
theorem passes_longest {n : Nat} (hn : d.longest < n)
    (hexact : ∀ id ∈ d.rings.map Ring.id, (d.buffer id).IsExact) :
    (∃ ps p, (passes o n d).1 = ps ++ [p] ∧ p.records = 0 ∧ (∀ q ∈ ps, q.records ≠ 0) ∧
      ps.length ≤ d.longest) ∧
      ∀ id ∈ d.rings.map Ring.id, ((passes o n d).2.buffer id).queue = [] := by
  induction n generalizing d with
  | zero => cases hn
  | succ n ih =>
      rw [passes]
      simp only
      split
      · rename_i hlast
        refine ⟨⟨[], (d.pass o).1, rfl, hlast, fun _ hq => (List.not_mem_nil hq).elim,
          Nat.zero_le _⟩, fun id hid => ?_⟩
        exact queue_eq_nil_of_pass hlast hid (hexact id hid)
      · rename_i hmore
        have hpos := longest_pos_of_pass hmore
        have hle := longest_pass_le (o := o) hexact
        have hlt : (d.pass o).2.longest < n := by omega
        obtain ⟨⟨ps, p, hps, hp, hall, hlen⟩, hempty⟩ := ih hlt fun id hid => by
          rw [map_id_pass] at hid
          exact isExact_pass o (hexact id hid)
        rw [map_id_pass] at hempty
        refine ⟨⟨(d.pass o).1 :: ps, p, ?_, hp, List.forall_mem_cons.2 ⟨hmore, hall⟩, ?_⟩, hempty⟩
        · rw [hps, List.cons_append]
        · rw [List.length_cons]
          omega

/-- With more passes allowed than there are queued records, the last one consumes nothing, every
other one consumes a record, and in the end the queue of every exact ring is empty. -/
theorem passes_empty {n : Nat} (hn : d.queued < n)
    (hexact : ∀ id ∈ d.rings.map Ring.id, (d.buffer id).IsExact) :
    (∃ ps p, (passes o n d).1 = ps ++ [p] ∧ p.records = 0 ∧ ∀ q ∈ ps, q.records ≠ 0) ∧
      ∀ id ∈ d.rings.map Ring.id, ((passes o n d).2.buffer id).queue = [] := by
  obtain ⟨⟨ps, p, hps, hp, hall, -⟩, hempty⟩ :=
    passes_longest (o := o) (Nat.lt_of_le_of_lt d.longest_le_queued hn) hexact
  exact ⟨⟨ps, p, hps, hp, hall⟩, hempty⟩

end Pass

end Drain

end AccessSampling
