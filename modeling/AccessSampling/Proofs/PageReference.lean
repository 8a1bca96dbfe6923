import AccessSampling.Proofs.AccessTimes
import AccessSampling.Proofs.PageVerdicts

/-!
# What draining pages comes to

In which order the worker drains its rings depends on sizes, watermarks and pressures. With a page
directory hardly anything of that can be seen in the end: the counters, the heaps that have room for
all pages, the last time of every page and the statistics of a page that only one ring samples are
told by the queues alone.
-/

namespace AccessSampling

namespace PageDirectory

variable {p : PageDirectory} {rs rs' : List Record} {page : UInt64}

theorem hits_perm (h : rs.Perm rs') : (p.hits rs).Perm (p.hits rs') :=
  (h.filterMap _).map _

theorem times_perm (h : rs.Perm rs') : (p.times page rs).Perm (p.times page rs') :=
  ((h.filterMap _).filter _).map _

theorem times_append (p : PageDirectory) (page : UInt64) (rs rs' : List Record) :
    p.times page (rs ++ rs') = p.times page rs ++ p.times page rs' := by
  simp [times]

/-- A page that some records do not count for is not the page of any of them. -/
theorem times_singleton_of_mem {r : Record} (h : p.times page rs = []) (hr : r ∈ rs) :
    p.times page [r] = [] := by
  obtain ⟨before, after, rfl⟩ := List.append_of_mem hr
  rw [List.append_cons, times_append, times_append, List.append_eq_nil_iff,
    List.append_eq_nil_iff] at h
  exact h.1.2

/-- If only one ring samples a page, the times of the page are those of that ring. -/
theorem times_of_one_ring {id : RingId} {ks : List Take}
    (h : ∀ k ∈ ks, k.id ≠ id → p.times page [k.record] = []) :
    p.times page (ks.map Take.record) = p.times page (Take.recordsFrom id ks) := by
  induction ks with
  | nil => rfl
  | cons k ks ih =>
      have hrest := ih fun k' hk' => h k' (List.mem_cons_of_mem k hk')
      rw [Take.recordsFrom] at hrest ⊢
      have hcons : ∀ rs, p.times page (k.record :: rs) =
          p.times page [k.record] ++ p.times page rs := p.times_append page [k.record]
      rw [List.map_cons, hcons, hrest]
      by_cases hk : k.id = id
      · rw [List.filter_cons_of_pos (by simpa using hk), List.map_cons]
        exact (hcons _).symm
      · rw [List.filter_cons_of_neg (by simpa using hk), h k List.mem_cons_self hk,
          List.nil_append]

end PageDirectory

namespace Take

theorem recordsOf_perm {ks ks' : List Take} (h : ks.Perm ks') (c : EventClass) :
    (recordsOf c ks).Perm (recordsOf c ks') :=
  (h.filter _).map _

theorem mem_recordsFrom {ks : List Take} {k : Take} (h : k ∈ ks) :
    k.record ∈ recordsFrom k.id ks :=
  List.mem_map_of_mem (List.mem_filter.2 ⟨h, decide_eq_true rfl⟩)

end Take

/-- What some records come to for a fresh intake, whatever their order: every class has counted
its accepted samples and every counter its records, a heap with room for all pages of its class
holds each of them once, with its number of samples, and every page remembers the latest of its
samples. -/
structure PageTotals (i : Intake PageDirectory UInt64) (ks : List Take)
    (i' : Intake PageDirectory UInt64) : Prop where
  samples : ∀ c, i'.tally.samples.get c = (i.resolver.hits (Take.recordsOf c ks)).length
  sampled : i'.counters.sampled = (i.resolver.hits (ks.map Take.record)).length
  dram : i'.counters.dram = (i.resolver.hits (Take.recordsOf .dramRead ks)).length
  nvm : i'.counters.nvm = (i.resolver.hits (Take.recordsOf .nvmRead ks)).length
  write : i'.counters.write = (i.resolver.hits (Take.recordsOf .memWrite ks)).length
  excluded : ∀ w, i'.counters.excluded w =
    ((ks.map Take.record).filterMap i.resolver.exclusion?).count w
  heap : ∀ c, let pages := i.resolver.hits (Take.recordsOf c ks)
    pages.eraseDups.length ≤ (i.tally.heaps.get c).capacity →
      (i'.tally.heaps.get c).entries.toList.Perm (pages.eraseDups.map (HotHeap.entryOf pages))
  lastTime : ∀ page, (i'.tally.stats.get page).lastTime.toNat =
    IntervalStats.latest (i.resolver.times page (ks.map Take.record))

namespace Drain

variable {d : Drain PageDirectory UInt64} {o : DrainOptions}

/-- What a run comes to can be told from the records that it took, in any order. -/
theorem pageTotals_of_perm {ops : List Op} {ks : List Take} (htally : d.intake.tally.Fresh)
    (hcounters : d.intake.counters = {}) (hperm : (takes (d.history o ops)).Perm ks) :
    PageTotals d.intake ks (d.run o ops).intake := by
  obtain ⟨hrun, hgrown⟩ := d.intake_run_spec o ops
  rw [hcounters] at hgrown
  obtain ⟨hsampled, hdram, hnvm, hwrite, hexcluded, -, -⟩ := hgrown.of_zero
  have hrecords := hperm.map Take.record
  have hhits : ∀ c, (Access.itemsOf c (d.intake.accesses o.milestone (d.history o ops))).Perm
      (d.intake.resolver.hits (Take.recordsOf c ks)) := by
    intro c
    rw [Intake.itemsOf_accesses]
    exact PageDirectory.hits_perm (Take.recordsOf_perm hperm c)
  have hclass : ∀ c, (d.intake.tally.answers (d.intake.accesses o.milestone
      (d.history o ops))).countP (·.access.cls = c) =
        (d.intake.resolver.hits (Take.recordsOf c ks)).length := by
    intro c
    rw [Tally.countP_cls_answers, (hhits c).length_eq]
  constructor
  case samples =>
    intro c
    rw [hrun, htally.samples_eq, (hhits c).length_eq]
  case sampled =>
    rw [hsampled, Tally.length_answers, Intake.length_accesses_eq,
      (PageDirectory.hits_perm hrecords).length_eq]
  case dram => rw [hdram, hclass]
  case nvm => rw [hnvm, hclass]
  case write => rw [hwrite, hclass]
  case excluded =>
    intro w
    rw [hexcluded, Intake.exclusions_eq, (hrecords.filterMap _).count_eq]
  case heap =>
    intro c pages hroom
    rw [hrun]
    refine (htally.tabulates _ c).entries_perm_of_room (hhits c) ?_
    rwa [Tally.capacity_recordAll]
  case lastTime =>
    intro page
    rw [hrun, htally.stats_eq, IntervalStats.lastTime_observeAll, Intake.timesOf_accesses]
    exact IntervalStats.latest_perm (PageDirectory.times_perm hrecords)

/-- After passes that empty all rings, a page that only one of them samples has the statistics of
its times in the order of that queue. -/
theorem stats_of_one_ring {n : Nat} {page : UInt64} {r : Ring} (htally : d.intake.tally.Fresh)
    (hempty : ∀ id ∈ d.rings.map Ring.id,
      ((d.run o (.replicate n .pass)).buffer id).queue = [])
    (hr : r ∈ d.rings)
    (hone : ∀ r' ∈ d.rings, r'.id ≠ r.id →
      d.intake.resolver.times page (d.buffer r'.id).queue = []) :
    (d.run o (.replicate n .pass)).intake.tally.stats.get page =
      ({} : IntervalStats).observeAll
        (d.intake.resolver.times page (d.buffer r.id).queue) := by
  have hothers : ∀ k ∈ takes (d.history o (.replicate n .pass)), k.id ≠ r.id →
      d.intake.resolver.times page [k.record] = [] := by
    intro k hk hne
    obtain ⟨r', hr', hid, -⟩ := mem_sources.1 (mem_sources_of_take hk)
    change r'.id = k.id at hid
    have hmem := Take.mem_recordsFrom hk
    rw [← hid, recordsFrom_of_emptied (hempty r'.id (List.mem_map_of_mem hr'))] at hmem
    exact PageDirectory.times_singleton_of_mem (hone r' hr' (hid ▸ hne)) hmem
  rw [(d.intake_run_spec o _).1, htally.stats_eq, Intake.timesOf_accesses,
    PageDirectory.times_of_one_ring hothers,
    recordsFrom_of_emptied (hempty r.id (List.mem_map_of_mem hr))]

/-- Passes that are repeated until one consumes nothing do come to an end, and then the queues alone
tell what they have come to, whatever the order, the sizes and the pressures of the rings and
whatever the watermarks. -/
theorem drainAll_reference (hcls : d.OneClass)
    (hexact : ∀ id ∈ d.rings.map Ring.id, (d.buffer id).IsExact) (htally : d.intake.tally.Fresh)
    (hcounters : d.intake.counters = {}) :
    let p := d.intake.resolver
    let i := (d.drainAll o).2.intake
    (∃ ps q, (d.drainAll o).1 = ps ++ [q] ∧ q.records = 0 ∧ ∀ q' ∈ ps, q'.records ≠ 0) ∧
    PageTotals d.intake d.queuedTakes i ∧
    ∀ page, ∀ r ∈ d.rings,
      (∀ r' ∈ d.rings, r'.id ≠ r.id → p.times page (d.buffer r'.id).queue = []) →
        i.tally.stats.get page =
          ({} : IntervalStats).observeAll (p.times page (d.buffer r.id).queue) := by
  intro p i
  obtain ⟨hend, hempty⟩ := passes_empty (o := o) (Nat.lt_succ_self d.queued) hexact
  obtain ⟨n, hn⟩ := passes_eq_run o (d.queued + 1) d
  have hrun : i = (d.run o (.replicate n .pass)).intake :=
    congrArg (fun done => done.2.intake) hn
  rw [hn] at hempty
  refine ⟨hend, ?_, fun page r hr hone => ?_⟩
  · rw [hrun]
    exact pageTotals_of_perm htally hcounters (takes_perm_of_emptied hcls hempty)
  · rw [hrun]
    exact stats_of_one_ring htally hempty hr hone

end Drain

/-- Two pages in two rings: the reads stay on one of them, only the writes touch the other. -/
def twoPages : Drain PageDirectory UInt64 :=
  mixedDrain.run {}
    [.push (.hardware 0 .dramRead)
        [.sample ⟨1, ⟨1, 1⟩, 5, 0x1000⟩, .throttle ⟨6, 1, 1⟩, .sample ⟨1, ⟨1, 1⟩, 4, 0x1008⟩],
      .push (.hardware 0 .memWrite)
        [.sample ⟨1, ⟨1, 1⟩, 8, 0x3000⟩, .sample ⟨1, ⟨1, 1⟩, 7, 0x1000⟩,
          .sample ⟨1, ⟨1, 1⟩, 9, 0x3008⟩, .sample ⟨1, ⟨1, 1⟩, 9, 0x2000⟩]]

/-- Five samples are accepted; the heap of the reads has room for their page, and the page of the
writes has the statistics of two times. -/
theorem Drain.drainAll_two_pages :
    let i := (twoPages.drainAll {}).2.intake
    (twoPages.OneClass ∧ (∀ id ∈ twoPages.rings.map Ring.id, (twoPages.buffer id).IsExact) ∧
      twoPages.intake.tally.Fresh ∧ twoPages.intake.counters = {}) ∧
    i.counters.sampled = 5 ∧ i.tally.samples.get .memWrite = 3 ∧
    (∀ w, i.counters.excluded w = [Exclusion.throttling, .unresolved].count w) ∧
    (i.tally.heaps.get .dramRead).entries.toList.Perm [⟨1, 2⟩] ∧
    (i.tally.stats.get 1).lastTime.toNat = 7 ∧
    i.tally.stats.get 3 = ({} : IntervalStats).observeAll [8, 9] := by
  intro i
  have hcls : twoPages.OneClass := by decide
  have hexact : ∀ id ∈ twoPages.rings.map Ring.id, (twoPages.buffer id).IsExact := by decide
  have htally : twoPages.intake.tally.Fresh := Tally.fresh_empty 1
  obtain ⟨-, htotals, hone⟩ := Drain.drainAll_reference (o := {}) hcls hexact htally rfl
  refine ⟨⟨hcls, hexact, htally, rfl⟩, htotals.sampled.trans (by decide),
    (htotals.samples .memWrite).trans (by decide), fun w => ?_, ?_,
    (htotals.lastTime 1).trans (by decide), ?_⟩
  · rw [htotals.excluded]
    cases w <;> decide
  · exact (htotals.heap .dramRead (by decide)).trans (by decide)
  · exact (hone 3 ⟨0, .memWrite, .hardware 0 .memWrite, {}⟩ (by decide) (by decide)).trans
      (by decide)

end AccessSampling
