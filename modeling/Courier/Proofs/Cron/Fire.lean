/-
  Courier/Proofs/Cron/Fire.lean
  =============================
  **What firing a job does to a store.**

  A firing looks at the record of the job once more, inside its transaction.  Either
  it leaves the store as it was, because the job is not due by that record or is not
  active, or it files the item of the occurrence and puts the new record into the
  table, in one commit (`Job.fire_cases`); in a sound store it never fails.  A job
  that cannot be fired at an instant, nor at any earlier one, stays so while others
  fire (`Job.Fires.idle`): the search for an occurrence has to answer with a later
  instant than the one it is given, and that is all that is asked of it.
-/
import Courier.Cron.Worker
import Courier.Proofs.Cron.Template
import Courier.Proofs.Store.Trace

namespace Courier

open Courier.Time

/-! ### The table of jobs -/

namespace JobRecord

theorem find?_put (record : JobRecord) (name : String) (records : List JobRecord) :
    find? name (record.put records) =
      if record.name = name then some record else find? name records := by
  unfold find?
  induction records with
  | nil => simp [put, List.find?_cons]; split <;> simp_all
  | cons other rest ih =>
    unfold put
    split
    · rename_i hsame
      by_cases hname : record.name = name
      · simp [hname]
      · simp [hname, ← hsame]
    · split
      · by_cases hname : record.name = name <;> simp [hname]
      · rename_i hne _
        by_cases hname : other.name = name
        · have hother : ¬ record.name = name := fun h => hne (h.trans hname.symm)
          simp [hname, hother]
        · simp only [List.find?_cons, hname, decide_false, ih]

end JobRecord

namespace Store

variable {sharding : Sharding} {s s' : Store} {now : Instant} {event : Event}

/-- Only a transaction writes the table of jobs, and only a clear removes it. -/
theorem Move.jobs (h : Move now s event s') (hrecorded : event ≠ .recorded)
    (hcleared : event ≠ .cleared) : s'.jobs = s.jobs := by
  cases h with
  | lane mem step => rfl
  | record jobs => exact absurd rfl hrecorded
  | clear => exact absurd rfl hcleared

theorem Moves.jobs {events : List Event} (h : Moves now s events s')
    (hrecorded : .recorded ∉ events) (hcleared : .cleared ∉ events) : s'.jobs = s.jobs := by
  induction h with
  | nil s => rfl
  | cons move _ ih =>
    rw [List.mem_cons, not_or] at hrecorded hcleared
    exact (ih hrecorded.2 hcleared.2).trans (move.jobs (Ne.symm hrecorded.1) (Ne.symm hcleared.1))

theorem jobs_insertAll (hs : s.Sound) {ps : List PreparedItem}
    (hps : ∀ p ∈ ps, p.IsFor s.sharding) (now : Instant) :
    (s.insertAll now ps).2.jobs = s.jobs := by
  obtain ⟨s', hrun, hmoves⟩ := insertAll_moves hs hps now
  have hfiled : ∀ event ∈ (s.insertResults now ps).flatMap filingEvents,
      ∃ id queue, event = .filed id queue := by
    intro event he
    obtain ⟨result, -, he⟩ := List.mem_flatMap.1 he
    exact eq_filed_of_mem he
  rw [hrun]
  refine hmoves.jobs (fun he => ?_) fun he => ?_
  · obtain ⟨id, queue, h⟩ := hfiled _ he
    cases h
  · obtain ⟨id, queue, h⟩ := hfiled _ he
    cases h

/-- Of the operations only a clear touches the table of jobs. -/
theorem jobs_operate (hs : s.Sound) (clock : Clock) {operation : Operation}
    (hkept : operation ≠ .clear) : (operation.run clock s).2.jobs = s.jobs := by
  let call : Call s.sharding := ⟨clock, .operate operation⟩
  obtain ⟨events, hmoves, haccounts⟩ := call.traced hs rfl
  refine hmoves.jobs (fun he => ?_) fun he => ?_
  · obtain ⟨tx, isOpen, hc⟩ := haccounts.explained _ he
    cases hc
  · have hc := haccounts.clears he
    cases hc
    exact hkept rfl

end Store

namespace Cron.Job

variable {job other : Job} {clock : Clock} {now : Instant} {s s' : Store} {occurrence : Instant}

/-! ### The transaction of a firing -/

/-- The record of a job as a firing finds it: one is made for a job that has none. -/
def record (job : Job) (s : Store) : JobRecord :=
  (JobRecord.find? job.name s.jobs).getD (.neverRan job.name)

theorem name_record (job : Job) (s : Store) : (job.record s).name = job.name := by
  unfold record
  cases hfound : JobRecord.find? job.name s.jobs with
  | none => rfl
  | some found =>
    unfold JobRecord.find? at hfound
    simpa using List.find?_some hfound

theorem lastRun_jobs (job : Job) (s : Store) : lastRun s.jobs job = (job.record s).lastRanAt := by
  unfold lastRun record JobRecord.find?
  cases List.find? (·.name = job.name) s.jobs <;> rfl

theorem due?_eq_some {last : Instant} :
    job.due? last now = some occurrence ↔
      job.nextOccurrence last = some occurrence ∧ occurrence < now := by
  unfold due?
  rw [Option.filter_eq_some_iff, decide_eq_true_eq]

/-- The item of an occurrence, ready to be filed. -/
def prepared (job : Job) (sharding : Sharding) (occurrence : Instant) : PreparedItem where
  url := job.urlFor occurrence
  queue := .ofName sharding job.queue
  debugInfo := some ("cron:" ++ job.name)
  duplicateProtection := true
  internal := none
  blocking := .none
  lockWhenComplete := none

theorem prepare_item (hurl : job.url ≠ "") (sharding : Sharding) (freshName : String)
    (occurrence : Instant) :
    (job.item occurrence).prepare sharding freshName = .ok (job.prepared sharding occurrence) :=
  if_neg (urlFor_ne_empty hurl occurrence)

/-- The transaction of a firing once it has looked at the record of the job. -/
def opened (job : Job) (s : Store) : JobTransaction := JobTransaction.start.create s job.name

theorem opened_cases (job : Job) (s : Store) :
    (job.opened s).items = [] ∧ (job.opened s).current? s job.name = some (job.record s) ∧
      ((job.opened s).records = [] ∨ (job.opened s).records = [.neverRan job.name]) := by
  have hcurrent : JobTransaction.start.current? s job.name = JobRecord.find? job.name s.jobs := rfl
  unfold opened JobTransaction.create record
  rw [hcurrent]
  cases hfound : JobRecord.find? job.name s.jobs with
  | some found => exact ⟨rfl, hcurrent.trans hfound, Or.inl rfl⟩
  | none =>
    refine ⟨rfl, ?_, Or.inr rfl⟩
    unfold JobTransaction.current? JobRecord.find?
    simp [JobRecord.put, JobTransaction.start, JobRecord.neverRan]

/-- What a firing commits. -/
def transaction (job : Job) (now occurrence : Instant) (s : Store) : JobTransaction :=
  (((job.opened s).enqueue s job.queue (job.item occurrence)).2.update s job.name now).2

theorem transaction_isOpen (job : Job) (now occurrence : Instant) (s : Store) :
    (job.transaction now occurrence s).IsOpen s.sharding :=
  .update s job.name now (.enqueue s job.queue _ rfl (.create s job.name .start))

theorem enqueue_opened (hurl : job.url ≠ "") (occurrence : Instant) (s : Store) :
    (job.opened s).enqueue s job.queue (job.item occurrence) =
      (.ok (), ⟨(job.opened s).records, [job.prepared s.sharding occurrence]⟩) := by
  unfold JobTransaction.enqueue
  rw [prepare_item hurl, (opened_cases job s).1]
  rfl

theorem update_opened (now : Instant) (s : Store) (items : List PreparedItem) :
    (⟨(job.opened s).records, items⟩ : JobTransaction).update s job.name now =
      (.ok (), ⟨[{ job.record s with lastRanAt := now }], items⟩) := by
  obtain ⟨-, hcurrent, hrecords⟩ := opened_cases job s
  have hfound : (⟨(job.opened s).records, items⟩ : JobTransaction).current? s job.name =
      some (job.record s) := hcurrent
  unfold JobTransaction.update
  rw [hfound]
  rcases hrecords with h | h
  · simp only [h, JobRecord.put]
  · simp only [h, JobRecord.put, name_record, JobRecord.neverRan, if_true]

/-- A firing files one item and records one run. -/
theorem transaction_eq (hurl : job.url ≠ "") (now occurrence : Instant) (s : Store) :
    job.transaction now occurrence s =
      ⟨[{ job.record s with lastRanAt := now }], [job.prepared s.sharding occurrence]⟩ := by
  unfold transaction
  rw [enqueue_opened hurl, update_opened]

/-- What a firing stages, by the record of the job in the store. -/
theorem stage_eq (hurl : job.url ≠ "") (clock : Clock) (now : Instant) (s : Store) :
    job.stage clock now s JobTransaction.start =
      match job.due? (lastRun s.jobs job) now with
      | none => (.ok none, job.opened s)
      | some occurrence =>
        if (job.record s).active then (.ok (some occurrence), job.transaction now occurrence s)
        else (.ok none, job.opened s) := by
  obtain ⟨-, hcurrent, -⟩ := opened_cases job s
  have hselect : Backend.selectJob job.name s (job.opened s) =
      (.ok (job.record s), job.opened s) := by
    show ((job.opened s).select s job.name, job.opened s) = _
    unfold JobTransaction.select
    rw [hcurrent]
  have hcreate : Backend.createJob job.name s JobTransaction.start = (.ok (), job.opened s) := rfl
  unfold stage
  rw [hcreate]
  dsimp only
  rw [hselect, lastRun_jobs]
  dsimp only
  cases job.due? (job.record s).lastRanAt now with
  | none => rfl
  | some occurrence =>
    dsimp only
    split
    · have henqueue : Backend.enqueueJob clock job.queue (job.item occurrence) s (job.opened s) =
          (.ok (), ⟨(job.opened s).records, [job.prepared s.sharding occurrence]⟩) :=
        enqueue_opened hurl occurrence s
      have hupdate : Backend.updateJob job.name now s
          (⟨(job.opened s).records, [job.prepared s.sharding occurrence]⟩ : JobTransaction) =
          (.ok (), job.transaction now occurrence s) := by
        rw [transaction_eq hurl]
        exact update_opened now s _
      rw [henqueue]
      dsimp only
      rw [hupdate]
      rfl
    · rfl

/-! ### Jobs that cannot be fired -/

/-- Whether a job cannot be fired at an instant, nor at any earlier one. -/
def Idle (job : Job) (now : Instant) (s : Store) : Prop :=
  (job.record s).active = false ∨
    ∀ occurrence, job.nextOccurrence (lastRun s.jobs job) = some occurrence → ¬ occurrence < now

/-- Whether the search for the occurrences of a job answers with a later instant than the one it
    is given. -/
def Advances (job : Job) : Prop :=
  ∀ last occurrence, job.nextOccurrence last = some occurrence → last < occurrence

theorem Idle.mono {later : Instant} (h : job.Idle later s) (hle : now ≤ later) :
    job.Idle now s := by
  refine h.imp_right fun hnone occurrence hnext hlt => hnone occurrence hnext ?_
  exact Int.lt_of_lt_of_le hlt hle

theorem idle_of_not_due (h : job.due? (lastRun s.jobs job) now = none) : job.Idle now s := by
  refine Or.inr fun occurrence hnext hlt => ?_
  rw [due?_eq_some.2 ⟨hnext, hlt⟩] at h
  cases h

theorem idle_of_record {t : Store} (h : job.Idle now s) (hrecord : job.record t = job.record s) :
    job.Idle now t := by
  unfold Idle at h ⊢
  rwa [lastRun_jobs, hrecord, ← lastRun_jobs]

/-! ### The outcome of a firing -/

/-- Whether a store comes of firing a job for an occurrence. -/
structure Fires (job : Job) (clock : Clock) (now occurrence : Instant) (s s' : Store) : Prop where
  due : job.due? (lastRun s.jobs job) now = some occurrence
  active : (job.record s).active = true
  commit : s.commit clock.storeNow (job.transaction now occurrence s) = (.ok (), s')

/-- Firing a job leaves a sound store as it was, if the job cannot be fired, or it fires the job;
    it does not fail. -/
theorem fire_cases (hs : s.Sound) (hurl : job.url ≠ "") (clock : Clock) (now : Instant) :
    (job.Idle now s ∧ (job.stage clock now s JobTransaction.start).1 = .ok none ∧
      job.fire clock now s = (.ok false, s)) ∨
    ∃ occurrence s', job.Fires clock now occurrence s s' ∧
      (job.stage clock now s JobTransaction.start).1 = .ok (some occurrence) ∧
      job.fire clock now s = (.ok true, s') := by
  have hstage := stage_eq hurl clock now s
  have hbegin : Backend.begin_ s = .ok JobTransaction.start := rfl
  have hfire : ∀ tx, job.stage clock now s JobTransaction.start = (.ok none, tx) →
      job.fire clock now s = (.ok false, s) := by
    intro tx h
    unfold fire
    rw [hbegin]
    dsimp only
    rw [h]
    rfl
  cases hdue : job.due? (lastRun s.jobs job) now with
  | none =>
    rw [hdue] at hstage
    exact Or.inl ⟨idle_of_not_due hdue, congrArg Prod.fst hstage, hfire _ hstage⟩
  | some occurrence =>
    rw [hdue] at hstage
    dsimp only at hstage
    cases hactive : (job.record s).active with
    | false =>
      rw [hactive] at hstage
      exact Or.inl ⟨Or.inl hactive, congrArg Prod.fst hstage, hfire _ hstage⟩
    | true =>
      rw [hactive, if_pos rfl] at hstage
      obtain ⟨s', hinsert, -⟩ :=
        Store.insertAll_moves hs (transaction_isOpen job now occurrence s).isFor clock.storeNow
      have hcommit : s.commit clock.storeNow (job.transaction now occurrence s) =
          (.ok (), s'.writeRecords (job.transaction now occurrence s).records) := by
        unfold Store.commit
        rw [hinsert]
      refine Or.inr ⟨occurrence, _, ⟨hdue, hactive, hcommit⟩, congrArg Prod.fst hstage, ?_⟩
      unfold fire
      rw [hbegin]
      dsimp only
      rw [hstage]
      dsimp only
      have hanswer : Backend.commit clock (job.transaction now occurrence s) s = _ := hcommit
      rw [hanswer]
      rfl

namespace Fires

/-- A firing records the instant at which it was done, and touches no other record. -/
theorem record_eq (h : job.Fires clock now occurrence s s') (hs : s.Sound) (hurl : job.url ≠ "")
    (other : Job) :
    other.record s' =
      if other.name = job.name then { job.record s with lastRanAt := now } else other.record s := by
  have hjobs : s'.jobs = ({ job.record s with lastRanAt := now } : JobRecord).put s.jobs := by
    -- filing the items leaves the table alone, and the one record of the transaction is put into it
    have hkept := Store.jobs_insertAll hs (transaction_isOpen job now occurrence s).isFor
      clock.storeNow
    obtain ⟨s'', hinsert, -⟩ :=
      Store.insertAll_moves hs (transaction_isOpen job now occurrence s).isFor clock.storeNow
    have hcommit := h.commit
    unfold Store.commit at hcommit
    rw [hinsert] at hcommit hkept
    cases hcommit
    rw [transaction_eq hurl]
    exact congrArg _ hkept
  unfold record
  rw [hjobs, JobRecord.find?_put]
  have hname := name_record job s
  by_cases hsame : other.name = job.name
  · rw [if_pos hsame, if_pos (hname.trans hsame.symm)]
    rfl
  · rw [if_neg hsame, if_neg fun heq => hsame (heq.symm.trans hname)]

/-- A firing is one call of the store. -/
theorem call (h : job.Fires clock now occurrence s s') :
    ((⟨clock, .commit _ (transaction_isOpen job now occurrence s)⟩ :
      Store.Call s.sharding).run s).2 = s' := by
  unfold Store.Call.run
  dsimp only
  rw [h.commit]
  rfl

theorem sound (h : job.Fires clock now occurrence s s') (hs : s.Sound) :
    s'.Sound ∧ s'.sharding = s.sharding :=
  h.call ▸ Store.Call.run_sound _ hs rfl

theorem not_idle (h : job.Fires clock now occurrence s s') : ¬ job.Idle now s := by
  obtain ⟨hnext, hlt⟩ := due?_eq_some.1 h.due
  rintro (hinactive | hnone)
  · rw [h.active] at hinactive
    cases hinactive
  · exact hnone occurrence hnext hlt

/-- A firing is for the occurrence that follows the last run, which lies between that run and the
    new one. -/
theorem bounds (h : job.Fires clock now occurrence s s') (hjob : job.Advances) :
    job.nextOccurrence (lastRun s.jobs job) = some occurrence ∧
      lastRun s.jobs job < occurrence ∧ occurrence < now := by
  obtain ⟨hnext, hlt⟩ := due?_eq_some.1 h.due
  exact ⟨hnext, hjob _ _ hnext, hlt⟩

/-- A job that was fired cannot be fired at that instant once more. -/
theorem idle_self (h : job.Fires clock now occurrence s s') (hs : s.Sound) (hurl : job.url ≠ "")
    (hjob : job.Advances) : job.Idle now s' := by
  refine Or.inr fun next hnext hlt => ?_
  rw [lastRun_jobs, h.record_eq hs hurl, if_pos rfl] at hnext
  exact absurd (Int.lt_trans (hjob _ _ hnext) hlt) (Int.lt_irrefl _)

/-- A job that cannot be fired at an instant cannot be fired at it after a firing either, be it of
    the job itself, by a clock that is ahead, or of another one. -/
theorem idle (h : job.Fires clock now occurrence s s') (hs : s.Sound) (hurl : job.url ≠ "")
    (hjob : job.Advances) {at_ : Instant} (hidle : other.Idle at_ s)
    (hsame : other.name = job.name → other = job) : other.Idle at_ s' := by
  have hrecord := h.record_eq hs hurl other
  by_cases hname : other.name = job.name
  · obtain rfl := hsame hname
    obtain ⟨hnext, hlt⟩ := due?_eq_some.1 h.due
    -- the job was due at `now` but not at `at_`, so `at_` is the earlier of the two
    refine (h.idle_self hs hurl hjob).mono ?_
    rcases hidle with hinactive | hnone
    · rw [h.active] at hinactive
      cases hinactive
    · exact Int.le_trans (Int.not_lt.1 (hnone occurrence hnext)) (Int.le_of_lt hlt)
  · rw [if_neg hname] at hrecord
    exact idle_of_record hidle hrecord

end Fires

end Cron.Job

end Courier
