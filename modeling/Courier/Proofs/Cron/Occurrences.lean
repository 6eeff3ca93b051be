/-
  Courier/Proofs/Cron/Occurrences.lean
  ====================================
  **Every occurrence is fired at most once, and none is swallowed.**

  The firings of a job are chained (`Scene.Orderly.chained`), so no occurrence is
  fired twice.  An item is filed under duplicate protection; were there an item of
  the same URL that was never attempted, nothing would be filed.  If nothing but the
  firings files in the queue of the job, all it ever held came of firings with earlier
  occurrences (`OnlyFired`), and if the URL has the mark, theirs are different URLs:
  every firing files one new item.
-/
import Courier.Proofs.Cron.Interleaving
import Courier.Proofs.Store.Filings

namespace Courier.Cron

open Courier.Time

variable {job : Job} {clock : Clock} {now occurrence : Instant} {s s' : Store} {item : WorkItem}

/-- The queue of a job. -/
def Job.queueRef (job : Job) (sharding : Sharding) : QueueRef := .ofName sharding job.queue

/-- The item of an occurrence as it is filed. -/
def Job.filed (job : Job) (sharding : Sharding) (occurrence : Instant) (id : WorkItemId)
    (at_ : Instant) : WorkItem :=
  (job.prepared sharding occurrence).toWorkItem id at_

/-! ### What a firing files -/

namespace Job.Fires

/-- A firing adds the item of its occurrence, or nothing if the queue holds an item of that URL. -/
theorem store_cases (h : job.Fires clock now occurrence s s') (hs : s.Sound) (hurl : job.url ≠ "") :
    ∃ lane jobs, s.lane? (job.queueRef s.sharding).shard = some lane ∧
      ((∃ item ∈ lane.items, item.queueRef = job.queueRef s.sharding ∧
          item.url = job.urlFor occurrence ∧ s' = { s with jobs }) ∨
        s' = { s.replace (lane.addItem (job.filed s.sharding occurrence s.nextId clock.storeNow)) 1
          [] with jobs }) := by
  have hfor : (job.prepared s.sharding occurrence).IsFor s.sharding :=
    ⟨job.queue, job.item occurrence, prepare_item hurl _ _ _⟩
  obtain ⟨lane, hlane, hcases⟩ := Store.insert_cases hs hfor clock.storeNow
  have hcommit := h.commit
  unfold Store.commit at hcommit
  rw [transaction_eq hurl] at hcommit
  unfold Store.insertAll at hcommit
  rcases hcases with ⟨existing, hduplicate, hinsert⟩ | ⟨-, hinsert⟩
  · rw [hinsert] at hcommit
    cases hcommit
    obtain ⟨hl, hshard⟩ := Store.mem_of_lane? hlane
    have hfound : lane.items.find?
        (fun item => (job.prepared s.sharding occurrence).Duplicates item) = some existing :=
      hduplicate
    have hmem := List.mem_of_find?_eq_some hfound
    obtain ⟨hname, hsame, -⟩ : (job.prepared s.sharding occurrence).Duplicates existing := by
      simpa using List.find?_some hfound
    refine ⟨lane, _, hlane, Or.inl ⟨existing, hmem, ?_, hsame, rfl⟩⟩
    have hhere : existing.shard = lane.shard := (hs.lanes lane hl).here existing hmem
    unfold WorkItem.queueRef
    rw [hname, hhere, hshard]
    rfl
  · rw [hinsert] at hcommit
    cases hcommit
    exact ⟨lane, _, hlane, Or.inr rfl⟩

/-- What is held after a firing was held before or is the item of the occurrence. -/
theorem held (h : job.Fires clock now occurrence s s') (hs : s.Sound) (hurl : job.url ≠ "")
    (hi : item ∈ s'.held) :
    item ∈ s.held ∨ ∃ id at_, item = job.filed s.sharding occurrence id at_ := by
  obtain ⟨lane, jobs, hlane, ⟨-, -, -, -, rfl⟩ | rfl⟩ := h.store_cases hs hurl
  · exact Or.inl hi
  · obtain ⟨hl, -⟩ := Store.mem_of_lane? hlane
    rcases (Store.mem_held_replace hs hl (by rfl)).1 hi with hi | ⟨other, ho, -, hi⟩
    · rcases Lane.held_addItem.1 hi with hi | rfl
      · exact Or.inl (Store.mem_held.2 ⟨lane, hl, hi⟩)
      · exact Or.inr ⟨_, _, rfl⟩
    · exact Or.inl (Store.mem_held.2 ⟨other, ho, hi⟩)

/-- A firing files one new item, that of its occurrence, if the queue holds none of that URL. -/
theorem creates (h : job.Fires clock now occurrence s s') (hs : s.Sound) (hurl : job.url ≠ "")
    (hnew : ∀ item ∈ s.held, item.queueRef = job.queueRef s.sharding →
      item.url ≠ job.urlFor occurrence) :
    ∃ before item, s.pending (job.queueRef s.sharding) = .ok before ∧
      s'.pending (job.queueRef s.sharding) = .ok (before ++ [item]) ∧
      item.url = job.urlFor occurrence ∧ s'.pendingIds.Perm (s.pendingIds ++ [item.id]) := by
  obtain ⟨lane, jobs, hlane, ⟨item, hi, hqueue, hsame, -⟩ | rfl⟩ := h.store_cases hs hurl
  · obtain ⟨hl, -⟩ := Store.mem_of_lane? hlane
    have hheld : item ∈ s.held := Store.mem_held.2 ⟨lane, hl, Lane.mem_held.2 (Or.inl hi)⟩
    exact absurd hsame (hnew item hheld hqueue)
  · obtain ⟨hl, hshard⟩ := Store.mem_of_lane? hlane
    let item := job.filed s.sharding occurrence s.nextId clock.storeNow
    have hpending : (lane.addItem item).pending job.queue = lane.pending job.queue ++ [item] := by
      have hown : item.queueName = job.queue := rfl
      simp [Lane.pending, Lane.addItem, List.filter_append, hown]
    have hlane' : (s.replace (lane.addItem item) 1 []).lane? (job.queueRef s.sharding).shard =
        some (lane.addItem item) := by
      have hsame : (job.queueRef s.sharding).shard = (lane.addItem item).shard := hshard.symm
      rw [Store.lane?_replace, if_pos hsame, hlane]
      exact congrArg some (Lane.receive_nil _)
    refine ⟨lane.pending job.queue, item, ?_, ?_, rfl, ?_⟩
    · unfold Store.pending Store.readLane
      rw [hlane]
      rfl
    · rw [← hpending]
      unfold Store.pending Store.readLane
      rw [show ∀ t : Store, ({ t with jobs } : Store).lane? _ = t.lane? _ from fun _ => rfl, hlane']
      rfl
    · let numbers (lane : Lane) : List WorkItemId := lane.items.map (·.id)
      have hshard : (lane.addItem item).shard = lane.shard := rfl
      have hall := Store.flatMap_replace hs hl hshard 1 [] numbers fun _ => rfl
      have hadded : numbers (lane.addItem item) = numbers lane ++ [item.id] := List.map_append
      refine (List.perm_append_right_iff (numbers lane)).1 (hall.trans ?_)
      calc s.pendingIds ++ numbers (lane.addItem item)
          _ |>.Perm (s.pendingIds ++ (numbers lane ++ [item.id])) := .of_eq (by rw [hadded])
          _ |>.Perm (s.pendingIds ++ ([item.id] ++ numbers lane)) :=
            List.perm_append_comm.append_left _
          _ |>.Perm _ := .of_eq (List.append_assoc ..).symm

end Job.Fires

/-! ### A queue in which nothing but firings file -/

/-- Whether all that a store holds in the queue of a job came of the given firings, placeholders
    apart. -/
def OnlyFired (job : Job) (firings : List Firing) (s : Store) : Prop :=
  ∀ item ∈ s.held, item.queueRef = job.queueRef s.sharding → item.isPlaceholder = true ∨
    ∃ firing ∈ Scene.firingsOf job firings, item.url = job.urlFor firing.occurrence

theorem isPlaceholder_of_continues {taken : QueueRef → String → Prop} {a b : WorkItem}
    (h : b.Continues taken a) (ha : a.isPlaceholder = true) : b.isPlaceholder = true := by
  unfold WorkItem.isPlaceholder at ha ⊢
  rw [h.url]
  exact ha

namespace Scene

variable {jobs : List Job} {scene : Scene} {act : Act} {firings : List Firing}

theorem mem_firingsOf {firing : Firing} :
    firing ∈ firingsOf job firings ↔ firing ∈ firings ∧ firing.job = job := by
  unfold firingsOf
  rw [List.mem_filter, decide_eq_true_eq]

/-- What is asked of a store adds nothing to a queue in which it does not file. -/
theorem onlyFired_operate (h : OnlyFired job firings s) (hs : s.Sound) {clock : Clock}
    {operation : Operation} (hfile : ¬ (Act.operate clock operation).Enqueues job.queue) :
    OnlyFired job firings (operation.run clock s).2 := by
  let call : Store.Call s.sharding := ⟨clock, .operate operation⟩
  have hsharding : (call.run s).2.sharding = s.sharding := (call.run_sound hs rfl).2
  intro item hi hqueue
  rw [show (operation.run clock s).2.sharding = s.sharding from hsharding] at hqueue
  rcases call.held hs rfl hi with ⟨a, ha, hsame⟩ | ⟨-, hplace | hfiled⟩
  · rcases h a ha (hsame.queueRef.symm.trans hqueue) with hplace | ⟨firing, hf, hurl⟩
    · exact Or.inl (isPlaceholder_of_continues hsame hplace)
    · exact Or.inr ⟨firing, hf, hsame.url.trans hurl⟩
  · exact Or.inl hplace
  · refine absurd ?_ hfile
    unfold Store.Call.filings at hfiled
    cases operation with
    | enqueue freshName new =>
      dsimp only [call] at hfiled
      split at hfiled
      · rw [List.mem_singleton.1 hfiled] at hqueue
        exact congrArg QueueRef.name hqueue
      · cases hfiled
    | _ => cases hfiled

theorem Orderly.onlyFired_step (ho : scene.Orderly jobs) (hjobs : Workable jobs)
    (halone : ∀ other ∈ jobs, other.queue = job.queue → other = job)
    (hfile : ¬ act.Enqueues job.queue) (h : OnlyFired job firings scene.store) :
    OnlyFired job (firings ++ scene.fired act) (scene.step jobs act).store := by
  rcases ho.act_cases hjobs act with ⟨hfired, hsame⟩ | ⟨clock, operation, rfl⟩ |
    ⟨other, hother, clock, now, occurrence, hfires, hone⟩
  · rw [hfired, hsame, List.append_nil]
    exact h
  · rw [show scene.fired (.operate clock operation) = [] from rfl, List.append_nil]
    exact onlyFired_operate h ho.sound hfile
  · intro item hi hqueue
    rw [(hfires.sound ho.sound).2] at hqueue
    rcases hfires.held ho.sound (hjobs.urls other hother) hi with hold | ⟨id, at_, rfl⟩
    · refine (h item hold hqueue).imp_right ?_
      rintro ⟨firing, hf, hurl⟩
      obtain ⟨hmem, hjob⟩ := mem_firingsOf.1 hf
      exact ⟨firing, mem_firingsOf.2 ⟨List.mem_append_left _ hmem, hjob⟩, hurl⟩
    · obtain rfl := halone other hother (congrArg QueueRef.name hqueue)
      rw [hone]
      exact Or.inr ⟨_, mem_firingsOf.2 ⟨List.mem_append_right _ List.mem_cons_self, rfl⟩, rfl⟩

theorem Orderly.onlyFired_after (ho : scene.Orderly jobs) (hjobs : Workable jobs)
    (halone : ∀ other ∈ jobs, other.queue = job.queue → other = job) {acts : List Act}
    (hacts : ∀ act ∈ acts, ¬ act.Clears) (hfile : ∀ act ∈ acts, ¬ act.Enqueues job.queue)
    (h : OnlyFired job firings scene.store) :
    OnlyFired job (firings ++ scene.firings jobs acts) (scene.after jobs acts).store := by
  induction acts generalizing scene firings with
  | nil =>
    show OnlyFired job (firings ++ []) scene.store
    rw [List.append_nil]
    exact h
  | cons act rest ih =>
    obtain ⟨hact, hacts⟩ := List.forall_mem_cons.1 hacts
    obtain ⟨hother, hfile⟩ := List.forall_mem_cons.1 hfile
    have hstep := ho.onlyFired_step hjobs halone hother h
    have hrest := ih (ho.step hjobs hact) hacts hfile hstep
    rw [List.append_assoc] at hrest
    exact hrest

/-- A firing files one new item, if nothing but the firings of the job files in its queue. -/
theorem Orderly.fires_creating (ho : scene.Orderly jobs) (hjobs : Workable jobs)
    (hjob : job ∈ jobs) (hmark : Job.occurrenceMark <:+: job.url.toList)
    (halone : ∀ other ∈ jobs, other.queue = job.queue → other = job) {acts : List Act}
    (hacts : ∀ act ∈ acts, ¬ act.Clears) (hfile : ∀ act ∈ acts, ¬ act.Enqueues job.queue)
    (h : OnlyFired job [] scene.store) {firing : Firing}
    (hfiring : firing ∈ (scene.after jobs acts).fired act) (hof : firing.job = job) :
    let now := (scene.after jobs acts).store
    let later := ((scene.after jobs acts).step jobs act).store
    let queue := job.queueRef scene.store.sharding
    ∃ before item, now.pending queue = .ok before ∧ later.pending queue = .ok (before ++ [item]) ∧
      item.url = job.urlFor firing.occurrence ∧
      later.pendingIds.Perm (now.pendingIds ++ [item.id]) := by
  intro now later queue
  have hafter := ho.after hjobs hacts
  have hsharding : now.sharding = scene.store.sharding := ho.sharding_after hjobs hacts
  have hsame : queue = job.queueRef now.sharding := by rw [hsharding]
  have hall : ∀ other ∈ acts ++ [act], ¬ other.Clears := fun other hm =>
    (List.mem_append.1 hm).elim (hacts other) fun hm =>
      List.mem_singleton.1 hm ▸ not_clears_of_fired hfiring
  have hchained := ho.chained hjobs hjob hall
  have hsplit : firingsOf job (scene.firings jobs (acts ++ [act])) =
      firingsOf job (scene.firings jobs acts) ++
        firingsOf job ((scene.after jobs acts).fired act) := by
    rw [firings_append]
    exact (List.filter_append ..).trans (by rw [show (scene.after jobs acts).firings jobs [act] =
      (scene.after jobs acts).fired act ++ [] from rfl, List.append_nil]; rfl)
  rw [hsplit] at hchained
  have hlater : firing ∈ firingsOf job ((scene.after jobs acts).fired act) :=
    mem_firingsOf.2 ⟨hfiring, hof⟩
  rcases hafter.act_cases hjobs act with
    ⟨hnone, -⟩ | ⟨clock, operation, rfl⟩ | ⟨other, -, clock, at_, occurrence, hfires, hone⟩
  · rw [hnone] at hfiring
    cases hfiring
  · cases hfiring
  rw [hone] at hfiring
  obtain rfl := List.mem_singleton.1 hfiring
  obtain rfl : other = job := hof
  rw [hsame]
  refine hfires.creates hafter.sound (hjobs.urls other hjob) fun item hi hqueue hurl => ?_
  -- an item of that URL came of an earlier firing, for the same second: but occurrences ascend
  have honly := ho.onlyFired_after hjobs halone hacts hfile h
  rcases honly item hi hqueue with hplace | ⟨earlier, he, hearlier⟩
  · -- a placeholder has no URL, and what is fired has one
    have hempty : item.url = "" := of_decide_eq_true hplace
    exact Job.urlFor_ne_empty (hjobs.urls other hjob) occurrence (hurl.symm.trans hempty)
  · rw [List.nil_append] at he
    obtain ⟨a, ha⟩ := hchained.isSecond earlier (List.mem_append_left _ he)
    obtain ⟨b, hb⟩ := hchained.isSecond _ (List.mem_append_right _ hlater)
    have hlt := ((List.pairwise_append.1 hchained.pairwise).2.2 earlier he _ hlater).1
    rw [ha] at hearlier hlt
    dsimp only at hb hlt
    rw [hb] at hurl hlt
    rw [Job.urlFor_injective hmark (hearlier.symm.trans hurl)] at hlt
    exact absurd hlt (Int.lt_irrefl _)

/-- A queue in which nothing was ever filed holds placeholders only. -/
theorem onlyFired_reached {sharding : Sharding} {calls : List (Store.Call sharding)}
    (hunused : Store.told (Store.Call.filed (job.queueRef sharding)) (.empty sharding) calls = []) :
    OnlyFired job [] (Store.reached calls) := by
  have hstart := Store.Sound.empty sharding
  intro item hi hqueue
  rw [(Store.reached_sound calls).2] at hqueue
  rcases Store.held_after hstart rfl hi with ⟨a, ha, -⟩ | ⟨-, hplace | ⟨filed, hf, hsame⟩⟩
  · rw [Store.held_empty] at ha
    cases ha
  · exact Or.inl hplace
  · refine Or.inl (isPlaceholder_of_continues hsame ?_)
    have hnone : numbersIn (job.queueRef sharding)
        (Store.told Store.Call.filings (Store.empty sharding) calls) = [] :=
      (Store.numbersIn_filings hstart rfl calls _).trans hunused
    by_contra hreal
    have hnumber := List.filter_eq_nil_iff.1 (List.map_eq_nil_iff.1 hnone) filed hf
    refine hnumber (decide_eq_true ⟨hsame.queueRef.symm.trans hqueue, ?_⟩)
    exact Bool.eq_false_iff.2 hreal

end Scene

/-- Validated jobs can be worked, as long as the search for their occurrences advances; which time
    zones and domain names are known makes no difference. -/
theorem workable_of_ofConfigs {registry : Registry} {configs : List JobConfig} {jobs : List Job}
    (hvalid : Job.ofConfigs configs registry = .ok jobs) (hsearch : ∀ job ∈ jobs, job.Advances) :
    Workable jobs := by
  obtain ⟨hnames, hspec⟩ := Job.ofConfigs_spec hvalid
  exact ⟨hnames, fun job hj => (hspec job hj).1, hsearch⟩

/-- Take any number of workers with the same jobs, whose ticks interleave with one another and with
    whatever else is asked of the store, a clear apart, each tick by a clock of its own.  If no two
    of the jobs have one name, each has a URL, and the search for its occurrences answers with a
    later instant than the one it is given, then no tick fails; the firings of a job follow one
    another, each for the occurrence that lies between the last run and the new one, so occurrences
    and runs ascend; once a tick has returned, a tick that begins later at an instant not after its
    own fires nothing and changes nothing; and if the URL of a job has the mark and nothing else
    files in its queue, every firing files one new item. -/
theorem fires_each_occurrence_once {jobs : List Job} (hjobs : Workable jobs)
    {sharding : Sharding} (calls : List (Store.Call sharding)) {acts : List Act}
    (hacts : ∀ act ∈ acts, ¬ act.Clears) :
    let start : Scene := ⟨Store.reached calls, []⟩
    let scene := start.after jobs acts
    (∀ tick ∈ scene.ticks, ∃ count, tick.answer = .ok count) ∧
    (∀ job ∈ jobs,
      let firings := Scene.firingsOf job (start.firings jobs acts)
      Chained job (lastRun start.store.jobs job) firings ∧
        firings.Pairwise fun a b => a.occurrence < b.occurrence ∧ a.at_ < b.at_) ∧
    (∀ tick ∈ scene.ticks, tick.left = [] → ∀ now, now ≤ tick.now →
      ∀ more : List Act, (∀ act ∈ more, ¬ act.Clears) → ∀ clock,
        let later := (scene.step jobs (.begin_ now)).after jobs more
        later.fired (.judge scene.ticks.length clock) = [] ∧
          (later.step jobs (.judge scene.ticks.length clock)).store = later.store) ∧
    ∀ job ∈ jobs, Job.occurrenceMark <:+: job.url.toList →
      (∀ other ∈ jobs, other.queue = job.queue → other = job) →
      (∀ act ∈ acts, ¬ act.Enqueues job.queue) →
      Store.told (Store.Call.filed (job.queueRef sharding)) (.empty sharding) calls = [] →
      ∀ act, ∀ firing ∈ scene.fired act, firing.job = job →
        let later := (scene.step jobs act).store
        ∃ before item, scene.store.pending (job.queueRef sharding) = .ok before ∧
          later.pending (job.queueRef sharding) = .ok (before ++ [item]) ∧
          item.url = job.urlFor firing.occurrence ∧
          later.pendingIds.Perm (scene.store.pendingIds ++ [item.id]) := by
  intro start scene
  obtain ⟨hsound, hsharding⟩ := Store.reached_sound calls
  have hstart : start.Orderly jobs := .start hsound jobs
  have hscene : scene.Orderly jobs := hstart.after hjobs hacts
  refine ⟨hscene.answered, fun job hj => ?_, ?_, ?_⟩
  · have hchained := hstart.chained hjobs hj hacts
    exact ⟨hchained, hchained.pairwise⟩
  · intro tick ht hreturned now hnow more hmore clock
    exact hscene.quiet_after_return hjobs ht hreturned hnow hmore clock
  · intro job hj hmark halone hfile hunused act firing hf hof
    have hcreates := hstart.fires_creating hjobs hj hmark halone hacts hfile
      (Scene.onlyFired_reached hunused) hf hof
    rw [show start.store.sharding = sharding from hsharding] at hcreates
    exact hcreates

/-- A job that is due every second. -/
def everySecond : JobConfig where
  name := "tick"
  url := "http://localhost/tick?at=\x7b0\x7d"
  schedule := "* * * * * *"

def everySecondJob : Job where
  name := "tick"
  url := "http://localhost/tick?at=\x7b0\x7d"
  queue := "tick"
  schedule := {
    seconds := FieldKind.seconds.all
    minutes := FieldKind.minutes.all
    hours := FieldKind.hours.all
    days := FieldKind.days.all
    months := FieldKind.months.all
    weekdays := FieldKind.weekdays.all
    years := FieldKind.years.all }
  zone := .utc

/-- Two workers read the table at once and judge by it one after the other; in between the item is
    handed out.  A third one begins by a clock that is behind, and then the first one once more. -/
def twoWorkers : List Act :=
  [.begin_ (.ofSeconds 1000), .begin_ (.ofSeconds 1001), .judge 0 { origin := .ofSeconds 1000 },
   .operate { origin := .ofSeconds 1000 } (.next ⟨0, 1⟩), .judge 1 { origin := .ofSeconds 1001 },
   .begin_ (.ofSeconds 999), .judge 2 { origin := .ofSeconds 999 }, .begin_ (.ofSeconds 1003)]

theorem fires_each_occurrence_once_by_two_workers :
    let start : Scene := ⟨Store.reached ([] : List (Store.Call .single)), []⟩
    let scene := start.after [everySecondJob] twoWorkers
    let last : Act := .judge 3 { origin := .ofSeconds 1003 }
    let queue := everySecondJob.queueRef .single
    Job.ofConfigs [everySecond] .builtin = .ok [everySecondJob] ∧
    Workable [everySecondJob] ∧
    (∀ job ∈ [everySecondJob], job.Advances) ∧
    (∀ act ∈ twoWorkers, ¬ act.Clears) ∧
    start.firings [everySecondJob] twoWorkers =
      [⟨everySecondJob, .epoch, .ofSeconds 1, .ofSeconds 1000⟩] ∧
    scene.fired last = [⟨everySecondJob, .ofSeconds 1000, .ofSeconds 1001, .ofSeconds 1003⟩] ∧
    ∃ before item, scene.store.pending queue = .ok before ∧
      (scene.step [everySecondJob] last).store.pending queue = .ok (before ++ [item]) ∧
      item.url = "http://localhost/tick?at=1970-01-01T00:16:41Z" := by
  intro start scene last queue
  have hvalid : Job.ofConfigs [everySecond] .builtin = .ok [everySecondJob] := by decide +kernel
  have hsearch : ∀ job ∈ [everySecondJob], job.Advances := by
    intro job hj at_ occurrence hnext
    obtain ⟨-, hfits⟩ := (Job.ofConfigs_spec hvalid).2 job hj
    rw [List.mem_singleton.1 hj] at hnext hfits
    exact Schedule.lt_next_of_fixed hfits hnext
  have hjobs : Workable [everySecondJob] := workable_of_ofConfigs hvalid hsearch
  have hacts : ∀ act ∈ twoWorkers, ¬ act.Clears := by
    simp [twoWorkers, Act.Clears]
  have hfile : ∀ act ∈ twoWorkers, ¬ act.Enqueues everySecondJob.queue := by
    simp [twoWorkers, Act.Enqueues]
  have hlast : scene.fired last =
      [⟨everySecondJob, .ofSeconds 1000, .ofSeconds 1001, .ofSeconds 1003⟩] := by decide +kernel
  obtain ⟨-, -, -, hcreates⟩ :=
    fires_each_occurrence_once hjobs ([] : List (Store.Call .single)) hacts
  have hmark : Job.occurrenceMark <:+: everySecondJob.url.toList :=
    ⟨"http://localhost/tick?at=".toList, [], by decide +kernel⟩
  obtain ⟨before, item, hbefore, hafter, hurl, -⟩ :=
    hcreates everySecondJob List.mem_cons_self hmark
      (fun other ho _ => List.mem_singleton.1 ho) hfile rfl last
      ⟨everySecondJob, .ofSeconds 1000, .ofSeconds 1001, .ofSeconds 1003⟩
      (hlast ▸ List.mem_cons_self) rfl
  have htext : everySecondJob.urlFor (.ofSeconds 1001) =
      "http://localhost/tick?at=1970-01-01T00:16:41Z" := by decide +kernel
  exact ⟨hvalid, hjobs, hsearch, hacts, by decide +kernel, hlast, before, item, hbefore, hafter,
    hurl.trans htext⟩

end Courier.Cron
