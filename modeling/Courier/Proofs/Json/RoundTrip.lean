/-
  Courier/Proofs/Json/RoundTrip.lean
  ==================================
  **What is written as JSON is read back.**

  Every type of the data model comes with a writer and a reader.  A value goes through
  both unchanged if its numbers fit their widths (`Sized`) and its instants lie in
  years of four digits (`Dated`).  A reader takes more than its writer makes: members
  in any order and besides others, arrays, other spellings of the same instant.  But
  it checks every number (`sized_of_ofJson?`), so what it has read can be written and
  read again, and stays the same.  `json_round_trips` says this of all the types.

  A record is written under the names under which its reader looks for members, and
  these differ from one another: `Json.members?_record`.
-/
import Courier.Json.Model
import Courier.Proofs.Time.Rfc3339

namespace Courier

open Courier.Text Courier.Time

/-! ### Members of records -/

namespace Json

theorem map_member_zip {names : List String} {values : List Json} (hn : names.Nodup)
    (h : values.length = names.length) : names.map (member · (names.zip values)) = values := by
  induction names generalizing values with
  | nil => simpa using (List.length_eq_zero_iff.1 h).symm
  | cons name rest ih =>
    cases values with
    | nil => simp at h
    | cons value values =>
      rw [List.nodup_cons] at hn
      have hrest : ∀ other ∈ rest,
          member other ((name, value) :: rest.zip values) = member other (rest.zip values) := by
        intro other hother
        have hne : name ≠ other := fun heq => hn.1 (heq ▸ hother)
        simp [member, hne]
      simp only [List.zip_cons_cons, List.map_cons]
      rw [List.map_congr_left hrest, ih hn.2 (by simpa using h)]
      simp [member]

/-- A record that was written under its names is taken apart again. -/
theorem members?_record (names : List String) (values : List Json) (hn : names.Nodup)
    (h : values.length = names.length) : (obj (names.zip values)).members? names = some values :=
  congrArg some (map_member_zip hn h)

/-! ### Values of members -/

theorem intIn?_int {range : IntegerRange} {n : Int} (h : range.Contains n) :
    (int n).intIn? range = some n := if_pos h

theorem contains_of_intIn? {range : IntegerRange} {j : Json} {n : Int}
    (h : j.intIn? range = some n) : range.Contains n := by
  unfold intIn? at h
  split at h
  · split at h
    · cases h
      assumption
    · cases h
  · cases h

theorem instant?_ofInstant {t : Instant} (h : t.InFourDigitYear) :
    (ofInstant t).instant? = some t := Instant.ofText?_toText h

/-- A value that may be absent is read back if what it is when present is read back, and is not
    written as `null`. -/
theorem option?_ofOption {α : Type} {write : α → Json} {read : Json → Option α} {a : Option α}
    (h : ∀ x ∈ a, read (write x) = some x ∧ write x ≠ .null) :
    (ofOption write a).option? read = some a := by
  cases a with
  | none => rfl
  | some x =>
    obtain ⟨hread, hnull⟩ := h x rfl
    unfold option? ofOption
    split
    · contradiction
    · rw [hread]
      rfl

theorem option?_ofOption_str (a : Option String) : (ofOption str a).option? str? = some a :=
  option?_ofOption fun _ _ => ⟨rfl, nofun⟩

theorem option?_ofOption_instant {a : Option Instant} (h : ∀ t ∈ a, t.InFourDigitYear) :
    (ofOption ofInstant a).option? instant? = some a :=
  option?_ofOption fun t ht => ⟨instant?_ofInstant (h t ht), nofun⟩

end Json

theorem mapM_map_of_forall {α β : Type} (write : α → β) (read : β → Option α) {as : List α}
    (h : ∀ a ∈ as, read (write a) = some a) : (as.map write).mapM read = some as := by
  induction as with
  | nil => rfl
  | cons a rest ih =>
    rw [List.map_cons, List.mapM_cons, h a List.mem_cons_self,
      ih fun b hb => h b (List.mem_cons_of_mem a hb)]
    rfl

theorem forall_of_mapM {α β : Type} {read : β → Option α} {P : α → Prop}
    (h : ∀ b a, read b = some a → P a) {bs : List β} {as : List α}
    (hread : bs.mapM read = some as) : ∀ a ∈ as, P a := by
  induction bs generalizing as with
  | nil =>
    cases hread
    simp
  | cons b rest ih =>
    rw [List.mapM_cons] at hread
    obtain ⟨a, ha, hread⟩ := Option.bind_eq_some_iff.1 hread
    obtain ⟨others, hothers, hread⟩ := Option.bind_eq_some_iff.1 hread
    cases hread
    intro c hc
    rcases List.mem_cons.1 hc with rfl | hc
    · exact h b c ha
    · exact ih hothers c hc

/-! ### Shards and queues -/

/-- A number of an item that fits 64 bits. -/
def WorkItemId.Sized (id : WorkItemId) : Prop := (IntegerRange.signed 64).Contains id

theorem WorkItemId.sized_of_ofJson? {j : Json} {id : WorkItemId} (h : ofJson? j = some id) :
    id.Sized := Json.contains_of_intIn? h

namespace Shard

def Sized (s : Shard) : Prop :=
  (IntegerRange.signed 16).Contains s.index ∧ (IntegerRange.signed 16).Contains s.count

theorem ofJson?_toJson {s : Shard} (h : s.Sized) : ofJson? s.toJson = some s := by
  have hmembers := Json.members?_record ["index", "max_shards"]
    [.int s.index, .int s.count] (by decide) rfl
  unfold ofJson? toJson
  refine Option.bind_eq_some_iff.2 ⟨_, hmembers, ?_⟩
  refine Option.bind_eq_some_iff.2 ⟨_, Json.intIn?_int h.1, ?_⟩
  exact Option.bind_eq_some_iff.2 ⟨_, Json.intIn?_int h.2, rfl⟩

theorem sized_of_ofJson? {j : Json} {s : Shard} (h : ofJson? j = some s) : s.Sized := by
  unfold ofJson? at h
  obtain ⟨values, -, h⟩ := Option.bind_eq_some_iff.1 h
  split at h
  · obtain ⟨index, hindex, h⟩ := Option.bind_eq_some_iff.1 h
    obtain ⟨count, hcount, h⟩ := Option.bind_eq_some_iff.1 h
    cases h
    exact ⟨Json.contains_of_intIn? hindex, Json.contains_of_intIn? hcount⟩
  · cases h

end Shard

namespace QueueRef

def Sized (q : QueueRef) : Prop := q.shard.Sized

theorem ofJson?_toJson {q : QueueRef} (h : q.Sized) : ofJson? q.toJson = some q := by
  have hmembers := Json.members?_record ["name", "shard"]
    [.str q.name, q.shard.toJson] (by decide) rfl
  unfold ofJson? toJson
  refine Option.bind_eq_some_iff.2 ⟨_, hmembers, ?_⟩
  refine Option.bind_eq_some_iff.2 ⟨_, rfl, ?_⟩
  exact Option.bind_eq_some_iff.2 ⟨_, Shard.ofJson?_toJson h, rfl⟩

theorem sized_of_ofJson? {j : Json} {q : QueueRef} (h : ofJson? j = some q) : q.Sized := by
  unfold ofJson? at h
  obtain ⟨values, -, h⟩ := Option.bind_eq_some_iff.1 h
  split at h
  · obtain ⟨name, -, h⟩ := Option.bind_eq_some_iff.1 h
    obtain ⟨shard, hshard, h⟩ := Option.bind_eq_some_iff.1 h
    cases h
    exact Shard.sized_of_ofJson? hshard
  · cases h

end QueueRef

namespace Blocking

def Sized (b : Blocking) : Prop := ∀ target ∈ b.target?, target.Sized

theorem ofJson?_toJson {b : Blocking} (h : b.Sized) : ofJson? b.toJson = some b := by
  cases b with
  | none => rfl
  | queue target => simp [ofJson?, toJson, QueueRef.ofJson?_toJson (h target rfl)]

theorem sized_of_ofJson? {j : Json} {b : Blocking} (h : ofJson? j = some b) : b.Sized := by
  intro target ht
  unfold ofJson? at h
  split at h
  · cases h
    cases ht
  · cases h
    cases ht
  · obtain ⟨q, hq, rfl⟩ := Option.map_eq_some_iff.1 h
    cases ht
    exact QueueRef.sized_of_ofJson? hq
  · cases h

end Blocking

/-! ### Items -/

namespace WorkItem

def Sized (w : WorkItem) : Prop :=
  WorkItemId.Sized w.id ∧ w.shard.Sized ∧ w.blocking.Sized

def Dated (w : WorkItem) : Prop :=
  w.createdAt.InFourDigitYear ∧ ∀ t ∈ w.lastAttemptedAt, t.InFourDigitYear

theorem ofJson?_toJson {w : WorkItem} (hs : w.Sized) (hd : w.Dated) :
    ofJson? w.toJson = some w := by
  obtain ⟨hid, hshard, hblocking⟩ := hs
  obtain ⟨hcreated, hattempted⟩ := hd
  have hmembers := Json.members?_record memberNames
    [.int w.id, w.shard.toJson, .str w.url, .str w.queueName, .ofOption .str w.debugInfo,
      .ofInstant w.createdAt, .ofOption .ofInstant w.lastAttemptedAt, .bool w.isIngested,
      .ofOption .str w.internal, w.blocking.toJson, .ofOption .str w.lockWhenComplete]
    (by decide) rfl
  unfold ofJson? toJson
  refine Option.bind_eq_some_iff.2 ⟨_, hmembers, ?_⟩
  refine Option.bind_eq_some_iff.2 ⟨_, Json.intIn?_int hid, ?_⟩
  refine Option.bind_eq_some_iff.2 ⟨_, Shard.ofJson?_toJson hshard, ?_⟩
  refine Option.bind_eq_some_iff.2 ⟨_, rfl, ?_⟩
  refine Option.bind_eq_some_iff.2 ⟨_, rfl, ?_⟩
  refine Option.bind_eq_some_iff.2 ⟨_, Json.option?_ofOption_str _, ?_⟩
  refine Option.bind_eq_some_iff.2 ⟨_, Json.instant?_ofInstant hcreated, ?_⟩
  refine Option.bind_eq_some_iff.2 ⟨_, Json.option?_ofOption_instant hattempted, ?_⟩
  refine Option.bind_eq_some_iff.2 ⟨_, rfl, ?_⟩
  refine Option.bind_eq_some_iff.2 ⟨_, Json.option?_ofOption_str _, ?_⟩
  refine Option.bind_eq_some_iff.2 ⟨_, Blocking.ofJson?_toJson hblocking, ?_⟩
  exact Option.bind_eq_some_iff.2 ⟨_, Json.option?_ofOption_str _, rfl⟩

theorem sized_of_ofJson? {j : Json} {w : WorkItem} (h : ofJson? j = some w) : w.Sized := by
  unfold ofJson? at h
  obtain ⟨values, -, h⟩ := Option.bind_eq_some_iff.1 h
  split at h
  · obtain ⟨id, hid, h⟩ := Option.bind_eq_some_iff.1 h
    obtain ⟨shard, hshard, h⟩ := Option.bind_eq_some_iff.1 h
    obtain ⟨url, -, h⟩ := Option.bind_eq_some_iff.1 h
    obtain ⟨queueName, -, h⟩ := Option.bind_eq_some_iff.1 h
    obtain ⟨debugInfo, -, h⟩ := Option.bind_eq_some_iff.1 h
    obtain ⟨createdAt, -, h⟩ := Option.bind_eq_some_iff.1 h
    obtain ⟨lastAttemptedAt, -, h⟩ := Option.bind_eq_some_iff.1 h
    obtain ⟨isIngested, -, h⟩ := Option.bind_eq_some_iff.1 h
    obtain ⟨internal, -, h⟩ := Option.bind_eq_some_iff.1 h
    obtain ⟨blocking, hblocking, h⟩ := Option.bind_eq_some_iff.1 h
    obtain ⟨lock, -, h⟩ := Option.bind_eq_some_iff.1 h
    cases h
    exact ⟨WorkItemId.sized_of_ofJson? hid, Shard.sized_of_ofJson? hshard,
      Blocking.sized_of_ofJson? hblocking⟩
  · cases h

end WorkItem

namespace CompletedItem

def Sized (c : CompletedItem) : Prop := c.item.Sized

def Dated (c : CompletedItem) : Prop := c.item.Dated ∧ c.completedAt.InFourDigitYear

theorem ofJson?_toJson {c : CompletedItem} (hs : c.Sized) (hd : c.Dated) :
    ofJson? c.toJson = some c := by
  have hmembers := Json.members?_record ["item", "completed_at"]
    [c.item.toJson, .ofInstant c.completedAt] (by decide) rfl
  unfold ofJson? toJson
  refine Option.bind_eq_some_iff.2 ⟨_, hmembers, ?_⟩
  refine Option.bind_eq_some_iff.2 ⟨_, WorkItem.ofJson?_toJson hs hd.1, ?_⟩
  exact Option.bind_eq_some_iff.2 ⟨_, Json.instant?_ofInstant hd.2, rfl⟩

theorem sized_of_ofJson? {j : Json} {c : CompletedItem} (h : ofJson? j = some c) : c.Sized := by
  unfold ofJson? at h
  obtain ⟨values, -, h⟩ := Option.bind_eq_some_iff.1 h
  split at h
  · obtain ⟨item, hitem, h⟩ := Option.bind_eq_some_iff.1 h
    obtain ⟨completedAt, -, h⟩ := Option.bind_eq_some_iff.1 h
    cases h
    exact WorkItem.sized_of_ofJson? hitem
  · cases h

end CompletedItem

/-! ### Queues and blocks -/

namespace BlockToken

def Sized (t : BlockToken) : Prop := WorkItemId.Sized t.workItemId ∧ t.shard.Sized

theorem ofJson?_toJson {t : BlockToken} (h : t.Sized) : ofJson? t.toJson = some t := by
  have hmembers := Json.members?_record ["work_item_id", "shard"]
    [.int t.workItemId, t.shard.toJson] (by decide) rfl
  unfold ofJson? toJson
  refine Option.bind_eq_some_iff.2 ⟨_, hmembers, ?_⟩
  refine Option.bind_eq_some_iff.2 ⟨_, Json.intIn?_int h.1, ?_⟩
  exact Option.bind_eq_some_iff.2 ⟨_, Shard.ofJson?_toJson h.2, rfl⟩

theorem sized_of_ofJson? {j : Json} {t : BlockToken} (h : ofJson? j = some t) : t.Sized := by
  unfold ofJson? at h
  obtain ⟨values, -, h⟩ := Option.bind_eq_some_iff.1 h
  split at h
  · obtain ⟨id, hid, h⟩ := Option.bind_eq_some_iff.1 h
    obtain ⟨shard, hshard, h⟩ := Option.bind_eq_some_iff.1 h
    cases h
    exact ⟨WorkItemId.sized_of_ofJson? hid, Shard.sized_of_ofJson? hshard⟩
  · cases h

end BlockToken

namespace QueueState

def Sized (q : QueueState) : Prop :=
  q.shard.Sized ∧ WorkItemId.Sized q.head ∧ (IntegerRange.signed 32).Contains q.errorCount
    ∧ ∀ token ∈ q.blockedBy, token.Sized

def Dated (q : QueueState) : Prop := q.lockedUntil.InFourDigitYear

theorem ofJson?_toJson {q : QueueState} (hs : q.Sized) (hd : q.Dated) :
    ofJson? q.toJson = some q := by
  obtain ⟨hshard, hhead, herrors, htokens⟩ := hs
  have hmembers := Json.members?_record memberNames
    [q.shard.toJson, .str q.name, .int q.head, .int q.errorCount, .ofInstant q.lockedUntil,
      .bool q.isPaused, .ofOption .str q.externalLock, .ofList BlockToken.toJson q.blockedBy]
    (by decide) rfl
  have hblocked := mapM_map_of_forall BlockToken.toJson BlockToken.ofJson?
    fun token ht => BlockToken.ofJson?_toJson (htokens token ht)
  unfold ofJson? toJson
  refine Option.bind_eq_some_iff.2 ⟨_, hmembers, ?_⟩
  refine Option.bind_eq_some_iff.2 ⟨_, Shard.ofJson?_toJson hshard, ?_⟩
  refine Option.bind_eq_some_iff.2 ⟨_, rfl, ?_⟩
  refine Option.bind_eq_some_iff.2 ⟨_, Json.intIn?_int hhead, ?_⟩
  refine Option.bind_eq_some_iff.2 ⟨_, Json.intIn?_int herrors, ?_⟩
  refine Option.bind_eq_some_iff.2 ⟨_, Json.instant?_ofInstant hd, ?_⟩
  refine Option.bind_eq_some_iff.2 ⟨_, rfl, ?_⟩
  refine Option.bind_eq_some_iff.2 ⟨_, Json.option?_ofOption_str _, ?_⟩
  refine Option.bind_eq_some_iff.2 ⟨_, rfl, ?_⟩
  exact Option.bind_eq_some_iff.2 ⟨_, hblocked, rfl⟩

theorem sized_of_ofJson? {j : Json} {q : QueueState} (h : ofJson? j = some q) : q.Sized := by
  unfold ofJson? at h
  obtain ⟨values, -, h⟩ := Option.bind_eq_some_iff.1 h
  split at h
  · obtain ⟨shard, hshard, h⟩ := Option.bind_eq_some_iff.1 h
    obtain ⟨name, -, h⟩ := Option.bind_eq_some_iff.1 h
    obtain ⟨head, hhead, h⟩ := Option.bind_eq_some_iff.1 h
    obtain ⟨errorCount, herrors, h⟩ := Option.bind_eq_some_iff.1 h
    obtain ⟨lockedUntil, -, h⟩ := Option.bind_eq_some_iff.1 h
    obtain ⟨isPaused, -, h⟩ := Option.bind_eq_some_iff.1 h
    obtain ⟨lock, -, h⟩ := Option.bind_eq_some_iff.1 h
    obtain ⟨items, -, h⟩ := Option.bind_eq_some_iff.1 h
    obtain ⟨tokens, htokens, h⟩ := Option.bind_eq_some_iff.1 h
    cases h
    exact ⟨Shard.sized_of_ofJson? hshard, WorkItemId.sized_of_ofJson? hhead,
      Json.contains_of_intIn? herrors,
      forall_of_mapM (fun _ _ => BlockToken.sized_of_ofJson?) htokens⟩
  · cases h

end QueueState

namespace BlockingMessage

def Sized (m : BlockingMessage) : Prop := m.target.Sized ∧ m.token.Sized

theorem ofJson?_toJson {m : BlockingMessage} (h : m.Sized) : ofJson? m.toJson = some m := by
  have hmembers := Json.members?_record ["target", "is_creating_block", "token"]
    [m.target.toJson, .bool m.isCreatingBlock, m.token.toJson] (by decide) rfl
  unfold ofJson? toJson
  refine Option.bind_eq_some_iff.2 ⟨_, hmembers, ?_⟩
  refine Option.bind_eq_some_iff.2 ⟨_, QueueRef.ofJson?_toJson h.1, ?_⟩
  refine Option.bind_eq_some_iff.2 ⟨_, rfl, ?_⟩
  exact Option.bind_eq_some_iff.2 ⟨_, BlockToken.ofJson?_toJson h.2, rfl⟩

theorem sized_of_ofJson? {j : Json} {m : BlockingMessage} (h : ofJson? j = some m) :
    m.Sized := by
  unfold ofJson? at h
  obtain ⟨values, -, h⟩ := Option.bind_eq_some_iff.1 h
  split at h
  · obtain ⟨target, htarget, h⟩ := Option.bind_eq_some_iff.1 h
    obtain ⟨creating, -, h⟩ := Option.bind_eq_some_iff.1 h
    obtain ⟨token, htoken, h⟩ := Option.bind_eq_some_iff.1 h
    cases h
    exact ⟨QueueRef.sized_of_ofJson? htarget, BlockToken.sized_of_ofJson? htoken⟩
  · cases h

end BlockingMessage

/-! ### Scheduled jobs -/

namespace JobRecord

def Dated (r : JobRecord) : Prop := r.lastRanAt.InFourDigitYear

theorem ofJson?_toJson {r : JobRecord} (h : r.Dated) : ofJson? r.toJson = some r := by
  have hmembers := Json.members?_record ["name", "last_ran_at", "active"]
    [.str r.name, .ofInstant r.lastRanAt, .bool r.active] (by decide) rfl
  unfold ofJson? toJson
  refine Option.bind_eq_some_iff.2 ⟨_, hmembers, ?_⟩
  refine Option.bind_eq_some_iff.2 ⟨_, rfl, ?_⟩
  refine Option.bind_eq_some_iff.2 ⟨_, Json.instant?_ofInstant h, ?_⟩
  exact Option.bind_eq_some_iff.2 ⟨_, rfl, rfl⟩

/-- The members may stand in any order and among others, and the instant at any offset. -/
example :
    ofJson? (.obj [("active", .bool true), ("note", .null), ("name", .str "nightly"),
      ("last_ran_at", .str "2024-01-31t14:05:00.25+01:00")]) =
    ofJson? (.arr [.str "nightly", .str "2024-01-31T13:05:00.250Z", .bool true]) := by
  decide +kernel

end JobRecord

/-! ### The data model -/

/-- What is written of a value is read back as the value; and so it is if the value was itself
    read, in whatever form it was given. -/
structure RoundTrips {α : Type} (write : α → Json) (read : Json → Option α)
    (Sized Dated : α → Prop) : Prop where
  read_write (a : α) : Sized a → Dated a → read (write a) = some a
  read_again (j : Json) (a : α) : read j = some a → Dated a → read (write a) = some a

theorem RoundTrips.of_sized {α : Type} {write : α → Json} {read : Json → Option α}
    {Sized Dated : α → Prop} (hwrite : ∀ {a}, Sized a → Dated a → read (write a) = some a)
    (hread : ∀ {j a}, read j = some a → Sized a) : RoundTrips write read Sized Dated where
  read_write _ := hwrite
  read_again _ _ h := hwrite (hread h)

theorem json_round_trips :
    RoundTrips Json.int WorkItemId.ofJson? WorkItemId.Sized (fun _ => True) ∧
      RoundTrips Shard.toJson Shard.ofJson? Shard.Sized (fun _ => True) ∧
      RoundTrips QueueRef.toJson QueueRef.ofJson? QueueRef.Sized (fun _ => True) ∧
      RoundTrips Blocking.toJson Blocking.ofJson? Blocking.Sized (fun _ => True) ∧
      RoundTrips WorkItem.toJson WorkItem.ofJson? WorkItem.Sized WorkItem.Dated ∧
      RoundTrips CompletedItem.toJson CompletedItem.ofJson? CompletedItem.Sized
        CompletedItem.Dated ∧
      RoundTrips BlockToken.toJson BlockToken.ofJson? BlockToken.Sized (fun _ => True) ∧
      RoundTrips QueueState.toJson QueueState.ofJson? QueueState.Sized QueueState.Dated ∧
      RoundTrips BlockingMessage.toJson BlockingMessage.ofJson? BlockingMessage.Sized
        (fun _ => True) ∧
      RoundTrips JobRecord.toJson JobRecord.ofJson? (fun _ => True) JobRecord.Dated := by
  refine ⟨?_, ?_, ?_, ?_, ?_, ?_, ?_, ?_, ?_, ?_⟩
  · exact .of_sized (fun h _ => Json.intIn?_int h) WorkItemId.sized_of_ofJson?
  · exact .of_sized (fun h _ => Shard.ofJson?_toJson h) Shard.sized_of_ofJson?
  · exact .of_sized (fun h _ => QueueRef.ofJson?_toJson h) QueueRef.sized_of_ofJson?
  · exact .of_sized (fun h _ => Blocking.ofJson?_toJson h) Blocking.sized_of_ofJson?
  · exact .of_sized WorkItem.ofJson?_toJson WorkItem.sized_of_ofJson?
  · exact .of_sized CompletedItem.ofJson?_toJson CompletedItem.sized_of_ofJson?
  · exact .of_sized (fun h _ => BlockToken.ofJson?_toJson h) BlockToken.sized_of_ofJson?
  · exact .of_sized QueueState.ofJson?_toJson QueueState.sized_of_ofJson?
  · exact .of_sized (fun h _ => BlockingMessage.ofJson?_toJson h)
      BlockingMessage.sized_of_ofJson?
  · exact .of_sized (fun _ h => JobRecord.ofJson?_toJson h) fun _ => trivial

end Courier
