/-
  Courier/Shard.lean
  ==================
  **Shards and the sharding of queue names.**

  A deployment spreads its queues over at most sixteen shards.  A `Shard` is
  written down together with the number of shards it belongs to, so a change of
  that number never gives an old shard a new meaning.  `Sharding.shardFor` says
  which shard owns a queue name; the owner is always one of the deployment's
  shards: `Sharding.shardFor_mem_shards`.
-/
import Courier.Digest.Md5

namespace Courier

/-! ### Shards -/

/-- One partition out of a number of partitions. -/
structure Shard where
  index : Int
  count : Int
deriving DecidableEq, Repr, Inhabited

/-- The text of a shard, as `3/16`. -/
def Shard.text (s : Shard) : String := s!"{s.index}/{s.count}"

/-! ### Sharding -/

/-- The greatest number of shards: one for each value of half a byte. -/
def greatestShardCount : Nat := 16

/-- A number of shards that a deployment may have. -/
structure Sharding where
  count : Nat
  one_le : 1 ≤ count := by decide
  le_greatest : count ≤ greatestShardCount := by decide
deriving DecidableEq

namespace Sharding

/-- Everything on one shard. -/
def single : Sharding := { count := 1 }

instance : Inhabited Sharding := ⟨single⟩

/-- The sharding of a number of shards, if a deployment may have that number. -/
def ofCount? (count : Int) : Option Sharding :=
  if h : 1 ≤ count ∧ count ≤ 16 then
    some ⟨count.toNat, by omega, by unfold greatestShardCount; omega⟩
  else none

/-- The first half byte of the MD5 digest of a name, from 0 to 15. -/
def nibble (name : String) : Nat :=
  ((Digest.md5 name.toUTF8.toList).headD 0).toNat / 16

/-- The shard that owns a queue name. -/
def shardFor (s : Sharding) (name : String) : Shard :=
  ⟨if s.count = 1 then 0 else (nibble name % s.count : Nat), s.count⟩

/-- All shards of the deployment, in order. -/
def shards (s : Sharding) : List Shard :=
  (List.range s.count).map fun (i : Nat) => ⟨i, s.count⟩

/-- The owner of a name is one of the deployment's shards. -/
theorem shardFor_mem_shards (s : Sharding) (name : String) : s.shardFor name ∈ s.shards := by
  have h1 := s.one_le
  unfold shardFor shards
  refine List.mem_map.2 ?_
  by_cases h : s.count = 1
  · exact ⟨0, List.mem_range.2 (by omega), by simp [h]⟩
  · exact ⟨nibble name % s.count, List.mem_range.2 (Nat.mod_lt _ (by omega)), by simp [h]⟩

/-- No shard is listed twice. -/
theorem nodup_shards (s : Sharding) : s.shards.Nodup := by
  unfold shards
  refine List.Pairwise.map _ ?_ List.nodup_range
  intro a b hab heq
  simp only [Shard.mk.injEq, Int.natCast_inj, and_true] at heq
  exact hab heq

end Sharding

end Courier
