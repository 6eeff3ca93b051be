/-
  Courier/Store/Backend.lean
  ==========================
  **The in-process store as a backend.**

  The in-process store goes by the clock of the store, which may be moved apart
  from the time of day.
-/
import Courier.Store.Claim
import Courier.Store.JobTable
import Courier.Store.Manage
import Courier.Store.Settle

namespace Courier

instance : Backend Store where
  Transaction := JobTransaction
  sharding s := s.sharding
  enqueue clock := Store.enqueue clock.storeNow
  next clock := Store.next clock.storeNow
  complete clock := Store.complete clock.storeNow
  fail clock := Store.fail clock.storeNow
  delay clock := Store.delay clock.storeNow
  purge clock := Store.purge clock.storeNow
  pause clock := Store.pause clock.storeNow
  resume := Store.resume
  reset clock := Store.reset clock.storeNow
  lock clock := Store.lock clock.storeNow
  unlock := Store.unlock
  clear s := (.ok (), s.clear)
  queueState queue s := s.queueState queue
  pending queue s := s.pending queue
  completed shard s := s.completed shard
  health s := .ok s.health
  jobRecords s := .ok s.jobs
  pendingCount s := s.pendingCount
  begin_ _ := .ok .start
  createJob name s tx := (.ok (), tx.create s name)
  selectJob name s tx := (tx.select s name, tx)
  updateJob name at_ s tx := tx.update s name at_
  enqueueJob _ freshName item s tx := tx.enqueue s freshName item
  commit clock tx s := s.commit clock.storeNow tx
  abandon _ s := s

end Courier
