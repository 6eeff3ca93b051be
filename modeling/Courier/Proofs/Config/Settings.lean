/-
  Courier/Proofs/Config/Settings.lean
  ===================================
  **What an accepted configuration was read from.**

  A configuration is read setting by setting, and refused at the first one that is
  missing or malformed.  So each part of a configuration that is accepted was read from
  a setting of its own, or has the value that stands for an absent one
  (`Config.ofLookup_eq_ok_iff`).
-/
import Courier.Config
import Courier.Proofs.Reading

namespace Courier.Config

open Courier.Text

variable {toAscii : Url.DomainToAscii} {lookup : String → Option String} {config : Config}

/-- A setting by its name; a blank one counts as absent. -/
def setting (lookup : String → Option String) (name : String) : Option String :=
  (lookup name).filter fun value => !(trim value.toList).isEmpty

/-- What the parts of a configuration were read from. -/
structure ReadFrom (toAscii : Url.DomainToAscii) (lookup : String → Option String)
    (config : Config) : Prop where
  store :
    Setting.read (setting lookup "STORE_BACKEND") StoreKind.parse .postgres = .ok config.store
  databaseUrl : config.databaseUrl = setting lookup "DATABASE_URL"
  database : requireDatabase config.store config.databaseUrl = .ok ()
  baseUrl :
    Setting.read (setting lookup "BASE_URL") (Setting.baseUrl toAscii) none = .ok config.baseUrl
  sharding : ∃ count,
    Setting.read (setting lookup "MAX_SHARDS") (Setting.integer (.signed 16) "MAX_SHARDS") 1 =
      .ok count ∧ Sharding.ofCount count = .ok config.sharding
  pollInterval : ∃ seconds,
    Setting.read (setting lookup "POLL_INTERVAL_SECS")
      (Setting.integer (.unsigned 64) "POLL_INTERVAL_SECS") defaultPollSeconds = .ok seconds ∧
      config.pollIntervalSeconds = seconds.toNat
  singleConnection :
    Setting.read (setting lookup "SINGLE_DB_CONNECTION")
      (Setting.boolean "SINGLE_DB_CONNECTION") false = .ok config.singleConnection
  retryStatusCodes :
    Setting.read (setting lookup "RETRY_STATUS_CODES") Setting.statusCodes
      defaultRetryStatusCodes = .ok config.retryStatusCodes
  cronConfig : config.cronConfig = setting lookup "CRON_CONFIG"
  telemetryEndpoint : config.telemetryEndpoint = setting lookup "OTEL_ENDPOINT"
  logLevel : config.logLevel = (setting lookup "LOG_LEVEL").getD "info"

/-- A configuration is accepted exactly if each of its parts was read. -/
theorem ofLookup_eq_ok_iff :
    ofLookup lookup toAscii = .ok config ↔ ReadFrom toAscii lookup config := by
  constructor
  · intro h
    simp only [ofLookup] at h
    obtain ⟨store, hstore, h⟩ := exists_of_bind_eq_ok h
    obtain ⟨⟨⟩, hdatabase, h⟩ := exists_of_bind_eq_ok h
    obtain ⟨baseUrl, hbase, h⟩ := exists_of_bind_eq_ok h
    obtain ⟨count, hcount, h⟩ := exists_of_bind_eq_ok h
    obtain ⟨sharding, hsharding, h⟩ := exists_of_bind_eq_ok h
    obtain ⟨seconds, hseconds, h⟩ := exists_of_bind_eq_ok h
    obtain ⟨single, hsingle, h⟩ := exists_of_bind_eq_ok h
    obtain ⟨codes, hcodes, h⟩ := exists_of_bind_eq_ok h
    obtain rfl := Except.ok.inj h
    exact ⟨hstore, rfl, hdatabase, hbase, ⟨count, hcount, hsharding⟩, ⟨seconds, hseconds, rfl⟩,
      hsingle, hcodes, rfl, rfl, rfl⟩
  · rintro ⟨hstore, hurl, hdatabase, hbase, ⟨count, hcount, hsharding⟩, ⟨seconds, hseconds, hpoll⟩,
      hsingle, hcodes, hcron, htelemetry, hlevel⟩
    obtain ⟨store, databaseUrl, baseUrl, sharding, poll, single, codes, cron, telemetry, level⟩ :=
      config
    subst hurl hpoll hcron htelemetry hlevel
    simp only [setting] at hstore hdatabase hbase hcount hsharding hseconds hsingle hcodes
    simp only [ofLookup, bind, Except.bind, hstore, hdatabase, hbase, hcount, hsharding, hseconds,
      hsingle, hcodes]
    rfl

end Courier.Config
