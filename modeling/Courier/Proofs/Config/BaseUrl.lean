/-
  Courier/Proofs/Config/BaseUrl.lean
  ==================================
  **Which base URLs serve, and which do not although they are accepted.**

  A setting is accepted for the base URL if it is a URL.  For a base that is too little:
  onto an opaque URL, such as `localhost:8080` with the scheme `localhost`, nothing can be
  joined.  So the accepted bases are of two kinds, and the text of the setting tells which
  (`Config.accepted_base_serves_all_or_none`): either every plain reference is resolved in the
  folder of the base, or none is ever resolved.
-/
import Courier.Proofs.Config.Settings
import Courier.Proofs.Url.Opaque

namespace Courier.Config

open Courier.Text

variable {toAscii : Url.DomainToAscii} {lookup : String → Option String} {config : Config}
  {base : Url} {text : String}

/-! ### The setting of the base URL -/

/-- Settings of which that of the base URL is replaced. -/
def withBaseUrl (lookup : String → Option String) (text : String) : String → Option String :=
  Function.update lookup "BASE_URL" (some text)

theorem setting_withBaseUrl (htext : ¬ IsBlankText text.toList) :
    setting (withBaseUrl lookup text) "BASE_URL" = some text := by
  simp [setting, withBaseUrl, trim_eq_nil_iff, htext]

theorem setting_withBaseUrl_of_ne {name : String} (h : name ≠ "BASE_URL") :
    setting (withBaseUrl lookup text) name = setting lookup name := by
  simp [setting, withBaseUrl, h]

/-- Any other URL is accepted in the place of the base. -/
theorem ReadFrom.withBaseUrl (h : ReadFrom toAscii lookup config)
    (hparse : Url.parse text toAscii = .ok base) (htext : ¬ IsBlankText text.toList) :
    ReadFrom toAscii (withBaseUrl lookup text) { config with baseUrl := some base } := by
  constructor
  case baseUrl => simp only [setting_withBaseUrl htext, Setting.read, Setting.baseUrl, hparse]
  -- all other parts are read from settings that have not changed
  all_goals simp (disch := decide) only [setting_withBaseUrl_of_ne]
  case store => exact h.store
  case databaseUrl => exact h.databaseUrl
  case database => exact h.database
  case sharding => exact h.sharding
  case pollInterval => exact h.pollInterval
  case singleConnection => exact h.singleConnection
  case retryStatusCodes => exact h.retryStatusCodes
  case cronConfig => exact h.cronConfig
  case telemetryEndpoint => exact h.telemetryEndpoint
  case logLevel => exact h.logLevel

/-- The base of an accepted configuration was read from its setting. -/
theorem ReadFrom.exists_parse (h : ReadFrom toAscii lookup config)
    (hbase : config.baseUrl = some base) :
    ∃ text, lookup "BASE_URL" = some text ∧ Url.parse text toAscii = .ok base := by
  have hread := h.baseUrl
  rw [hbase] at hread
  cases hsetting : setting lookup "BASE_URL" with
  | none =>
    rw [hsetting] at hread
    cases hread
  | some text =>
    simp only [hsetting, Setting.read, Setting.baseUrl] at hread
    refine ⟨text, (Option.filter_eq_some_iff.1 hsetting).1, ?_⟩
    split at hread
    · rename_i url hparse
      cases hread
      exact hparse
    · cases hread

/-! ### What becomes of the items -/

/-- An opaque base fails every plain reference, and any other base serves them all. -/
theorem resolve_plain (hbase : config.baseUrl = some base)
    (hparse : Url.parse text toAscii = .ok base) {item : String}
    (hitem : Url.IsPlainReference item.toList) :
    (config.dispatch toAscii).resolve item =
      if Url.ReadsAsOpaque text then
        .error (.invalidUrl item "relative URL with a cannot-be-a-base base")
      else .ok (base.inFolder item.toList) := by
  have hjoin := Url.join_plain_of_parse hparse hitem
  simp only [dispatch, DispatchConfig.resolve, hbase, hjoin]
  by_cases hreads : Url.ReadsAsOpaque text
  · simp only [hreads, if_true]
    rfl
  · simp only [hreads, if_false]

/-- In an accepted configuration every plain reference is resolved in the folder of the base, unless
    the base is opaque: then none is.  And no opaque base is refused: in the place of the
    base of an accepted configuration, every text that is read as an opaque URL is accepted. -/
theorem accepted_base_serves_all_or_none (h : ofLookup lookup toAscii = .ok config) :
    (∀ base, config.baseUrl = some base → ∃ text, lookup "BASE_URL" = some text ∧
      Url.parse text toAscii = .ok base ∧
      (¬ Url.ReadsAsOpaque text → ∀ item, Url.IsPlainReference item.toList →
        (config.dispatch toAscii).resolve item = .ok (base.inFolder item.toList)) ∧
      (Url.ReadsAsOpaque text → ∀ item, Url.IsPlainReference item.toList →
        (config.dispatch toAscii).resolve item =
          .error (.invalidUrl item "relative URL with a cannot-be-a-base base"))) ∧
    ∀ text, Url.ReadsAsOpaque text → ∃ base, Url.parse text toAscii = .ok base ∧
      ofLookup (withBaseUrl lookup text) toAscii =
        .ok { config with baseUrl := some base } := by
  have hread := ofLookup_eq_ok_iff.1 h
  refine ⟨fun base hbase => ?_, fun text htext => ?_⟩
  · obtain ⟨text, hlookup, hparse⟩ := hread.exists_parse hbase
    refine ⟨text, hlookup, hparse, fun hreads item hitem => ?_, fun hreads item hitem => ?_⟩
    · rw [resolve_plain hbase hparse hitem, if_neg hreads]
    · rw [resolve_plain hbase hparse hitem, if_pos hreads]
  · obtain ⟨base, hparse⟩ := Url.exists_parse_of_readsAsOpaque htext
    exact ⟨base, hparse, ofLookup_eq_ok_iff.2 (hread.withBaseUrl hparse htext.not_isBlankText)⟩

/-- The settings of a service without a database. -/
def inMemory : String → Option String := fun name =>
  if name = "STORE_BACKEND" then some "memory" else none

/-- With a scheme in front, the address of a service is a base for its items.  Without one the name
    of its host is taken for the scheme, and what is accepted as a base fails every item. -/
theorem address_without_scheme_serves_nothing :
    (∃ config, ofLookup (withBaseUrl inMemory "http://localhost:8080/api/v1") Url.asciiDomains =
        .ok config ∧
      ∃ url, (config.dispatch Url.asciiDomains).resolve "SetMessage/abc" = .ok url ∧
        url.text = "http://localhost:8080/api/SetMessage/abc") ∧
    ∃ config, ofLookup (withBaseUrl inMemory "localhost:8080") Url.asciiDomains = .ok config ∧
      (config.dispatch Url.asciiDomains).resolve "SetMessage/abc" =
        .error (.invalidUrl "SetMessage/abc" "relative URL with a cannot-be-a-base base") := by
  have hitem : Url.IsPlainReference "SetMessage/abc".toList :=
    ⟨["SetMessage".toList, "abc".toList], by decide, by
      simp only [List.forall_mem_cons]
      exact ⟨by decide, by decide, nofun⟩, by decide⟩
  obtain ⟨config, hconfig⟩ : ∃ config, ofLookup inMemory Url.asciiDomains = .ok config :=
    ⟨_, rfl⟩
  constructor
  · let base : Url := ⟨"http".toList, some ⟨[], none, .name "localhost".toList, some 8080⟩,
      "/api/v1".toList, none, none⟩
    have hparse : Url.parse "http://localhost:8080/api/v1" Url.asciiDomains = .ok base := by
      decide +kernel
    have haccepted := ofLookup_eq_ok_iff.2
      ((ofLookup_eq_ok_iff.1 hconfig).withBaseUrl hparse (by decide))
    obtain ⟨text, hlookup, -, hserves, -⟩ := (accepted_base_serves_all_or_none haccepted).1 base rfl
    obtain rfl : "http://localhost:8080/api/v1" = text := Option.some.inj hlookup
    exact ⟨_, haccepted, _, hserves (by decide +kernel) "SetMessage/abc" hitem, by decide +kernel⟩
  · have hreads : Url.ReadsAsOpaque "localhost:8080" := by decide +kernel
    obtain ⟨base, -, haccepted⟩ := (accepted_base_serves_all_or_none hconfig).2 _ hreads
    obtain ⟨text, hlookup, -, -, hfails⟩ := (accepted_base_serves_all_or_none haccepted).1 base rfl
    obtain rfl : "localhost:8080" = text := Option.some.inj hlookup
    exact ⟨_, haccepted, hfails hreads "SetMessage/abc" hitem⟩

end Courier.Config
