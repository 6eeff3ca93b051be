/-
  Courier/Proofs/Cron/Instantiation.lean
  ======================================
  **Which validated jobs have URLs that are none.**

  The URL of a job is validated with its marks `{0}` in place, and the items of the
  job are requested at what becomes of it when the marks are filled in.  Scheme,
  path, query, fragment, user and password are read from either text, or from
  neither; only the server may tell them apart.  A mark cannot stand in a port or in
  an address, but it can stand in the text of a host, which braces may be part of.
  The text of an instant has colons, so there it puts something else than digits in
  the place of the port, and no item of the job can ever be requested.  Every other
  validated job keeps scheme, host and port for every occurrence
  (`Job.instances_keep_server_or_fail`).
-/
import Courier.Proofs.Cron.Search
import Courier.Proofs.Url.Base
import Courier.Proofs.Url.Form

namespace Courier

open Courier.Text Courier.Time

namespace Cron.Job

open Url Form

/-! ### The mark and what is filled in for it -/

theorem isFiller_occurrenceMark : IsFiller occurrenceMark :=
  ⟨nofun, List.all_eq_true.1 (by decide)⟩

theorem isSchemeChar_of_mem_padded {width n : Nat} {c : Char} (h : c ∈ padded width n) :
    isSchemeChar c = true := by
  have hdigit : isDigit c = true := isDigit_of_mem_padded h
  simp [isSchemeChar, hdigit]

theorem isSchemeChar_of_mem_dateText {date : Date} {c : Char} (h : c ∈ date.text) :
    isSchemeChar c = true := by
  have hyear : ∀ c ∈ yearText date.year, isSchemeChar c = true := by
    intro c hc
    rcases yearText_cases date.year with ⟨-, hy⟩ | ⟨-, hy⟩ | ⟨-, hy⟩ <;> rw [hy] at hc
    · exact isSchemeChar_of_mem_padded hc
    · rcases List.mem_cons.1 hc with rfl | hc
      · rfl
      · exact isSchemeChar_of_mem_padded hc
    · rcases List.mem_cons.1 hc with rfl | hc
      · rfl
      · exact isSchemeChar_of_mem_padded hc
  simp only [Date.text, List.mem_append, List.mem_cons] at h
  rcases h with (h | rfl | h) | rfl | h
  · exact hyear c h
  · rfl
  · exact isSchemeChar_of_mem_padded h
  · rfl
  · exact isSchemeChar_of_mem_padded h

/-- The text of a second is cut by two colons, and holds digits, letters and signs besides. -/
theorem exists_secondsText_eq (occurrence : Instant) :
    ∃ hour minute second,
      occurrence.toSecondsText.toList = hour ++ ':' :: (minute ++ ':' :: second) ∧
      ∀ c, c ∈ hour ∨ c ∈ minute ∨ c ∈ second → isSchemeChar c = true := by
  refine ⟨occurrence.civil.date.text ++ 'T' :: padded 2 occurrence.civil.hour,
    padded 2 occurrence.civil.minute, padded 2 occurrence.civil.second ++ ['Z'], ?_, ?_⟩
  · simp [Instant.toSecondsText, Civil.clockText]
  · intro c hc
    simp only [List.mem_append, List.mem_cons, List.not_mem_nil, or_false] at hc
    rcases hc with (hc | rfl | hc) | hc | hc | rfl
    · exact isSchemeChar_of_mem_dateText hc
    · rfl
    · exact isSchemeChar_of_mem_padded hc
    · exact isSchemeChar_of_mem_padded hc
    · exact isSchemeChar_of_mem_padded hc
    · rfl

/-- Nothing in the text of a second divides a URL. -/
theorem isFiller_secondsText (occurrence : Instant) :
    IsFiller occurrence.toSecondsText.toList := by
  obtain ⟨hour, minute, second, htext, hchars⟩ := exists_secondsText_eq occurrence
  rw [htext]
  refine ⟨by simp, fun c hc => ?_⟩
  simp only [List.mem_append, List.mem_cons] at hc
  rcases hc with hc | rfl | hc | rfl | hc
  · exact isPlain_of_isSchemeChar (hchars c (.inl hc))
  · rfl
  · exact isPlain_of_isSchemeChar (hchars c (.inr (.inl hc)))
  · rfl
  · exact isPlain_of_isSchemeChar (hchars c (.inr (.inr hc)))

/-! ### A mark in the text of a server -/

section Server

variable {toAscii : DomainToAscii} {scheme front rest : List Char} {hasUser : Bool}
  {server : Server}

theorem brace_standsAlone : Host.StandsAlone '\x7b' := ⟨rfl, by decide, by decide, by decide⟩

/-- A mark in the text of a server stands in the text of its host. -/
theorem mark_in_host (hkind : schemeKind scheme = .special) (hrefused : toAscii.Refuses '[')
    (hno : '\\' ∉ front ++ occurrenceMark ++ rest)
    (h : Server.ofText toAscii scheme (front ++ occurrenceMark ++ rest) hasUser = .ok server) :
    ':' ∉ front ∧ '[' ∉ front ∧
      occurrenceMark <:+: (cutHost false (front ++ occurrenceMark ++ rest)).1 := by
  obtain ⟨hhost, hport⟩ := Server.read_of_ofText h
  obtain ⟨-, hhost⟩ := hostOfText_special hkind hhost
  have hbrace : '\x7b' ∈ front ++ occurrenceMark ++ rest := by simp [occurrenceMark]
  have hplain := Host.bracket_notMem_of_ofSpecial brace_standsAlone
    (Server.mem_hostText hno h hbrace (by decide) rfl) hrefused hhost
  have hopen : '[' ∉ front := fun hmem =>
    hplain (Server.mem_hostText hno h (by simp [hmem]) (by decide) rfl)
  -- behind a colon the brace would be part of the port
  have hcolon : ':' ∉ front := by
    intro hmem
    obtain ⟨before, behind, rfl, hbefore⟩ := List.eq_append_cons_of_mem hmem
    have hcut := cutHost_colon hbefore (fun hb => hopen (by simp [hb]))
      (behind ++ occurrenceMark ++ rest)
    simp only [List.append_assoc, List.cons_append] at hcut hport hno
    rw [hcut] at hport
    have hdigit := isDigit_of_portOf (fun hb => hno (by simp [hb])) hport '\x7b'
      (by simp [occurrenceMark])
    cases hdigit
  refine ⟨hcolon, hopen, front, (cutHost false rest).1, ?_⟩
  rw [cutHost_append (by simp [occurrenceMark, hcolon]) (by simp [occurrenceMark, hopen])]

/-- With an instant in its text a host is followed by something else than a port. -/
theorem no_server_of_secondsText (hno : '\\' ∉ rest) (hcolon : ':' ∉ front) (hopen : '[' ∉ front)
    (occurrence : Instant) :
    Server.ofText toAscii scheme (front ++ occurrence.toSecondsText.toList ++ rest) hasUser ≠
      .ok server := by
  intro h
  obtain ⟨hour, minute, second, htext, hchars⟩ := exists_secondsText_eq occurrence
  have hnot : ∀ {c}, isSchemeChar c = false → c ∉ hour ∧ c ∉ minute ∧ c ∉ second := by
    intro c hc
    refine ⟨fun h => ?_, fun h => ?_, fun h => ?_⟩
    · cases hc.symm.trans (hchars c (.inl h))
    · cases hc.symm.trans (hchars c (.inr (.inl h)))
    · cases hc.symm.trans (hchars c (.inr (.inr h)))
  obtain ⟨hcolon', -, -⟩ := hnot (c := ':') rfl
  obtain ⟨hopen', -, -⟩ := hnot (c := '[') rfl
  obtain ⟨-, hminute, hsecond⟩ := hnot (c := '\\') rfl
  have hcut : cutHost false (front ++ occurrence.toSecondsText.toList ++ rest) =
      (front ++ hour, some (minute ++ ':' :: (second ++ rest))) := by
    have hwhole : front ++ occurrence.toSecondsText.toList ++ rest =
        front ++ hour ++ ':' :: (minute ++ ':' :: (second ++ rest)) := by
      simp [htext]
    rw [hwhole]
    exact cutHost_colon (by simp [hcolon, hcolon']) (by simp [hopen, hopen']) _
  have hport := (Server.read_of_ofText h).2
  rw [hcut] at hport
  have hdigit := isDigit_of_portOf (by simp [hno, hminute, hsecond]) hport ':' (by simp)
  cases hdigit

end Server

/-! ### The URLs of a job -/

theorem schemeKind_of_isHttp {v : Url} (h : v.isHttp = true) : schemeKind v.scheme = .special := by
  simp only [isHttp, Bool.or_eq_true, decide_eq_true_eq] at h
  rcases h with h | h <;> rw [h] <;> rfl

/-- Host and port of all the URLs of a job are read from the fillings of one form: with the marks in
    their places from that of the job itself, and for an occurrence with its second. -/
theorem exists_server_form_of_parse {toAscii : DomainToAscii} {job : Job} {v : Url}
    (h : Url.parse job.url toAscii = .ok v) :
    ∃ server : Form,
      (∃ rest, scheme? (cleaned job.url.toList) = some (v.scheme, rest) ∧
        serverText v.scheme rest = fill occurrenceMark server) ∧
      ∀ occurrence, ∃ rest,
        scheme? (cleaned (job.urlFor occurrence).toList) = some (v.scheme, rest) ∧
        serverText v.scheme rest = fill occurrence.toSecondsText.toList server := by
  obtain ⟨rest, hscheme, -⟩ := exists_scheme_of_parse h
  obtain ⟨form, hreplace, hurl⟩ := exists_fill_eq_replace isFiller_occurrenceMark.ne_nil
    job.url.toList
  rw [hurl] at hscheme
  obtain ⟨server, hserver⟩ := exists_server_form isFiller_occurrenceMark rfl (by decide) hscheme
  refine ⟨server, ?_, fun occurrence => ?_⟩
  · rw [hurl]
    exact hserver _ isFiller_occurrenceMark
  · simp only [urlFor, String.toList_ofList, hreplace]
    exact hserver _ (isFiller_secondsText occurrence)

/-- A validated job either keeps scheme, host and port of its URL for every occurrence, or has the
    mark in the text of the host: then the URL is none for any occurrence.  Of the mapping of domain
    names this takes only that it refuses brackets. -/
theorem instances_keep_server_or_fail {config : JobConfig} {registry : Registry} {job : Job}
    (hrefused : registry.toAscii.Refuses '[') (h : ofConfig config registry = .ok job) :
    ∃ v, Url.parse job.url registry.toAscii = .ok v ∧ v.isHttp = true ∧
      ((∀ occurrence, ∃ w, Url.parse (job.urlFor occurrence) registry.toAscii = .ok w ∧
          w.scheme = v.scheme ∧ w.server? = v.server? ∧
          ∀ dispatch : DispatchConfig, ∃ resolved,
            { dispatch with toAscii := registry.toAscii }.resolve (job.urlFor occurrence) =
              .ok resolved ∧ resolved.scheme = v.scheme) ∨
        occurrenceMark <:+: hostText job.url ∧
          ∀ occurrence, ∃ fault,
            Url.parse (job.urlFor occurrence) registry.toAscii = .error fault) := by
  obtain ⟨-, hurl, ⟨v, hv, hhttp⟩, -⟩ := ofConfig_eq_ok h
  rw [← hurl] at hv
  refine ⟨v, hv, hhttp, ?_⟩
  have hkind := schemeKind_of_isHttp hhttp
  obtain ⟨form, ⟨rest, hscheme, htext⟩, hinstance⟩ := exists_server_form_of_parse hv
  obtain ⟨server, hserver, -, hkept⟩ := server_of_resolve hscheme hkind hv false
  have hno := backslash_notMem_serverText hkind rest
  rw [htext] at hserver hno
  by_cases hmark : none ∈ form
  -- in front of its first mark the server's text is the same for every occurrence
  · right
    obtain ⟨places, behind, rfl, hplaces⟩ := List.eq_append_cons_of_mem hmark
    obtain ⟨front, rfl⟩ := exists_eq_map_some hplaces
    have hfill : ∀ filler, fill filler (front.map some ++ none :: behind) =
        front ++ filler ++ fill filler behind := by
      simp
    rw [hfill] at hserver hno
    obtain ⟨hcolon, hopen, hinfix⟩ := mark_in_host hkind hrefused hno hserver
    refine ⟨?_, fun occurrence => ?_⟩
    · simp only [hostText, hscheme, htext, hfill]
      exact hinfix
    · cases hparse : Url.parse (job.urlFor occurrence) registry.toAscii with
      | error fault => exact ⟨fault, rfl⟩
      | ok w =>
        obtain ⟨rest', hscheme', htext'⟩ := hinstance occurrence
        obtain ⟨server', hserver', -⟩ := server_of_resolve hscheme' hkind hparse false
        have hno' := backslash_notMem_serverText hkind rest'
        rw [htext', hfill] at hserver' hno'
        have hbehind : '\\' ∉ fill occurrence.toSecondsText.toList behind :=
          fun hb => hno' (List.mem_append_right _ hb)
        exact absurd hserver' (no_server_of_secondsText hbehind hcolon hopen occurrence)
  · left
    obtain ⟨text, rfl⟩ := exists_eq_map_some hmark
    intro occurrence
    obtain ⟨rest', hscheme', htext'⟩ := hinstance occurrence
    rw [fill_map_some] at hserver htext'
    rw [← htext'] at hserver
    obtain ⟨w, hw, hsame, hserver'⟩ := exists_resolve_of_server hscheme' hkind hserver
    refine ⟨w, hw, hsame, hserver'.trans hkept.symm, fun dispatch => ?_⟩
    obtain ⟨resolved, hresolved, hstays⟩ :=
      { dispatch with toAscii := registry.toAscii }.exists_resolve_of_parse hw
    exact ⟨resolved, hresolved, hstays.trans hsame⟩

/-- A job on a host that is named for the occurrence. -/
def hostPerOccurrence : JobConfig where
  name := "a"
  url := "http://\x7b0\x7d/run"
  schedule := "* * * * *"

/-- Such a job is validated, and none of its items can be requested. -/
theorem hostPerOccurrence_never_resolves :
    ∃ job, ofConfig hostPerOccurrence .builtin = .ok job ∧
      Url.parse (job.urlFor (.ofSeconds 0)) asciiDomains = .error .invalidPort ∧
      ∀ occurrence, ∃ error,
        ({} : DispatchConfig).resolve (job.urlFor occurrence) = .error error := by
  have hvalid : (ofConfig hostPerOccurrence .builtin).toOption.isSome = true := by decide +kernel
  have hrefused : Registry.builtin.toAscii.Refuses '[' :=
    asciiDomains_refuses (by decide) (by decide) (by decide)
  cases hjob : ofConfig hostPerOccurrence .builtin with
  | error e =>
    rw [hjob] at hvalid
    cases hvalid
  | ok job =>
    have hepoch : Url.parse (job.urlFor (.ofSeconds 0)) asciiDomains = .error .invalidPort := by
      rw [urlFor, (ofConfig_eq_ok hjob).2.1]
      decide +kernel
    refine ⟨job, rfl, hepoch, fun occurrence => ?_⟩
    obtain ⟨v, -, -, hkept | ⟨-, hfails⟩⟩ := instances_keep_server_or_fail hrefused hjob
    · obtain ⟨w, hw, -⟩ := hkept (.ofSeconds 0)
      cases hepoch.symm.trans hw
    · obtain ⟨fault, hfault⟩ := hfails occurrence
      refine ⟨.invalidUrl (job.urlFor occurrence) fault.message, ?_⟩
      simp only [DispatchConfig.resolve]
      rw [show Url.parse (job.urlFor occurrence) asciiDomains = _ from hfault]

end Cron.Job

end Courier
