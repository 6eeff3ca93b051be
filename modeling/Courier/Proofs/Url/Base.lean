/-
  Courier/Proofs/Url/Base.lean
  ============================
  **When an absolute URL is read in spite of the base, and when relative to it.**

  A text that is an absolute URL on its own is read as that URL whatever base it is
  joined onto, unless it leaves out the slashes behind a scheme that does not need
  them and that is the scheme of the base: then it is taken for a relative reference
  (`Url.ReadsAsRelative`), and what it resolves to has the authority of the base
  (`DispatchConfig.resolve_absolute`).
-/
import Courier.Dispatch
import Courier.Proofs.Url.Authority

namespace Courier

open Courier.Text

namespace Url

/-- Whether a text with a scheme is read relative to a base all the same: the scheme is that of the
    base, one that needs no slashes, and fewer than two of them follow. -/
def ReadsAsRelative (base : Url) (text : String) : Prop :=
  ∃ read ∈ scheme? (cleaned text.toList), base.scheme = read.1 ∧
    (schemeKind read.1).isSpecial = true ∧ (read.2.takeWhile isSlash).length < 2

instance (base : Url) (text : String) : Decidable (ReadsAsRelative base text) :=
  inferInstanceAs (Decidable (∃ read ∈ scheme? (cleaned text.toList), _))

section

variable {toAscii : DomainToAscii} {base v : Url} {scheme : List Char} {parts : Parts}

/-- The slashes in front of a text are in front of its hierarchical part. -/
theorem Parts.slashes_front_ofText (cs : List Char) :
    (Parts.ofText cs).front.takeWhile isSlash = cs.takeWhile isSlash := by
  have hkept : ∀ c, (isSlash c && (decide (c ≠ '?') && decide (c ≠ '#'))) = isSlash c := by
    intro c
    by_cases hc : c = '?' ∨ c = '#'
    · rcases hc with rfl | rfl <;> rfl
    · simp only [not_or] at hc
      simp [hc]
  simp only [Parts.front_ofText, List.takeWhile_takeWhile]
  congr 1
  funext c
  simpa using hkept c

theorem two_le_slashes {cs : List Char} :
    2 ≤ (cs.takeWhile isSlash).length ↔
      ∃ a b rest, cs = a :: b :: rest ∧ isSlash a = true ∧ isSlash b = true := by
  constructor
  · intro h
    match cs with
    | [] => simp at h
    | [a] => cases ha : isSlash a <;> simp [ha] at h
    | a :: b :: rest =>
      refine ⟨a, b, rest, rfl, ?_⟩
      cases ha : isSlash a <;> cases hb : isSlash b <;> simp_all
  · rintro ⟨a, b, rest, rfl, ha, hb⟩
    rw [List.takeWhile_cons_of_pos ha, List.takeWhile_cons_of_pos hb]
    simp

/-! ### The schemes of what is read -/

theorem scheme_of_afterSlashes {cs : List Char} (h : afterSlashes toAscii scheme parts cs = .ok v) :
    v.scheme = scheme := by
  obtain ⟨-, -, -, -, -, -, rfl⟩ := exists_of_afterSlashes h
  rfl

theorem scheme_fileOf_absolute (base? : Option Url) (path afterSlash : List Char) :
    (fileOf.absolute base? parts path afterSlash).scheme = "file".toList := by
  simp only [fileOf.absolute]
  split
  · split <;> rfl
  · rfl

theorem scheme_fileOf_relative {base? : Option Url}
    (hbase : ∀ base, base? = some base → base.scheme = "file".toList) (path : List Char) :
    (fileOf.relative base? parts path).scheme = "file".toList := by
  cases base? with
  | none => rfl
  | some base =>
    simp only [fileOf.relative]
    repeat' split
    all_goals first | rfl | exact hbase base rfl

/-- Behind two slashes a `file` URL does not depend on the base. -/
theorem fileOf_of_slashes (base? : Option Url) (h : 2 ≤ (parts.front.takeWhile isSlash).length) :
    fileOf toAscii base? parts = fileOf toAscii none parts ∧
      ∀ v, fileOf toAscii none parts = .ok v → v.scheme = "file".toList := by
  obtain ⟨a, b, rest, hfront, ha, hb⟩ := two_le_slashes.1 h
  simp only [isSlash] at ha hb
  simp only [fileOf, hfront, ha, hb, Bool.and_self, if_true, true_and]
  intro v h
  split at h
  · cases h
    rfl
  · generalize Host.ofSpecial toAscii (rest.takeWhile _) = read at h
    cases read with
    | error e => cases h
    | ok host =>
      simp only [bind, Except.bind, pure, Except.pure] at h
      repeat' split at h
      all_goals
        cases h
        rfl

/-- In front of a path a `file` URL is always read. -/
theorem exists_fileOf {base? : Option Url}
    (hbase : ∀ base, base? = some base → base.scheme = "file".toList)
    (h : ¬2 ≤ (parts.front.takeWhile isSlash).length) :
    ∃ w, fileOf toAscii base? parts = .ok w ∧ w.scheme = "file".toList := by
  have habsolute := @scheme_fileOf_absolute parts base?
  have hrelative := @scheme_fileOf_relative parts base? hbase
  simp only [fileOf]
  split
  · rename_i a b rest hfront
    have hslashes : ¬(isSlash a = true ∧ isSlash b = true) := fun hboth =>
      h (two_le_slashes.2 ⟨a, b, rest, hfront, hboth⟩)
    simp only [isSlash] at hslashes
    simp only [Bool.and_eq_true, hslashes, if_false]
    split
    · exact ⟨_, rfl, habsolute ..⟩
    · exact ⟨_, rfl, hrelative _⟩
  · split
    · exact ⟨_, rfl, habsolute ..⟩
    · exact ⟨_, rfl, hrelative _⟩
  · exact ⟨_, rfl, hrelative _⟩

theorem eq_file_of_schemeKind (h : schemeKind scheme = .file) : scheme = "file".toList := by
  simp only [schemeKind] at h
  split at h
  · assumption
  · split at h <;> cases h

/-- A URL that is read without a base has the scheme in front of it. -/
theorem scheme_of_ofScheme (h : ofScheme toAscii none scheme parts = .ok v) : v.scheme = scheme := by
  cases hkind : schemeKind scheme with
  | file =>
    simp only [ofScheme, hkind, Option.filter_none] at h
    rw [eq_file_of_schemeKind hkind]
    by_cases hslashes : 2 ≤ (parts.front.takeWhile isSlash).length
    · exact (fileOf_of_slashes none hslashes).2 v h
    · obtain ⟨w, hw, hscheme⟩ := @exists_fileOf toAscii _ none (by simp) hslashes
      rw [hw] at h
      cases h
      exact hscheme
  | special =>
    rw [ofScheme_special hkind] at h
    exact scheme_of_afterSlashes h
  | other =>
    simp only [ofScheme, hkind] at h
    split at h
    · exact scheme_of_afterSlashes h
    · cases h
      rfl
    · cases h
      rfl

/-! ### What is read with a base -/

/-- A relative reference that does not begin with two slashes stays with scheme and authority of
    the base. -/
theorem exists_relativeTo (base : Url) (h : ¬2 ≤ (parts.front.takeWhile isSlash).length) :
    ∃ w, relativeTo toAscii base parts = .ok w ∧ w.scheme = base.scheme ∧ w.authority = base.authority := by
  simp only [relativeTo]
  split
  · split <;> exact ⟨_, rfl, rfl, rfl⟩
  · rename_i first rest hfront
    split
    · rename_i hfirst
      cases rest with
      | nil => exact ⟨_, rfl, rfl, rfl⟩
      | cons second more =>
        have hsecond : ¬isSlash second = true := fun hsecond =>
          h (two_le_slashes.2 ⟨first, second, more, hfront, hfirst, hsecond⟩)
        simp only [isSlash] at hsecond
        simp only [hsecond]
        exact ⟨_, rfl, rfl, rfl⟩
    · exact ⟨_, rfl, rfl, rfl⟩

/-- Outside the schemes that need no slashes, and behind two slashes, a URL that has a scheme does
    not depend on the base. -/
theorem ofScheme_eq_none (base : Url)
    (h : ¬(base.scheme = scheme ∧ (schemeKind scheme).isSpecial = true ∧
      ¬2 ≤ (parts.front.takeWhile isSlash).length)) :
    ofScheme toAscii (some base) scheme parts = ofScheme toAscii none scheme parts := by
  cases hkind : schemeKind scheme with
  | file =>
    simp only [ofScheme, hkind, Option.filter_none]
    by_cases hsame : base.scheme = scheme
    · have hslashes : 2 ≤ (parts.front.takeWhile isSlash).length :=
        Decidable.not_not.1 fun hfew => h ⟨hsame, by rw [hkind]; rfl, hfew⟩
      exact (fileOf_of_slashes _ hslashes).1
    · simp [Option.filter, hsame]
  | special =>
    rw [ofScheme_special hkind, ofScheme_special hkind]
    refine if_neg ?_
    rintro ⟨hslashes, hsame⟩
    exact h ⟨hsame, by rw [hkind]; rfl, Nat.not_le.2 hslashes⟩
  | other => simp only [ofScheme, hkind]

/-- In front of a path, a URL of the base's scheme is always read, and in its authority. -/
theorem exists_ofScheme_of_base (hscheme : base.scheme = scheme)
    (hspecial : (schemeKind scheme).isSpecial = true)
    (h : ¬2 ≤ (parts.front.takeWhile isSlash).length) :
    ∃ w, ofScheme toAscii (some base) scheme parts = .ok w ∧ w.scheme = scheme ∧
      (schemeKind scheme = .special → w.authority = base.authority) := by
  cases hkind : schemeKind scheme with
  | file =>
    have hfile := eq_file_of_schemeKind hkind
    have hbase : ∀ other, some base = some other → other.scheme = "file".toList := by
      intro other hother
      rw [← Option.some.inj hother, hscheme, hfile]
    obtain ⟨w, hw, hwscheme⟩ := exists_fileOf hbase h
    refine ⟨w, ?_, hfile ▸ hwscheme, nofun⟩
    simp only [ofScheme, hkind]
    simpa [Option.filter, hscheme] using hw
  | special =>
    obtain ⟨w, hw, hwscheme, hauthority⟩ := exists_relativeTo base h
    refine ⟨w, ?_, hscheme ▸ hwscheme, fun _ => hauthority⟩
    rw [ofScheme_special hkind]
    exact (if_pos ⟨by omega, hscheme⟩).trans hw
  | other =>
    rw [hkind] at hspecial
    cases hspecial

end

/-- A text that is a URL on its own has a scheme. -/
theorem exists_scheme_of_parse {toAscii : DomainToAscii} {text : String} {v : Url}
    (h : Url.parse text toAscii = .ok v) :
    ∃ rest, scheme? (cleaned text.toList) = some (v.scheme, rest) ∧
      ofScheme toAscii none v.scheme (.ofText rest) = .ok v := by
  simp only [Url.parse, resolve] at h
  split at h
  · rename_i scheme rest hscheme
    obtain rfl := scheme_of_ofScheme h
    exact ⟨rest, hscheme, h⟩
  · cases h

/-- Whatever base a URL is joined onto, it is read, and its scheme stays. -/
theorem join_of_parse {toAscii : DomainToAscii} {text : String} {v : Url} (base : Url)
    (h : Url.parse text toAscii = .ok v) :
    (¬base.ReadsAsRelative text → base.join text toAscii = .ok v) ∧
      (base.ReadsAsRelative text → ∃ w, base.join text toAscii = .ok w ∧ w.scheme = v.scheme ∧
        (v.kind = .special → w.authority = base.authority)) := by
  obtain ⟨rest, hscheme, hread⟩ := exists_scheme_of_parse h
  have hjoin : base.join text toAscii = ofScheme toAscii (some base) v.scheme (.ofText rest) := by
    simp only [join, resolve, hscheme]
  have hrelative : base.ReadsAsRelative text ↔
      base.scheme = v.scheme ∧ (schemeKind v.scheme).isSpecial = true ∧
        ¬2 ≤ ((Parts.ofText rest).front.takeWhile isSlash).length := by
    simp [ReadsAsRelative, hscheme, Parts.slashes_front_ofText]
  rw [hrelative, hjoin]
  constructor
  · intro hnot
    rw [ofScheme_eq_none base hnot, hread]
  · rintro ⟨hsame, hspecial, hslashes⟩
    exact exists_ofScheme_of_base hsame hspecial hslashes

end Url

namespace DispatchConfig

variable {config : DispatchConfig} {text : String} {v : Url}

theorem resolve_eq_of_parse (hbase : config.baseUrl = none) (h : Url.parse text config.toAscii = .ok v) :
    config.resolve text = .ok v := by
  simp only [resolve, hbase, h]

theorem resolve_eq_of_join {base : Url} (hbase : config.baseUrl = some base)
    (h : base.join text config.toAscii = .ok v) : config.resolve text = .ok v := by
  simp only [resolve, hbase, h]

/-- A URL that is absolute on its own is resolved whatever base is configured. -/
theorem exists_resolve_of_parse (config : DispatchConfig) (h : Url.parse text config.toAscii = .ok v) :
    ∃ w, config.resolve text = .ok w ∧ w.scheme = v.scheme := by
  cases hbase : config.baseUrl with
  | none => exact ⟨v, resolve_eq_of_parse hbase h, rfl⟩
  | some base =>
    obtain ⟨habsolute, hrelative⟩ := Url.join_of_parse base h
    by_cases hreads : base.ReadsAsRelative text
    · obtain ⟨w, hw, hscheme, -⟩ := hrelative hreads
      exact ⟨w, resolve_eq_of_join hbase hw, hscheme⟩
    · exact ⟨v, resolve_eq_of_join hbase (habsolute hreads), rfl⟩

/-- A URL that is absolute on its own is requested as it is, whatever base is configured; only a
    text that leaves out the slashes behind the scheme of the base is resolved to the base's own
    authority. -/
theorem resolve_absolute (config : DispatchConfig) {text : String} {v : Url}
    (h : Url.parse text config.toAscii = .ok v) :
    ((∀ base ∈ config.baseUrl, ¬base.ReadsAsRelative text) →
      config.resolve text = .ok v ∧
        ∀ item : WorkItem, item.url = text →
          config.request item = ({ config with baseUrl := none } : DispatchConfig).request item) ∧
    ∀ base ∈ config.baseUrl, base.ReadsAsRelative text →
      ∃ w, config.resolve text = .ok w ∧ w.scheme = v.scheme ∧
        (v.kind = .special → w.authority = base.authority) := by
  constructor
  · intro hnone
    have hresolve : config.resolve text = .ok v := by
      cases hbase : config.baseUrl with
      | none => exact resolve_eq_of_parse hbase h
      | some base =>
        exact resolve_eq_of_join hbase ((Url.join_of_parse base h).1 (hnone base hbase))
    refine ⟨hresolve, fun item hitem => ?_⟩
    have hplain : ({ config with baseUrl := none } : DispatchConfig).resolve text = .ok v :=
      resolve_eq_of_parse rfl h
    simp only [request, hitem, hresolve, hplain]
  · intro base hbase hreads
    obtain ⟨w, hw, hsame⟩ := (Url.join_of_parse base h).2 hreads
    exact ⟨w, resolve_eq_of_join hbase hw, hsame⟩

/-- Without its slashes the host of a URL becomes a path on the host of the base. -/
theorem resolve_without_slashes :
    ∃ base v w, Url.parse "http://localhost:8080/api/" Url.asciiDomains = .ok base ∧
      Url.parse "http:foo" Url.asciiDomains = .ok v ∧ v.text = "http://foo/" ∧
      ({ baseUrl := some base } : DispatchConfig).resolve "http:foo" = .ok w ∧
      w.text = "http://localhost:8080/api/foo" ∧ w.authority = base.authority ∧
      ({ baseUrl := some base } : DispatchConfig).resolve "http://foo" = .ok v := by
  let base : Url :=
    ⟨"http".toList, some ⟨[], none, .name "localhost".toList, some 8080⟩, "/api/".toList, none,
      none⟩
  let v : Url := ⟨"http".toList, some (.ofHost (.name "foo".toList)), "/".toList, none, none⟩
  have hv : Url.parse "http:foo" Url.asciiDomains = .ok v := by decide +kernel
  have hslashes : Url.parse "http://foo" Url.asciiDomains = .ok v := by decide +kernel
  obtain ⟨w, hw, -, hauthority⟩ :=
    (resolve_absolute { baseUrl := some base } hv).2 base rfl (by decide +kernel)
  have habsolute := (resolve_absolute { baseUrl := some base } hslashes).1 (by decide +kernel)
  -- the text of what is read shows the host as the last segment of the path
  have htext : (({ baseUrl := some base } : DispatchConfig).resolve "http:foo").map Url.text =
      .ok "http://localhost:8080/api/foo" := by decide +kernel
  rw [hw] at htext
  exact ⟨base, v, w, by decide +kernel, hv, by decide +kernel, hw, Except.ok.inj htext,
    hauthority (by decide +kernel), habsolute.1⟩

end DispatchConfig

end Courier
