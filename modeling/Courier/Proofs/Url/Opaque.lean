/-
  Courier/Proofs/Url/Opaque.lean
  ==============================
  **Which texts are read as opaque URLs.**

  Of the URLs that a text can be read as, only the opaque ones have no folder.  They are
  told from the text alone (`Url.ReadsAsOpaque`): their scheme is not one of the special
  ones, and no slash stands behind the colon.  Such a text is always a URL
  (`Url.exists_parse_of_readsAsOpaque`), and every other text, if it is one, has an authority
  or a path that begins with a slash (`Url.isOpaque_iff_of_parse`).
-/
import Courier.Proofs.Text.Numeral
import Courier.Proofs.Url.Folder

namespace Courier.Url

open Courier.Text

/-- Whether a text is read as an opaque URL: it has a scheme without rules of its own, and no slash
    behind the colon. -/
def ReadsAsOpaque (text : String) : Prop :=
  ∃ read ∈ scheme? (cleaned text.toList), schemeKind read.1 = .other ∧ read.2.head? ≠ some '/'

instance (text : String) : Decidable (ReadsAsOpaque text) :=
  inferInstanceAs (Decidable (∃ read ∈ scheme? (cleaned text.toList), _))

section

variable {toAscii : DomainToAscii} {scheme cs path : List Char} {parts : Parts} {v : Url}

/-! ### What stands in front -/

/-- A slash in front of a text is in front of its hierarchical part. -/
theorem Parts.head?_front_ofText (cs : List Char) :
    (Parts.ofText cs).front.head? = some '/' ↔ cs.head? = some '/' := by
  rw [Parts.front_ofText]
  cases cs with
  | nil => rfl
  | cons c rest =>
    by_cases hfragment : c = '#'
    · simp [hfragment]
    · by_cases hquery : c = '?' <;> simp [hfragment, hquery]

/-- No character is encoded as a text with a slash in front. -/
theorem head?_encode (h : cs.head? ≠ some '/') : (encode controlSet cs).head? ≠ some '/' := by
  cases cs with
  | nil => exact h
  | cons c rest =>
    simp only [encode, List.flatMap_cons, encodeChar]
    split
    · -- whatever the bytes are, the first one is written with a percent sign in front
      obtain ⟨byte, bytes, hbytes⟩ : ∃ byte bytes, String.utf8EncodeChar c = byte :: bytes := by
        simp only [String.utf8EncodeChar]
        repeat' split
        all_goals exact ⟨_, _, rfl⟩
      rw [hbytes, List.flatMap_cons, percentByte]
      simp
    · exact h

theorem head?_dropLastSlash (h : path.head? = some '/') :
    (dropLastSlash path).head? = some '/' := by
  simp only [dropLastSlash]
  split
  · rename_i hshorter
    obtain ⟨first, more, hcons⟩ := List.exists_cons_of_ne_nil
      (show path.dropLast ≠ [] by rintro hnil; simp [hnil] at hshorter)
    have hlead := List.dropLast_prefix path
    obtain ⟨rest, rfl⟩ := List.head?_eq_some_iff.1 h
    rw [hcons] at hlead ⊢
    rw [(List.cons_prefix_cons.1 hlead).1]
    rfl
  · exact h

theorem head?_append_of_some (h : path.head? = some '/') (cs : List Char) :
    (path ++ cs).head? = some '/' := by
  rw [List.head?_append, h]
  rfl

theorem head?_withLastSlash (h : path.head? = some '/') :
    (withLastSlash path).head? = some '/' := by
  simp only [withLastSlash]
  split
  · exact h
  · exact head?_append_of_some h _

/-- No segment takes the slash in front of a path away. -/
theorem PathProgress.head?_add (kind : SchemeKind) (progress : PathProgress) (segment : List Char)
    (slash : Bool) (h : progress.path.head? = some '/') :
    (progress.add kind segment slash).path.head? = some '/' := by
  -- a slash may be put behind a drive letter first, which is at the end of the path
  obtain ⟨path, hpath, hhead⟩ : ∃ path, (if kind = .file ∧ segment ≠ [] ∧
      isNormalDrive (progress.path.drop 1) then progress.path ++ ['/'] else progress.path) = path ∧
      path.head? = some '/' := by
    refine ⟨_, rfl, ?_⟩
    split
    · exact head?_append_of_some h _
    · exact h
  simp only [PathProgress.add, hpath]
  split
  · obtain ⟨rest, hrest, -⟩ := exists_popSegment kind (head?_dropLastSlash hhead)
    rw [hrest]
    split
    · exact head?_withLastSlash rfl
    · rfl
  · split
    · exact head?_withLastSlash hhead
    · split
      · simp only [List.append_assoc]
        exact head?_append_of_some hhead _
      · simp only [List.append_assoc]
        exact head?_append_of_some hhead _

theorem PathProgress.head?_addAll (kind : SchemeKind) (segments : List (List Char))
    (progress : PathProgress) (h : progress.path.head? = some '/') :
    (progress.addAll kind segments).path.head? = some '/' := by
  induction segments generalizing progress with
  | nil => exact h
  | cons segment segments ih =>
    cases segments with
    | nil => exact progress.head?_add kind segment false h
    | cons second segments => exact ih _ (progress.head?_add kind segment true h)

/-! ### What is read -/

/-- A URL of a scheme with rules of its own has an authority. -/
theorem isOpaque_of_isSpecial (hkind : (schemeKind scheme).isSpecial = true)
    (h : ofScheme toAscii none scheme parts = .ok v) : v.isOpaque = false := by
  cases hcase : schemeKind scheme with
  | file =>
    simp only [ofScheme, hcase, Option.filter_none] at h
    obtain ⟨host, path, rfl, -⟩ := exists_fileUrl h
    rfl
  | special =>
    rw [ofScheme_special hcase] at h
    obtain ⟨-, -, -, -, -, -, rfl⟩ := exists_of_afterSlashes h
    rfl
  | other =>
    rw [hcase] at hkind
    cases hkind

/-- A URL of any other scheme is opaque unless a slash stands behind the colon. -/
theorem isOpaque_of_other (hkind : schemeKind scheme = .other)
    (h : ofScheme toAscii none scheme parts = .ok v) :
    v.isOpaque = true ↔ parts.front.head? ≠ some '/' := by
  simp only [ofScheme, hkind] at h
  split at h
  · rename_i rest hfront
    obtain ⟨-, -, -, -, -, -, rfl⟩ := exists_of_afterSlashes h
    simp [hfront, isOpaque, Parts.finish]
  · rename_i rest _ hfront
    obtain rfl := Except.ok.inj h
    have hpath := PathProgress.head?_addAll .other (splitAt '/' (slashed .other rest))
      { path := ['/'] } rfl
    simp [hfront, isOpaque, Parts.finish, extendPath, hpath]
  · rename_i hslash
    obtain rfl := Except.ok.inj h
    have hhead : parts.front.head? ≠ some '/' := by
      intro hhead
      obtain ⟨rest, hrest⟩ := List.head?_eq_some_iff.1 hhead
      exact hslash rest hrest
    simp [hhead, isOpaque, Parts.finish, head?_encode hhead]

end

variable {toAscii : DomainToAscii} {text : String} {base : Url}

/-- A URL is opaque exactly if the text that it was read from says so. -/
theorem isOpaque_iff_of_parse (h : Url.parse text toAscii = .ok base) :
    base.isOpaque = true ↔ ReadsAsOpaque text := by
  obtain ⟨rest, hscheme, hread⟩ := exists_scheme_of_parse h
  have hreads : ReadsAsOpaque text ↔ schemeKind base.scheme = .other ∧ rest.head? ≠ some '/' := by
    simp [ReadsAsOpaque, hscheme]
  rw [hreads, Ne, ← Parts.head?_front_ofText]
  by_cases hkind : schemeKind base.scheme = .other
  · simp only [hkind, true_and]
    exact isOpaque_of_other hkind hread
  · have hspecial : (schemeKind base.scheme).isSpecial = true := by
      cases hcase : schemeKind base.scheme with
      | other => exact absurd hcase hkind
      | file => rfl
      | special => rfl
    simp [hkind, isOpaque_of_isSpecial hspecial hread]

/-- Nothing is wrong with a text that is read as an opaque URL. -/
theorem exists_parse_of_readsAsOpaque (h : ReadsAsOpaque text) :
    ∃ base, Url.parse text toAscii = .ok base := by
  obtain ⟨⟨scheme, rest⟩, hscheme, hkind, hslash⟩ := h
  have hfront := mt (Parts.head?_front_ofText rest).1 hslash
  have hread : Url.parse text toAscii = ofScheme toAscii none scheme (.ofText rest) := by
    simp only [Url.parse, resolve, Option.mem_def.1 hscheme]
  simp only [hread, ofScheme, hkind]
  split
  · rename_i hslashes
    simp [hslashes] at hfront
  · exact ⟨_, rfl⟩
  · exact ⟨_, rfl⟩

/-- A text that is read as an opaque URL holds a colon, and is not blank. -/
theorem ReadsAsOpaque.not_isBlankText (h : ReadsAsOpaque text) :
    ¬ IsBlankText text.toList := by
  obtain ⟨read, hread, -⟩ := h
  obtain ⟨scheme, -, hcleaned, -⟩ := scheme?_eq_some.1 hread
  have hcolon : ':' ∈ cleaned text.toList := by
    rw [hcleaned]
    simp
  intro hblank
  cases hblank ':' (mem_of_mem_cleaned hcolon)

/-- The path of a `file` URL begins with one slash. -/
theorem isRooted_of_parse (h : Url.parse text toAscii = .ok base) (hkind : base.kind = .file) :
    IsRooted base.path := by
  obtain ⟨rest, -, hread⟩ := exists_scheme_of_parse h
  have hcase : schemeKind base.scheme = .file := hkind
  simp only [ofScheme, hcase, Option.filter_none] at hread
  obtain ⟨host, path, rfl, hpath⟩ := exists_fileUrl hread
  exact hpath

/-- What is read from a text that does not say that it is opaque has a folder for every plain
    reference, and what is read from any other text refuses them all. -/
theorem join_plain_of_parse {item : String} (h : Url.parse text toAscii = .ok base)
    (hitem : IsPlainReference item.toList) :
    base.join item toAscii =
      if ReadsAsOpaque text then .error .baseIsOpaque else .ok (base.inFolder item.toList) := by
  rw [join_plain hitem (isRooted_of_parse h)]
  simp only [isOpaque_iff_of_parse h]

end Courier.Url
