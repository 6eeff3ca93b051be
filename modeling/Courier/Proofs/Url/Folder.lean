/-
  Courier/Proofs/Url/Folder.lean
  ==============================
  **Where relative references are read.**

  A reference of plain segments, which are letters and digits, is read in the folder
  of the base: its path up to the last slash (`Url.join_plain`).  Plain segments need
  no encoding, and are neither dots nor drive letters, so that a path is built of them
  by putting one behind the other (`Url.path_addAll_plain`).  In the `file` scheme this
  takes a base whose path begins with one slash only (`Url.IsRooted`), as that of every
  `file` URL does.
-/
import Courier.Proofs.Text.Pieces
import Courier.Proofs.Url.Base
import Mathlib.Data.List.DropRight

namespace Courier.Url

open Courier.Text

/-! ### Plain segments -/

/-- Whether a character is an ASCII letter or digit. -/
def isAlphanumeric (c : Char) : Bool := isLetter c || isDigit c

/-- A segment of letters and digits. -/
structure IsPlainSegment (segment : List Char) : Prop where
  ne_nil : segment ≠ []
  alphanumeric : ∀ c ∈ segment, isAlphanumeric c = true

instance (segment : List Char) : Decidable (IsPlainSegment segment) :=
  decidable_of_iff (segment ≠ [] ∧ segment.all isAlphanumeric = true)
    ⟨fun h => ⟨h.1, List.all_eq_true.1 h.2⟩, fun h => ⟨h.1, List.all_eq_true.2 h.2⟩⟩

/-- A relative reference of plain segments with slashes in between. -/
def IsPlainReference (text : List Char) : Prop :=
  ∃ segments, segments ≠ [] ∧ (∀ segment ∈ segments, IsPlainSegment segment) ∧
    text = joinWith ['/'] segments

variable {c : Char} {segment : List Char} {segments : List (List Char)} {kind : SchemeKind}

theorem isAlphanumeric_iff :
    isAlphanumeric c = true ↔
      (97 ≤ c.toNat ∧ c.toNat ≤ 122) ∨ (65 ≤ c.toNat ∧ c.toNat ≤ 90) ∨
        (48 ≤ c.toNat ∧ c.toNat ≤ 57) := by
  simp only [isAlphanumeric, isLetter, isDigit, Bool.or_eq_true, Bool.and_eq_true,
    decide_eq_true_eq, Char.le_def, UInt32.le_iff_toNat_le, or_assoc]
  rfl

theorem isSchemeChar_of_isAlphanumeric (h : isAlphanumeric c = true) : isSchemeChar c = true := by
  simp only [isAlphanumeric, Bool.or_eq_true] at h
  simp only [isSchemeChar, Bool.or_eq_true]
  exact Or.inl (Or.inl (Or.inl h))

theorem ne_of_isAlphanumeric {mark : Char} (h : isAlphanumeric c = true)
    (hmark : isAlphanumeric mark = false) : c ≠ mark := by
  rintro rfl
  rw [h] at hmark
  cases hmark

theorem isAlphanumeric_lower (h : isAlphanumeric c = true) : isAlphanumeric (lower c) = true := by
  simp only [lower]
  split
  · rename_i hupper
    simp only [Bool.and_eq_true, decide_eq_true_eq, Char.le_def, UInt32.le_iff_toNat_le] at hupper
    have hrange : 65 ≤ c.toNat ∧ c.toNat ≤ 90 := hupper
    have hlower : (Char.ofNat (c.toNat + 32)).toNat = c.toNat + 32 := by
      rw [Char.ofNat, dif_pos (Or.inl (by omega))]
      rfl
    rw [isAlphanumeric_iff, hlower]
    omega
  · exact h

theorem mustEncode_of_isAlphanumeric (h : isAlphanumeric c = true) :
    mustEncode pathSet c = false := by
  have hrange : 0x20 ≤ c.toNat ∧ c.toNat < 0x7f := by
    have hcases := isAlphanumeric_iff.1 h
    omega
  have hset : pathSet c = false := by
    have hne : ∀ mark, isAlphanumeric mark = false → decide (c = mark) = false :=
      fun mark hmark => decide_eq_false (ne_of_isAlphanumeric h hmark)
    simp only [pathSet, fragmentSet, hne ' ' rfl, hne '"' rfl, hne '<' rfl, hne '>' rfl,
      hne '\x60' rfl, hne '#' rfl, hne '?' rfl, hne '\x7b' rfl, hne '\x7d' rfl, Bool.or_self]
  simp [mustEncode, hrange, hset]

namespace IsPlainSegment

theorem encode_eq (h : IsPlainSegment segment) : encode pathSet segment = segment :=
  encode_eq_self fun c hc => mustEncode_of_isAlphanumeric (h.alphanumeric c hc)

/-- A plain segment is in lower case none that begins with something else. -/
theorem lowercase_ne (h : IsPlainSegment segment) {mark : Char} {rest : List Char}
    (hmark : isAlphanumeric mark = false) : lowercase segment ≠ mark :: rest := by
  intro heq
  obtain ⟨first, more, rfl⟩ := List.exists_cons_of_ne_nil h.ne_nil
  have hfirst := isAlphanumeric_lower (h.alphanumeric first List.mem_cons_self)
  rw [lowercase, List.map_cons] at heq
  rw [(List.cons.inj heq).1, hmark] at hfirst
  cases hfirst

theorem not_singleDot (h : IsPlainSegment segment) : isSingleDot segment = false := by
  have hdot : lowercase segment ≠ ['.'] := h.lowercase_ne rfl
  have hencoded : lowercase segment ≠ "%2e".toList := h.lowercase_ne rfl
  simp only [isSingleDot, hdot, hencoded, decide_false, Bool.or_self]

theorem not_doubleDot (h : IsPlainSegment segment) : isDoubleDot segment = false := by
  have hdots : lowercase segment ≠ "..".toList := h.lowercase_ne rfl
  have hsecond : lowercase segment ≠ ".%2e".toList := h.lowercase_ne rfl
  have hfirst : lowercase segment ≠ "%2e.".toList := h.lowercase_ne rfl
  have hboth : lowercase segment ≠ "%2e%2e".toList := h.lowercase_ne rfl
  simp only [isDoubleDot, List.any_cons, List.any_nil, hdots, hsecond, hfirst, hboth,
    decide_false, Bool.or_self]

end IsPlainSegment

/-! ### Drive letters -/

theorem beginsWithDrive_eq_false {cs : List Char} (h : ∀ c ∈ cs, c ≠ ':' ∧ c ≠ '|') :
    beginsWithDrive cs = false := by
  match cs with
  | [] => rfl
  | [a] => rfl
  | a :: b :: rest =>
    obtain ⟨hcolon, hbar⟩ := h b (by simp)
    simp [beginsWithDrive, hcolon, hbar]

theorem IsPlainSegment.not_drive (h : IsPlainSegment segment) : isDrive segment = false := by
  have hmarks : ∀ c ∈ segment, c ≠ ':' ∧ c ≠ '|' := fun c hc =>
    ⟨ne_of_isAlphanumeric (h.alphanumeric c hc) rfl, ne_of_isAlphanumeric (h.alphanumeric c hc) rfl⟩
  simp only [isDrive, beginsWithDrive_eq_false hmarks, Bool.and_false]

/-- A path to which a segment is added: behind a drive letter that is all of it a slash is put. -/
def settled (kind : SchemeKind) (path : List Char) : List Char :=
  if kind = .file ∧ isNormalDrive (path.drop 1) then path ++ ['/'] else path

theorem isNormalDrive_append_slash (path : List Char) :
    isNormalDrive ((path ++ ['/']).drop 1) = false := by
  match path with
  | [] => rfl
  | [a] => rfl
  | [a, b] => simp [isNormalDrive]
  | a :: b :: c :: rest => simp [isNormalDrive, isDrive]

theorem settled_append_slash (kind : SchemeKind) (path : List Char) :
    settled kind (path ++ ['/']) = path ++ ['/'] := by
  simp only [settled, isNormalDrive_append_slash, Bool.false_eq_true, and_false, if_false]

/-! ### Building a path of plain segments -/

theorem path_add_plain (h : IsPlainSegment segment) (progress : PathProgress) (slash : Bool) :
    (progress.add kind segment slash).path =
      settled kind progress.path ++ segment ++ if slash then ['/'] else [] := by
  simp only [PathProgress.add, h.encode_eq, h.not_doubleDot, h.not_singleDot, h.not_drive]
  simp [settled, h.ne_nil]

theorem path_addAll_plain (hsome : segments ≠ [])
    (h : ∀ segment ∈ segments, IsPlainSegment segment) (progress : PathProgress) :
    (progress.addAll kind segments).path =
      settled kind progress.path ++ joinWith ['/'] segments := by
  induction segments generalizing progress with
  | nil => exact absurd rfl hsome
  | cons first rest ih =>
    have hfirst := h first List.mem_cons_self
    cases rest with
    | nil =>
      rw [PathProgress.addAll, path_add_plain hfirst]
      simp [joinWith]
    | cons second rest =>
      -- the slash behind the first segment is there already when the second one is added
      have hrest := ih (List.cons_ne_nil second rest)
        (fun segment hs => h segment (List.mem_cons_of_mem first hs))
      have hstep : progress.addAll kind (first :: second :: rest) =
        (progress.add kind first true).addAll kind (second :: rest) := rfl
      rw [hstep, hrest, path_add_plain hfirst, if_pos rfl, settled_append_slash, joinWith_cons]
      simp only [List.append_assoc]

namespace IsPlainReference

variable {text : List Char}

/-- A plain reference holds letters, digits and slashes. -/
theorem mem (h : IsPlainReference text) (hc : c ∈ text) : c = '/' ∨ isAlphanumeric c = true := by
  obtain ⟨segments, -, hplain, rfl⟩ := h
  rcases mem_joinWith hc with hslash | ⟨segment, hsegment, hmem⟩
  · exact Or.inl (List.mem_singleton.1 hslash)
  · exact Or.inr ((hplain segment hsegment).alphanumeric c hmem)

theorem notMem (h : IsPlainReference text) {mark : Char} (hslash : mark ≠ '/')
    (hmark : isAlphanumeric mark = false) : mark ∉ text := by
  intro hmem
  exact (h.mem hmem).elim hslash fun hplain => ne_of_isAlphanumeric hplain hmark rfl

/-- A plain reference begins with a letter or a digit. -/
theorem exists_cons (h : IsPlainReference text) :
    ∃ first rest, text = first :: rest ∧ isAlphanumeric first = true := by
  obtain ⟨segments, hsome, hplain, rfl⟩ := h
  obtain ⟨segment, segments, rfl⟩ := List.exists_cons_of_ne_nil hsome
  have hsegment := hplain segment List.mem_cons_self
  obtain ⟨first, rest, rfl⟩ := List.exists_cons_of_ne_nil hsegment.ne_nil
  rw [joinWith_cons_head]
  exact ⟨first, _, rfl, hsegment.alphanumeric first List.mem_cons_self⟩

/-- The segments of a plain reference are added to a path. -/
theorem path_addAll (h : IsPlainReference text) (progress : PathProgress) :
    (progress.addAll kind (splitAt '/' (slashed kind text))).path =
      settled kind progress.path ++ text := by
  have hslashed : slashed kind text = text := by
    simp only [slashed]
    split
    · have hkept : ∀ c ∈ text, (if c = '\\' then '/' else c) = id c := by
        intro c hc
        exact if_neg fun hback => h.notMem (by decide) rfl (hback ▸ hc)
      rw [List.map_congr_left hkept, List.map_id]
    · rfl
  obtain ⟨segments, hsome, hplain, htext⟩ := h
  have hsplit : splitAt '/' text = segments := by
    rw [htext]
    exact splitAt_joinWith (fun segment hs hmem =>
      ne_of_isAlphanumeric ((hplain segment hs).alphanumeric '/' hmem) rfl rfl) hsome
  rw [hslashed, hsplit, path_addAll_plain hsome hplain, htext]

end IsPlainReference

/-! ### Paths with one slash in front -/

/-- Whether a path begins with a slash, and with one only. -/
def IsRooted (path : List Char) : Prop := ∃ rest, path = '/' :: rest ∧ rest.head? ≠ some '/'

theorem upToSlash_eq (path : List Char) : upToSlash path = path.rdropWhile (· ≠ '/') := by
  have hlead := List.prefix_iff_eq_take.1 (List.rdropWhile_prefix (fun c => decide (c ≠ '/')) path)
  have hwhole := congrArg List.length
    (List.rdropWhile_append_rtakeWhile (p := fun c => decide (c ≠ '/')) (l := path))
  have hlast : lastSegment path = path.rtakeWhile (· ≠ '/') := rfl
  rw [List.length_append] at hwhole
  rw [hlead, upToSlash, hlast]
  congr 1
  omega

/-- A path that begins with a slash does so without its last segment. -/
theorem exists_popSegment {path : List Char} (kind : SchemeKind) (h : path.head? = some '/') :
    ∃ rest, popSegment kind path = '/' :: rest ∧ '/' :: rest <+: path := by
  obtain ⟨rest, rfl⟩ := List.head?_eq_some_iff.1 h
  have hlead : popSegment kind ('/' :: rest) <+: '/' :: rest := by
    simp only [popSegment]
    split
    · exact List.prefix_refl _
    · rw [upToSlash_eq]
      exact List.rdropWhile_prefix _ _
  have hsome : popSegment kind ('/' :: rest) ≠ [] := by
    simp only [popSegment]
    split
    · exact List.cons_ne_nil _ _
    · rw [upToSlash_eq]
      intro hnil
      simpa using List.rdropWhile_eq_nil_iff.1 hnil '/' List.mem_cons_self
  obtain ⟨first, more, hfront⟩ := List.exists_cons_of_ne_nil hsome
  rw [hfront] at hlead
  obtain ⟨rfl, -⟩ := List.cons_prefix_cons.1 hlead
  exact ⟨more, hfront, hlead⟩

namespace IsRooted

variable {path text : List Char}

theorem head? (h : IsRooted path) : path.head? = some '/' := by
  obtain ⟨rest, rfl, -⟩ := h
  rfl

theorem of_extendPath (path input : List Char) : IsRooted (extendPath .file path input).path := by
  refine ⟨_, rfl, fun hhead => ?_⟩
  have hnot := List.head?_dropWhile_not (fun c => decide (c = '/'))
    (PathProgress.addAll .file { path } (splitAt '/' (slashed .file input))).path
  rw [hhead] at hnot
  simp at hnot

theorem popSegment (h : IsRooted path) : IsRooted (popSegment .file path) := by
  obtain ⟨rest, hpop, hlead⟩ := exists_popSegment .file h.head?
  obtain ⟨rest', rfl, hrest'⟩ := h
  refine ⟨rest, hpop, ?_⟩
  cases rest with
  | nil => nofun
  | cons c rest =>
    obtain ⟨-, hrest⟩ := List.cons_prefix_cons.1 hlead
    obtain ⟨more, rfl⟩ := hrest
    exact hrest'

theorem settled (h : IsRooted path) : IsRooted (settled .file path) := by
  obtain ⟨rest, rfl, hrest⟩ := h
  simp only [Url.settled]
  split
  · cases rest with
    | nil =>
      rename_i hdrive
      cases hdrive.2
    | cons c rest => exact ⟨c :: rest ++ ['/'], rfl, hrest⟩
  · exact ⟨rest, rfl, hrest⟩

theorem dropWhile_append (h : IsRooted path) (htext : IsPlainReference text) :
    '/' :: (path ++ text).dropWhile (· = '/') = path ++ text := by
  obtain ⟨rest, rfl, hrest⟩ := h
  obtain ⟨first, more, rfl, hfirst⟩ := htext.exists_cons
  have hslash : first ≠ '/' := ne_of_isAlphanumeric hfirst rfl
  cases rest with
  | nil => simp [hslash]
  | cons c rest =>
    have hc : c ≠ '/' := by simpa using hrest
    simp [hc]

end IsRooted

theorem isRooted_pathAfterAuthority (input : List Char) :
    IsRooted (pathAfterAuthority .file input).path := by
  simp only [pathAfterAuthority, SchemeKind.isSpecial, if_true]
  split
  · exact IsRooted.of_extendPath _ _
  · exact IsRooted.of_extendPath _ _
  · exact IsRooted.of_extendPath _ _

theorem isRooted_fileOf_absolute (parts : Parts) (path afterSlash : List Char) :
    ∃ host path', fileOf.absolute none parts path afterSlash = fileUrl parts host path' ∧
      IsRooted path' := by
  refine ⟨.name [], _, ?_, IsRooted.of_extendPath [] path⟩
  simp only [fileOf.absolute, ite_self]

/-- A `file` URL has an authority, and one slash in front of its path. -/
theorem exists_fileUrl {toAscii : DomainToAscii} {parts : Parts} {v : Url}
    (h : fileOf toAscii none parts = .ok v) :
    ∃ host path, v = fileUrl parts host path ∧ IsRooted path := by
  -- whichever way the path is read, it is extended from the root at last
  simp only [fileOf] at h
  split at h
  · split at h
    · split at h
      · obtain rfl := Except.ok.inj h
        exact ⟨_, _, rfl, isRooted_pathAfterAuthority _⟩
      · obtain ⟨host, -, h⟩ := exists_of_bind_eq_ok h
        repeat' split at h
        all_goals
          obtain rfl := Except.ok.inj h
          exact ⟨_, _, rfl, isRooted_pathAfterAuthority _⟩
    · split at h
      · obtain rfl := Except.ok.inj h
        exact isRooted_fileOf_absolute ..
      · obtain rfl := Except.ok.inj h
        exact ⟨_, _, rfl, IsRooted.of_extendPath _ _⟩
  · obtain rfl := Except.ok.inj h
    split
    · exact isRooted_fileOf_absolute ..
    · exact ⟨_, _, rfl, IsRooted.of_extendPath _ _⟩
  · obtain rfl := Except.ok.inj h
    exact ⟨_, _, rfl, IsRooted.of_extendPath _ _⟩

/-! ### The folder of a URL -/

/-- Where relative references are read: the path up to its last slash.  A drive letter at the end of
    a `file` path stays in it. -/
def folder (u : Url) : List Char :=
  let front := popSegment u.kind u.path
  settled u.kind (if front.isEmpty then ['/'] else front)

/-- The URL of a relative reference in the folder of another URL. -/
def inFolder (u : Url) (text : List Char) : Url :=
  { u with path := u.folder ++ text, query := none, fragment := none }

section Plain

variable {toAscii : DomainToAscii} {base : Url} {text : List Char}

/-- A plain reference does not begin with a slash. -/
theorem IsPlainReference.exists_cons_not_slash (h : IsPlainReference text) :
    ∃ first rest, text = first :: rest ∧ ¬ (first = '/' ∨ first = '\\') := by
  obtain ⟨first, rest, rfl, hfirst⟩ := h.exists_cons
  refine ⟨first, rest, rfl, ?_⟩
  rintro (heq | heq)
  · exact ne_of_isAlphanumeric hfirst rfl heq
  · exact ne_of_isAlphanumeric hfirst rfl heq

theorem relativeTo_plain (htext : IsPlainReference text) (hkind : base.kind ≠ .file) :
    relativeTo toAscii base ⟨text, none, none⟩ = .ok (base.inFolder text) := by
  obtain ⟨first, rest, rfl, hslash⟩ := htext.exists_cons_not_slash
  have hpath : ∀ front, (extendPath base.kind front (first :: rest)).path =
      settled base.kind front ++ first :: rest := by
    intro front
    simp only [extendPath, hkind, if_false]
    exact htext.path_addAll _
  simp only [relativeTo, Bool.or_eq_true, decide_eq_true_eq, hslash, if_false, hpath]
  rfl

/-- Behind a drive letter or a slash of a `file` base, a plain reference is put as it is. -/
theorem fileOf_relative_plain (htext : IsPlainReference text) (hkind : base.kind = .file)
    (hpath : IsRooted base.path) :
    fileOf.relative (some base) ⟨text, none, none⟩ text = base.inFolder text := by
  have hfront := hpath.popSegment
  have hsome : (popSegment .file base.path).isEmpty = false := by
    obtain ⟨rest, hrest, -⟩ := hfront
    rw [hrest]
    rfl
  have hfolder : base.folder = settled .file (popSegment .file base.path) := by
    simp only [folder, hkind, hsome, Bool.false_eq_true, if_false]
  have hextend : (extendPath .file (popSegment .file base.path) text).path =
      base.folder ++ text := by
    simp only [extendPath, if_true, htext.path_addAll]
    rw [hfolder]
    exact hfront.settled.dropWhile_append htext
  have hdrive : partsBeginWithDrive ⟨text, none, none⟩ = false := by
    refine beginsWithDrive_eq_false fun c hc => ?_
    have hmem : c ∈ text := by simpa using hc
    exact ⟨fun heq => htext.notMem (by decide) rfl (heq ▸ hmem),
      fun heq => htext.notMem (by decide) rfl (heq ▸ hmem)⟩
  have hempty : text.isEmpty = false := by
    obtain ⟨first, rest, rfl, -⟩ := htext.exists_cons
    rfl
  simp only [fileOf.relative, hempty, hdrive, hextend, Bool.false_eq_true, if_false]
  rfl

theorem fileOf_plain (htext : IsPlainReference text) (hkind : base.kind = .file)
    (hpath : IsRooted base.path) :
    fileOf toAscii (some base) ⟨text, none, none⟩ = .ok (base.inFolder text) := by
  rw [← fileOf_relative_plain htext hkind hpath]
  obtain ⟨first, rest, rfl, hslash⟩ := htext.exists_cons_not_slash
  cases rest with
  | nil => simp only [fileOf, Bool.or_eq_true, decide_eq_true_eq, hslash, if_false]
  | cons second rest =>
    simp only [fileOf, Bool.and_eq_true, Bool.or_eq_true, decide_eq_true_eq, hslash, false_and,
      if_false]

theorem IsPlainReference.cleaned_eq (htext : IsPlainReference text) : cleaned text = text := by
  refine cleaned_eq_self fun c hc => ?_
  rcases htext.mem hc with rfl | hplain
  · rfl
  · exact isOuter_of_isSchemeChar (isSchemeChar_of_isAlphanumeric hplain)

theorem IsPlainReference.scheme?_eq_none (htext : IsPlainReference text) : scheme? text = none := by
  refine Option.eq_none_iff_forall_ne_some.2 fun found h => ?_
  obtain ⟨scheme, -, heq, -⟩ := scheme?_eq_some.1 h
  exact htext.notMem (by decide) rfl (heq ▸ by simp : ':' ∈ text)

theorem IsPlainReference.parts_ofText (htext : IsPlainReference text) :
    Parts.ofText text = ⟨text, none, none⟩ := by
  have hparts := Parts.ofText_append (htext.notMem (by decide) rfl) (htext.notMem (by decide) rfl) []
  rw [List.append_nil] at hparts
  rw [hparts]
  simp [Parts.ofText, cutAt]

/-- What a base does with a plain reference: an opaque one refuses it, and every other reads it in
    its folder.  A `file` base has to have one slash in front of its path. -/
theorem join_plain {text : String} (htext : IsPlainReference text.toList)
    (hpath : base.kind = .file → IsRooted base.path) :
    base.join text toAscii =
      if base.isOpaque then .error .baseIsOpaque else .ok (base.inFolder text.toList) := by
  have hhead : text.toList.head? ≠ some '#' := by
    obtain ⟨first, rest, hcons, hfirst⟩ := htext.exists_cons
    rw [hcons]
    exact fun heq => ne_of_isAlphanumeric hfirst rfl (Option.some.inj heq)
  simp only [join, resolve, htext.cleaned_eq, htext.scheme?_eq_none, htext.parts_ofText, hhead,
    if_false]
  cases hopen : base.isOpaque with
  | true => rfl
  | false =>
    by_cases hkind : base.kind = .file
    · simp only [hkind, if_true, Bool.false_eq_true, if_false]
      exact fileOf_plain htext hkind (hpath hkind)
    · simp only [hkind, Bool.false_eq_true, if_false]
      exact relativeTo_plain htext hkind

end Plain

end Courier.Url
