/-
  Courier/Proofs/Config/StatusCodes.lean
  ======================================
  **Which lists of status codes can be configured, and what they come to.**

  A list of status codes is cut at its commas.  A piece is a blank, which does not
  count, or it writes a status code; any other piece makes the whole list an error.
  The codes are gathered in a list that is ascending and so holds none of them twice
  (`Setting.pairwise_ascending`): it depends on the set of the codes alone, not on how
  often, in which order or in which spelling they are written.
-/
import Courier.Config
import Courier.Proofs.Reading
import Courier.Proofs.Text.Numeral
import Courier.Proofs.Text.Pieces
import Mathlib.Data.List.Sort

namespace Courier.Setting

open Courier.Text

/-! ### Ascending lists -/

theorem mem_insertAscending {m n : Nat} {ns : List Nat} :
    m ∈ insertAscending n ns ↔ m = n ∨ m ∈ ns := by
  induction ns with
  | nil => simp [insertAscending]
  | cons first rest ih =>
    simp only [insertAscending]
    split
    · simp
    · split
      · rename_i heq
        simp [heq]
      · simp only [List.mem_cons, ih]
        exact or_left_comm

theorem mem_ascending {m : Nat} {ns : List Nat} : m ∈ ascending ns ↔ m ∈ ns := by
  induction ns with
  | nil => rfl
  | cons n ns ih =>
    rw [ascending, List.foldr_cons, mem_insertAscending, ← ascending, ih, List.mem_cons]

theorem pairwise_insertAscending {n : Nat} {ns : List Nat} (h : ns.Pairwise (· < ·)) :
    (insertAscending n ns).Pairwise (· < ·) := by
  induction ns with
  | nil => simp [insertAscending]
  | cons first rest ih =>
    obtain ⟨hfirst, hrest⟩ := List.pairwise_cons.1 h
    simp only [insertAscending]
    split
    · rename_i hlt
      refine List.pairwise_cons.2 ⟨fun m hm => ?_, h⟩
      rcases List.mem_cons.1 hm with rfl | hm
      · exact hlt
      · exact Nat.lt_trans hlt (hfirst m hm)
    · split
      · exact h
      · refine List.pairwise_cons.2 ⟨fun m hm => ?_, ih hrest⟩
        rcases mem_insertAscending.1 hm with rfl | hm
        · omega
        · exact hfirst m hm

theorem pairwise_ascending (ns : List Nat) : (ascending ns).Pairwise (· < ·) := by
  induction ns with
  | nil => exact List.Pairwise.nil
  | cons n ns ih => exact pairwise_insertAscending ih

/-! ### Single codes -/

/-- Whether a number is a status code of HTTP. -/
def IsStatusCode (code : Nat) : Prop := 100 ≤ code ∧ code ≤ 599

instance (code : Nat) : Decidable (IsStatusCode code) := inferInstanceAs (Decidable (_ ∧ _))

variable {piece : List Char} {code : Nat}

theorem integer_eq_ok_iff {range : IntegerRange} {name text : String} {n : Int} :
    integer range name text = .ok n ↔ readInteger range (trim text.toList) = .ok n := by
  simp only [integer]
  cases readInteger range (trim text.toList) <;> simp

/-- A piece is read as the status code that it writes. -/
theorem statusCode_eq_ok_iff :
    statusCode (String.ofList (trim piece)) = .ok code ↔ Writes piece code ∧ IsStatusCode code := by
  have hinteger : ∀ n, integer (.unsigned 16) "RETRY_STATUS_CODES" (String.ofList (trim piece)) =
      .ok n ↔ ∃ value : Nat, Writes piece value ∧ n = value ∧ n ≤ 65535 := by
    intro n
    rw [integer_eq_ok_iff, String.toList_ofList, readInteger_trim_eq_ok_iff]
    simp only [writes_trim]
    rfl
  simp only [statusCode]
  constructor
  · intro h
    obtain ⟨n, hn, h⟩ := exists_of_bind_eq_ok h
    obtain ⟨value, hwrites, rfl, -⟩ := (hinteger n).1 hn
    split at h
    · rename_i hcode
      obtain rfl := Except.ok.inj h
      exact ⟨hwrites, by simp only [IsStatusCode]; omega⟩
    · cases h
  · rintro ⟨hwrites, hlow, hhigh⟩
    have hread := (hinteger code).2 ⟨code, hwrites, rfl, by omega⟩
    have hcode : (100 : Int) ≤ code ∧ (code : Int) ≤ 599 := by omega
    simp only [hread, bind, Except.bind, hcode, and_self, if_true, Int.toNat_natCast]
    rfl

/-- What is no status code is reported as a fault of the configuration. -/
theorem exists_reason_of_statusCode {text : String} {e : Error} (h : statusCode text = .error e) :
    ∃ reason, e = .config reason := by
  simp only [statusCode, integer] at h
  cases hread : readInteger (.unsigned 16) (trim text.toList) with
  | error fault =>
    rw [hread] at h
    exact ⟨_, (Except.error.inj h).symm⟩
  | ok n =>
    simp only [hread, bind, Except.bind] at h
    split at h
    · cases h
    · exact ⟨_, (Except.error.inj h).symm⟩

/-! ### Lists of codes -/

/-- Whether a piece may stand between the commas: it is blank, or it writes a status code. -/
def IsEntry (piece : List Char) : Prop :=
  IsBlankText piece ∨ ∃ code, Writes piece code ∧ IsStatusCode code

/-- A blank piece writes nothing. -/
theorem not_writes_of_isBlankText (h : IsBlankText piece) : ¬ Writes piece code := by
  intro hwrites
  obtain ⟨numeral, htrim, -⟩ := writes_iff_trim.1 hwrites
  rw [trim_eq_nil_iff.2 h] at htrim
  exact numeral.text_ne_nil htrim.symm

/-- What an entry writes is a status code. -/
theorem IsEntry.isStatusCode (h : IsEntry piece) (hwrites : Writes piece code) :
    IsStatusCode code := by
  rcases h with hblank | ⟨code', hwrites', hcode'⟩
  · exact absurd hwrites (not_writes_of_isBlankText hblank)
  · exact hwrites.unique hwrites' ▸ hcode'

/-- The pieces that are read, which are those that are not blank. -/
def entries (text : String) : List (List Char) :=
  ((splitAt ',' text.toList).map trim).filter (!·.isEmpty)

theorem mem_entries {text : String} {entry : List Char} :
    entry ∈ entries text ↔
      ∃ piece ∈ text.toList.splitOn ',', ¬ IsBlankText piece ∧ entry = trim piece := by
  simp only [entries, splitAt_eq_splitOn, List.mem_filter, List.mem_map, ← trim_eq_nil_iff]
  constructor
  · rintro ⟨⟨piece, hpiece, rfl⟩, hsome⟩
    exact ⟨piece, hpiece, by simpa using hsome, rfl⟩
  · rintro ⟨piece, hpiece, hsome, rfl⟩
    exact ⟨⟨piece, hpiece, rfl⟩, by simpa using hsome⟩

theorem statusCodes_eq (text : String) :
    statusCodes text =
      ((entries text).mapM fun entry => statusCode (String.ofList entry)).map ascending := rfl

variable {text : String} {pieces : List (List Char)} {codes : List Nat}

/-- If all pieces are entries, their codes are read, in ascending order. -/
theorem statusCodes_of_entries (h : ∀ piece ∈ text.toList.splitOn ',', IsEntry piece) :
    ∃ codes, statusCodes text = .ok codes ∧ codes.Pairwise (· < ·) ∧
      ∀ code, code ∈ codes ↔ ∃ piece ∈ text.toList.splitOn ',', Writes piece code := by
  rw [statusCodes_eq]
  cases hread : (entries text).mapM fun entry => statusCode (String.ofList entry) with
  | error e =>
    obtain ⟨entry, hentry, hfault⟩ := exists_of_mapM_eq_error hread
    obtain ⟨piece, hpiece, hsome, rfl⟩ := mem_entries.1 hentry
    obtain ⟨code, hcode⟩ := (h piece hpiece).resolve_left hsome
    rw [statusCode_eq_ok_iff.2 hcode] at hfault
    cases hfault
  | ok found =>
    refine ⟨ascending found, rfl, pairwise_ascending found, fun code => ?_⟩
    rw [mem_ascending, mem_of_mapM_eq_ok hread]
    constructor
    · rintro ⟨entry, hentry, hcode⟩
      obtain ⟨piece, hpiece, -, rfl⟩ := mem_entries.1 hentry
      exact ⟨piece, hpiece, (statusCode_eq_ok_iff.1 hcode).1⟩
    · rintro ⟨piece, hpiece, hwrites⟩
      have hsome : ¬ IsBlankText piece := fun hblank => not_writes_of_isBlankText hblank hwrites
      exact ⟨trim piece, mem_entries.2 ⟨piece, hpiece, hsome, rfl⟩,
        statusCode_eq_ok_iff.2 ⟨hwrites, (h piece hpiece).isStatusCode hwrites⟩⟩

/-- A piece that is no entry makes the whole list a fault of the configuration. -/
theorem statusCodes_of_not_entry (hpiece : piece ∈ text.toList.splitOn ',')
    (h : ¬ IsEntry piece) : ∃ reason, statusCodes text = .error (.config reason) := by
  rw [statusCodes_eq]
  cases hread : (entries text).mapM fun entry => statusCode (String.ofList entry) with
  | error e =>
    obtain ⟨entry, -, hfault⟩ := exists_of_mapM_eq_error hread
    obtain ⟨reason, rfl⟩ := exists_reason_of_statusCode hfault
    exact ⟨reason, rfl⟩
  | ok found =>
    have hsome : ¬ IsBlankText piece := fun hblank => h (Or.inl hblank)
    obtain ⟨code, hcode⟩ :=
      exists_of_mapM_eq_ok hread (mem_entries.2 ⟨piece, hpiece, hsome, rfl⟩)
    exact absurd (Or.inr ⟨code, statusCode_eq_ok_iff.1 hcode⟩) h

/-- Whether pieces write out a set of status codes, given in ascending order: every piece is blank
    or writes one of the codes, and every code is written, however often and in whatever order. -/
structure WritesOut (pieces : List (List Char)) (codes : List Nat) : Prop where
  pairwise : codes.Pairwise (· < ·)
  isStatusCode : ∀ code ∈ codes, IsStatusCode code
  written : ∀ code ∈ codes, ∃ piece ∈ pieces, Writes piece code
  nothingElse : ∀ piece ∈ pieces, IsBlankText piece ∨ ∃ code ∈ codes, Writes piece code

namespace WritesOut

theorem isEntry (h : WritesOut pieces codes) : ∀ piece ∈ pieces, IsEntry piece := by
  intro piece hpiece
  rcases h.nothingElse piece hpiece with hblank | ⟨code, hcode, hwrites⟩
  · exact Or.inl hblank
  · exact Or.inr ⟨code, hwrites, h.isStatusCode code hcode⟩

theorem mem_iff (h : WritesOut pieces codes) (code : Nat) :
    code ∈ codes ↔ ∃ piece ∈ pieces, Writes piece code := by
  constructor
  · exact h.written code
  · rintro ⟨piece, hpiece, hwrites⟩
    rcases h.nothingElse piece hpiece with hblank | ⟨code', hcode', hwrites'⟩
    · exact absurd hwrites (not_writes_of_isBlankText hblank)
    · exact hwrites.unique hwrites' ▸ hcode'

/-- A set of codes is read back from the pieces that write it out. -/
theorem statusCodes_eq (h : WritesOut pieces codes)
    (hpieces : text.toList.splitOn ',' = pieces) : statusCodes text = .ok codes := by
  obtain ⟨found, hread, hpairwise, hmem⟩ := statusCodes_of_entries (hpieces ▸ h.isEntry)
  have hsame : found = codes :=
    hpairwise.eq_of_mem_iff h.pairwise fun code => by rw [hmem, hpieces, h.mem_iff]
  rw [hread, hsame]

end WritesOut

/-- There is no comma in an entry. -/
theorem IsEntry.comma_notMem (h : IsEntry piece) : ',' ∉ piece := by
  intro hcomma
  rcases h with hblank | ⟨code, ⟨before, numeral, after, hbefore, hafter, rfl, -⟩, -⟩
  · cases hblank ',' hcomma
  · simp only [List.mem_append] at hcomma
    rcases hcomma with (hcomma | hcomma) | hcomma
    · cases hbefore ',' hcomma
    · rcases Numeral.mem_text hcomma with heq | hdigit
      · cases heq
      · cases hdigit
    · cases hafter ',' hcomma

/-- A list of status codes is read exactly: if every piece between its commas is blank or writes a
    status code, the codes that are written are what is read, in ascending order, and otherwise
    the list is refused.  So a set of codes is read back however it is written out. -/
theorem statusCodes_exact (text : String) :
    ((∀ piece ∈ text.toList.splitOn ',', IsEntry piece) →
      ∃ codes, statusCodes text = .ok codes ∧ codes.Pairwise (· < ·) ∧
        ∀ code, code ∈ codes ↔ ∃ piece ∈ text.toList.splitOn ',', Writes piece code) ∧
    ((∃ piece ∈ text.toList.splitOn ',', ¬ IsEntry piece) →
      ∃ reason, statusCodes text = .error (.config reason)) ∧
    ∀ codes pieces, WritesOut pieces codes → text.toList = [','].intercalate pieces →
      statusCodes text = .ok codes := by
  refine ⟨statusCodes_of_entries, ?_, ?_⟩
  · rintro ⟨piece, hpiece, h⟩
    exact statusCodes_of_not_entry hpiece h
  · intro codes pieces h htext
    cases pieces with
    | nil =>
      -- nothing is written by no pieces, as by a single one that is blank
      have hblank : WritesOut [[]] codes := by
        refine ⟨h.pairwise, h.isStatusCode, ?_, by simp [IsBlankText]⟩
        intro code hcode
        obtain ⟨piece, hpiece, -⟩ := h.written code hcode
        cases hpiece
      refine hblank.statusCodes_eq ?_
      rw [htext]
      rfl
    | cons first rest =>
      refine h.statusCodes_eq ?_
      rw [htext]
      exact List.splitOn_intercalate ',' (fun piece hpiece => (h.isEntry piece hpiece).comma_notMem)
        (List.cons_ne_nil first rest)

/-- Repetitions, blank pieces, signs and zeros in front make no difference, and a number that a word
    of sixteen bits would take for a status code is none. -/
theorem spelled_codes_are_read :
    statusCodes "503, +00429,,429\u2003" = .ok [429, 503] ∧
      (∃ codes, statusCodes "429\u2003" = .ok codes ∧ 429 ∈ codes) ∧
      ∃ reason, statusCodes "65965" = .error (.config reason) := by
  have hserver : Writes "503".toList 503 := @writes_padded [] [] nofun nofun false 0 503
  have hsigned : Writes " +00429".toList 429 :=
    @writes_padded " ".toList [] (by decide) nofun true 5 429
  have hplain : Writes "429\u2003".toList 429 :=
    @writes_padded [] "\u2003".toList nofun (by decide) false 0 429
  have hgreat : Writes "65965".toList 65965 := @writes_padded [] [] nofun nofun false 0 65965
  refine ⟨?_, ?_, ?_⟩
  · refine (statusCodes_exact _).2.2 [429, 503]
      ["503".toList, " +00429".toList, [], "429\u2003".toList] ?_ (by decide +kernel)
    refine ⟨by decide, by decide, ?_, ?_⟩
    · simp only [List.forall_mem_cons]
      exact ⟨⟨_, by simp, hplain⟩, ⟨_, by simp, hserver⟩, nofun⟩
    · simp only [List.forall_mem_cons]
      exact ⟨.inr ⟨503, by decide, hserver⟩, .inr ⟨429, by decide, hsigned⟩, .inl nofun,
        .inr ⟨429, by decide, hplain⟩, nofun⟩
  · have hpieces : "429\u2003".toList.splitOn ',' = ["429\u2003".toList] := by decide +kernel
    have hentries : ∀ piece ∈ "429\u2003".toList.splitOn ',', IsEntry piece := by
      rw [hpieces]
      simp only [List.forall_mem_cons]
      exact ⟨.inr ⟨429, hplain, by decide⟩, nofun⟩
    obtain ⟨codes, hread, -, hmem⟩ := (statusCodes_exact _).1 hentries
    refine ⟨codes, hread, (hmem 429).2 ⟨_, ?_, hplain⟩⟩
    rw [hpieces]
    exact List.mem_cons_self
  · refine (statusCodes_exact _).2.1 ⟨"65965".toList, by decide +kernel, ?_⟩
    rintro (hblank | ⟨code, hwrites, hcode⟩)
    · exact not_writes_of_isBlankText hblank hgreat
    · rw [hwrites.unique hgreat] at hcode
      revert hcode
      decide

end Courier.Setting
