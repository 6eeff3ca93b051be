/-
  Courier/Proofs/Url/Host.lean
  ============================
  **What a character in the text of a host comes to.**

  Percent-decoding keeps every character that is no hexadecimal digit where it is
  (`decodeBytes_append`), so that such a character of a host's text is found again
  among the bytes that are mapped to a domain name (`mem_decodeBytes`).  An address in
  brackets holds hexadecimal digits, colons and full stops only (`ipv6?_eq_none`).  A
  character that is in no address and that the mapping refuses
  (`DomainToAscii.Refuses`) hence is in no host of a special scheme
  (`Host.ofSpecial_of_mem`).
-/
import Courier.Proofs.Text.Pieces
import Courier.Url.Host

namespace Courier

namespace Url

open Courier.Text

/-! ### Decoding -/

theorem decodeBytes_cons_of_ne {c : Char} (hc : c ≠ '%') (rest : List Char) :
    decodeBytes (c :: rest) = String.utf8EncodeChar c ++ decodeBytes rest := by
  rw [decodeBytes]
  intro a b rest' h
  exact absurd h hc

theorem decodeBytes_percent {a b : Char} (h : hexValue? a = none ∨ hexValue? b = none)
    (rest : List Char) :
    decodeBytes ('%' :: a :: b :: rest) =
      String.utf8EncodeChar '%' ++ decodeBytes (a :: b :: rest) := by
  rw [decodeBytes]
  rcases h with h | h
  · simp [h, String.utf8EncodeChar]
  · cases hexValue? a <;> simp [h, String.utf8EncodeChar]

/-- What stands in front of a character that is no hexadecimal digit is decoded on its own. -/
theorem decodeBytes_append {c : Char} (hc : hexValue? c = none) (a b : List Char) :
    decodeBytes (a ++ c :: b) = decodeBytes a ++ decodeBytes (c :: b) := by
  fun_induction decodeBytes a with
  | case1 => rfl
  | case2 x y rest n m hn hm ih =>
    simp only [List.cons_append, decodeBytes, hn, hm, ih]
  | case3 x y rest hnot ih =>
    have hnone : hexValue? x = none ∨ hexValue? y = none := by
      cases hx : hexValue? x with
      | none => exact Or.inl rfl
      | some n => exact Or.inr (Option.eq_none_iff_forall_ne_some.2 fun m hy => hnot n m hx hy)
    simp only [List.cons_append] at ih ⊢
    rw [decodeBytes_percent hnone, ih]
    rfl
  | case4 d rest hnot ih =>
    by_cases hd : d = '%'
    · subst hd
      -- a percent sign that fewer than two characters follow stands for itself, and still does
      match rest, hnot with
      | [], _ =>
        cases b with
        | nil => rfl
        | cons e b => exact decodeBytes_percent (Or.inl hc) b
      | [x], _ =>
        rw [List.append_assoc, ← ih]
        exact decodeBytes_percent (Or.inr hc) b
      | x :: y :: more, hnot => exact absurd rfl (hnot x y more rfl)
    · rw [List.append_assoc, ← ih]
      exact decodeBytes_cons_of_ne hd (rest ++ c :: b)

/-- What stands for itself alone is found again among the bytes that a text is decoded to. -/
theorem mem_decodeBytes {c : Char} {cs : List Char} (hc : hexValue? c = none) (hpercent : c ≠ '%')
    {byte : UInt8} (hbyte : byte ∈ String.utf8EncodeChar c) (hmem : c ∈ cs) :
    byte ∈ decodeBytes cs := by
  obtain ⟨a, b, rfl⟩ := List.append_of_mem hmem
  rw [decodeBytes_append hc, decodeBytes_cons_of_ne hpercent]
  simp [hbyte]

/-! ### Domain names -/

namespace DomainToAscii

/-- Whether a mapping refuses all names that hold an ASCII character. -/
def Refuses (toAscii : DomainToAscii) (c : Char) : Prop :=
  ∀ bytes, UInt8.ofNat c.toNat ∈ bytes → toAscii bytes = none

end DomainToAscii

/-- Without tables, names are refused for each character that may not stand in them. -/
theorem asciiDomains_refuses {c : Char} (hascii : c.toNat < 128) (hlower : lower c = c)
    (hforbidden : forbiddenInDomain c = true) : DomainToAscii.Refuses asciiDomains c := by
  intro bytes hbyte
  have hchar : Char.ofNat (UInt8.ofNat c.toNat).toNat = c := by
    rw [UInt8.toNat_ofNat', Nat.mod_eq_of_lt (by omega), Char.ofNat_toNat]
  have hmem : c ∈ lowercase (bytes.map fun b => Char.ofNat b.toNat) :=
    List.mem_map.2 ⟨c, List.mem_map.2 ⟨_, hbyte, hchar⟩, hlower⟩
  exact if_pos (List.any_eq_true.2 ⟨c, hmem, hforbidden⟩)

namespace Host

theorem isEmpty_of_ofDomain {domain : List Char} {host : Host} (h : ofDomain domain = .ok host) :
    host.isEmpty = false := by
  simp only [ofDomain] at h
  repeat' split at h
  all_goals cases h
  · rfl
  · rename_i hname _
    simpa [isEmpty] using hname

theorem isEmpty_of_ofSpecial {toAscii : DomainToAscii} {cs : List Char} {host : Host}
    (h : ofSpecial toAscii cs = .ok host) : host.isEmpty = false := by
  simp only [ofSpecial] at h
  split at h
  · simp only [ofBracketed] at h
    split at h <;> cases h
    rfl
  · split at h
    · exact isEmpty_of_ofDomain h
    · cases h

end Host

/-! ### Addresses in brackets -/

/-- Whether a character may stand in an address in brackets. -/
def isAddressChar (c : Char) : Bool := (hexValue? c).isSome || c = ':' || c = '.'

section Address

variable {c : Char} {cs : List Char}

theorem isAddressChar_eq_false :
    isAddressChar c = false ↔ hexValue? c = none ∧ c ≠ ':' ∧ c ≠ '.' := by
  simp [isAddressChar, and_assoc]

theorem mapM_eq_none {α β : Type} {f : α → Option β} {a : α} {as : List α} (ha : a ∈ as)
    (h : f a = none) : as.mapM f = none := by
  induction as with
  | nil => cases ha
  | cons b rest ih =>
    rcases List.mem_cons.1 ha with rfl | ha
    · simp [List.mapM_cons, h]
    · cases hb : f b <;> simp [List.mapM_cons, hb, ih ha]

theorem guard_bind_eq_none {α : Type} {p : Prop} [Decidable p] {next : Unit → Option α}
    (h : p → next () = none) : (guard p >>= next) = none := by
  delta guard
  by_cases hp : p
  · rw [if_pos hp]
    exact h hp
  · rw [if_neg hp]
    rfl

theorem dottedPieces?_eq_none (h : isAddressChar c = false) (hc : c ∈ cs) :
    dottedPieces? cs = none := by
  obtain ⟨hhex, -, hdot⟩ := isAddressChar_eq_false.1 h
  have hdigit : isDigit c = false := by
    cases hd : isDigit c with
    | false => rfl
    | true => simp [hexValue?, hd] at hhex
  obtain ⟨part, hpart, hmem⟩ := mem_splitAt hc hdot
  have hall : ¬ (part.all isDigit) = true := by
    intro hall
    rw [List.all_eq_true.1 hall c hmem] at hdigit
    cases hdigit
  refine guard_bind_eq_none fun _ => ?_
  rw [mapM_eq_none hpart (guard_bind_eq_none fun hdigits => absurd hdigits.2.1 hall)]
  rfl

/-- What is no hexadecimal digit stands behind the digits in front. -/
theorem mem_drop_hexDigits (hhex : hexValue? c = none) (hc : c ∈ cs) (n : Nat) :
    c ∈ cs.drop ((cs.take n).takeWhile fun d => (hexValue? d).isSome).length := by
  obtain ⟨rest, hrest⟩ : (cs.take n).takeWhile (fun d => (hexValue? d).isSome) <+: cs :=
    (List.takeWhile_prefix _).trans (List.take_prefix n cs)
  have hdrop := congrArg (List.drop ((cs.take n).takeWhile fun d => (hexValue? d).isSome).length)
    hrest
  rw [List.drop_left] at hdrop
  rw [← hdrop]
  refine (List.mem_append.1 (hrest ▸ hc)).resolve_left fun hdigit => ?_
  have hsome := List.all_eq_true.1 List.all_takeWhile c hdigit
  rw [hhex] at hsome
  cases hsome

theorem ipv6Pieces_eq_none (h : isAddressChar c = false) {n : Nat} {progress : Ipv6Progress}
    (hc : c ∈ cs) : ipv6Pieces n progress cs = none := by
  obtain ⟨hhex, hcolon, -⟩ := isAddressChar_eq_false.1 h
  fun_induction ipv6Pieces n progress cs with
  | case1 => cases hc
  | case4 n progress rest hgap ih => exact ih ((List.mem_cons.1 hc).resolve_left hcolon)
  | case5 n progress cs hne hcs digits value hrest =>
    have hdrop := mem_drop_hexDigits hhex hc 4
    rw [hrest] at hdrop
    cases hdrop
  | case7 => simp [dottedPieces?_eq_none h hc]
  | case9 n progress cs hne hcs digits value rest hrest hmore ih =>
    have hdrop := mem_drop_hexDigits hhex hc 4
    rw [hrest] at hdrop
    exact ih ((List.mem_cons.1 hdrop).resolve_left hcolon)
  | _ => rfl

/-- A text with a character that no address has is none. -/
theorem ipv6?_eq_none (h : isAddressChar c = false) (hc : c ∈ cs) : ipv6? cs = none := by
  obtain ⟨-, hcolon, -⟩ := isAddressChar_eq_false.1 h
  simp only [ipv6?]
  split
  · have hrest := (List.mem_cons.1 ((List.mem_cons.1 hc).resolve_left hcolon)).resolve_left hcolon
    rw [ipv6Pieces_eq_none h hrest]
    rfl
  · rfl
  · rfl
  · rw [ipv6Pieces_eq_none h hc]
    rfl

namespace Host

/-- An ASCII character that is in no address, and that stands in a text for itself alone. -/
structure StandsAlone (c : Char) : Prop where
  notAddress : isAddressChar c = false
  notBracket : c ≠ '[' ∧ c ≠ ']'
  notPercent : c ≠ '%'
  byte : String.utf8EncodeChar c = [UInt8.ofNat c.toNat]

/-- A host in brackets holds no other characters. -/
theorem ofBracketed_of_mem (h : StandsAlone c) (hc : c ∈ cs) (hopen : cs.head? = some '[') :
    ofBracketed cs = .error .invalidIpv6 := by
  obtain ⟨rest, rfl⟩ := List.head?_eq_some_iff.1 hopen
  have hrest : c ∈ rest := (List.mem_cons.1 hc).resolve_left h.notBracket.1
  simp only [ofBracketed]
  by_cases hlast : ('[' :: rest).getLast? = some ']'
  · have hinner : c ∈ rest.dropLast := by
      obtain ⟨front, hfront⟩ := List.getLast?_eq_some_iff.1 hlast
      cases front with
      | nil => simp at hfront
      | cons first front =>
        obtain ⟨-, rfl⟩ := List.cons.inj hfront
        simpa [h.notBracket.2] using hrest
    have hnone : ipv6? (('[' :: rest).drop 1).dropLast = none := ipv6?_eq_none h.notAddress hinner
    rw [if_pos hlast, hnone]
  · rw [if_neg hlast]

/-- The host of a special scheme holds no character that is neither of an address nor of a domain
    name. -/
theorem ofSpecial_of_mem {toAscii : DomainToAscii} (h : StandsAlone c)
    (hrefused : toAscii.Refuses c) (hc : c ∈ cs) :
    ofSpecial toAscii cs =
      .error (if cs.head? = some '[' then .invalidIpv6 else .invalidDomain) := by
  have hbyte : UInt8.ofNat c.toNat ∈ decodeBytes cs := by
    refine mem_decodeBytes (isAddressChar_eq_false.1 h.notAddress).1 h.notPercent ?_ hc
    rw [h.byte]
    exact List.mem_singleton_self _
  simp only [ofSpecial]
  by_cases hbracket : cs.head? = some '['
  · rw [if_pos hbracket, if_pos hbracket]
    exact ofBracketed_of_mem h hc hbracket
  · rw [if_neg hbracket, if_neg hbracket, hrefused _ hbyte]

/-- A host with a character of no address is not in brackets, nor are there any in it. -/
theorem bracket_notMem_of_ofSpecial {toAscii : DomainToAscii} (h : StandsAlone c) (hc : c ∈ cs)
    (hrefused : toAscii.Refuses '[') {host : Host} (hhost : ofSpecial toAscii cs = .ok host) :
    '[' ∉ cs := by
  intro hopen
  simp only [ofSpecial] at hhost
  split at hhost
  · rename_i hbracket
    rw [ofBracketed_of_mem h hc hbracket] at hhost
    cases hhost
  · have hbyte : UInt8.ofNat '['.toNat ∈ decodeBytes cs :=
      mem_decodeBytes rfl (by decide) (by decide) hopen
    rw [hrefused _ hbyte] at hhost
    cases hhost

end Host

end Address

end Url

end Courier
