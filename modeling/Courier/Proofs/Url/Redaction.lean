/-
  Courier/Proofs/Url/Redaction.lean
  =================================
  **What is shown of a database URL does not depend on its password.**

  The password of a URL may hold any character that does not end the authority,
  even the `:` and the `@` between which it stands.  The server begins behind the
  last `@` of the authority, which is no nearer than the one behind the password; the
  user ends in front of the first `:`, which is no further back than the one in front
  of the password (`Url.exists_userPart`).  Two texts that differ in the password
  alone are therefore read to URLs that differ in the password alone, or refused for
  the same fault (`Url.resolve_masked`), and the password is masked.
-/
import Courier.Config
import Courier.Proofs.Url.Authority

namespace Courier

open Courier.Text

namespace Url

/-! ### User and password in front of a server -/

/-- Whether a text holds no character that ends the authority of a URL. -/
def StaysInAuthority (cs : List Char) : Prop := ∀ c ∈ cs, c ≠ '/' ∧ c ≠ '?' ∧ c ≠ '#' ∧ c ≠ '\\'

instance (cs : List Char) : Decidable (StaysInAuthority cs) := List.decidableBAll _ cs

/-- A text that is read as the password of a URL: tabs and line breaks are dropped from it, and
    something is left. -/
structure IsPassword (cs : List Char) : Prop where
  stays : StaysInAuthority cs
  nonempty : unbroken cs ≠ []

/-- User and password as they stand in front of a server. -/
def credentials (user password : List Char) : List Char := user ++ ':' :: password ++ ['@']

variable {toAscii : DomainToAscii} {scheme user password password' : List Char}

theorem StaysInAuthority.unbroken {cs : List Char} (h : StaysInAuthority cs) :
    StaysInAuthority (unbroken cs) :=
  fun c hc => h c (List.mem_filter.1 hc).1

theorem StaysInAuthority.isSlash {cs : List Char} (h : StaysInAuthority cs) :
    ∀ c ∈ cs, isSlash c = false := by
  intro c hc
  obtain ⟨hslash, -, -, hbackslash⟩ := h c hc
  simp [Url.isSlash, hslash, hbackslash]

theorem StaysInAuthority.inAuthority {cs : List Char} (h : StaysInAuthority cs)
    (scheme : List Char) : ∀ c ∈ cs, inAuthority scheme c = true := by
  intro c hc
  obtain ⟨hslash, -, -, hbackslash⟩ := h c hc
  simp [Url.inAuthority, endsAuthority, hslash, hbackslash]

theorem StaysInAuthority.credentials (hu : StaysInAuthority user)
    (hp : StaysInAuthority password) : StaysInAuthority (credentials user password) := by
  intro c hc
  simp only [Url.credentials, List.mem_append, List.mem_cons, List.not_mem_nil, or_false] at hc
  rcases hc with (hc | rfl | hc) | rfl
  · exact hu c hc
  · decide
  · exact hp c hc
  · decide

/-- The user comes from the text in front of the password, and the server from the text behind
    it. -/
theorem exists_userPart (user rest : List Char) (more : Bool) :
    ∃ username server, ∀ password, password ≠ [] → ∃ encoded,
      UserPart.ofText (credentials user password ++ rest) more =
        .ok ⟨username, some encoded, server⟩ := by
  obtain ⟨behind, server, hlast⟩ := exists_cutAtLast_append '@' rest
  obtain ⟨name, hfirst⟩ := exists_cutAt_append ':' user
  refine ⟨encode userinfoSet name, server, fun password hpassword => ?_⟩
  obtain ⟨c, found, hcut⟩ := hfirst (password ++ behind) (by simp [hpassword])
  have hwhole : user ++ ':' :: password ++ behind = user ++ ':' :: (password ++ behind) := by simp
  refine ⟨encode userinfoSet (c :: found), ?_⟩
  simp only [UserPart.ofText, credentials, List.append_assoc _ ['@'], List.singleton_append]
  rw [hlast, hwhole]
  split
  · rename_i hnone
    cases hnone
  · rename_i hempty
    simp at hempty
  · rename_i hsome
    obtain ⟨rfl, rfl⟩ := Prod.mk.inj (Option.some.inj hsome)
    rw [hcut]

/-! ### Reading with the password masked -/

/-- What is read, with the password masked. -/
def masked (read : Except Fault Url) : Except Fault Url := read.map (·.withPassword "***")

/-- Behind two slashes, the password is read into the password alone. -/
theorem afterSlashes_masked (hu : StaysInAuthority user) (hp : StaysInAuthority password)
    (hp' : StaysInAuthority password') (hsome : password ≠ []) (hsome' : password' ≠ [])
    (parts : Parts) (front front' rest : List Char) :
    masked (afterSlashes toAscii scheme { parts with front } (credentials user password ++ rest)) =
      masked (afterSlashes toAscii scheme { parts with front := front' }
        (credentials user password' ++ rest)) := by
  have hin := (hu.credentials hp).inAuthority scheme
  have hin' := (hu.credentials hp').inAuthority scheme
  rw [afterSlashes_eq, afterSlashes_eq, List.takeWhile_append_of_pos hin,
    List.dropWhile_append_of_pos hin, List.takeWhile_append_of_pos hin',
    List.dropWhile_append_of_pos hin']
  obtain ⟨username, server, hread⟩ := exists_userPart user (rest.takeWhile (inAuthority scheme))
    (!(rest.dropWhile (inAuthority scheme)).isEmpty || parts.query.isSome
      || parts.fragment.isSome)
  obtain ⟨encoded, hfirst⟩ := hread password hsome
  obtain ⟨encoded', hsecond⟩ := hread password' hsome'
  rw [hfirst, hsecond]
  have hisSome : ∀ encoded, UserPart.isSome ⟨username, some encoded, server⟩ = true := by
    simp [UserPart.isSome]
  simp only [Except.bind, hisSome]
  cases Server.ofText toAscii scheme server true with
  | error e => rfl
  | ok read => rfl

theorem at_standsAlone : Host.StandsAlone '@' := ⟨rfl, by decide, by decide, by decide⟩

/-- A `file` URL has no users: the `@` cannot stand in the text of its host. -/
theorem fileOf_credentials (hrefused : toAscii.Refuses '@') (hu : StaysInAuthority user)
    (hp : StaysInAuthority password) (hsome : password ≠ []) (parts : Parts)
    (rest : List Char) :
    fileOf toAscii none { parts with front := '/' :: '/' :: (credentials user password ++ rest) } =
      .error (if (user ++ [':']).head? = some '[' then .invalidIpv6 else .invalidDomain) := by
  let inHost (c : Char) : Bool := !isSlash c
  have hfold : (fun c => !(decide (c = '/') || decide (c = '\\'))) = inHost := rfl
  have hin : ∀ c ∈ credentials user password, inHost c = true := by
    intro c hc
    simp [inHost, (hu.credentials hp).isSlash c hc]
  have hhost : (credentials user password ++ rest).takeWhile inHost =
      credentials user password ++ rest.takeWhile inHost := List.takeWhile_append_of_pos hin
  have hempty : (credentials user password ++ rest.takeWhile inHost).isEmpty = false := by
    simp [credentials]
  have hdrive : isDrive (credentials user password ++ rest.takeWhile inHost) = false := by
    have hlength : 0 < password.length := List.length_pos_iff.2 hsome
    have hlong : ¬(credentials user password ++ rest.takeWhile inHost).length = 2 := by
      simp only [credentials, List.length_append, List.length_cons, List.length_nil]
      omega
    simp only [isDrive, hlong]
    rfl
  have hhead : (credentials user password ++ rest.takeWhile inHost).head? =
      (user ++ [':']).head? := by
    cases user <;> rfl
  have hfault : Host.ofSpecial toAscii (credentials user password ++ rest.takeWhile inHost) =
      .error (if (user ++ [':']).head? = some '[' then .invalidIpv6 else .invalidDomain) := by
    rw [← hhead]
    exact Host.ofSpecial_of_mem at_standsAlone hrefused (by simp [credentials])
  simp only [fileOf, hfold, hhost, hempty, hdrive, hfault]
  rfl

/-- Behind a scheme and two slashes, the password is read into the password alone. -/
theorem ofScheme_masked (hrefused : toAscii.Refuses '@') (hu : StaysInAuthority user)
    (hp : StaysInAuthority password) (hp' : StaysInAuthority password') (hsome : password ≠ [])
    (hsome' : password' ≠ []) (parts : Parts) (rest : List Char) :
    masked (ofScheme toAscii none scheme
        { parts with front := '/' :: '/' :: (credentials user password ++ rest) }) =
      masked (ofScheme toAscii none scheme
        { parts with front := '/' :: '/' :: (credentials user password' ++ rest) }) := by
  have hslashes : ∀ {password}, StaysInAuthority password →
      ('/' :: '/' :: (credentials user password ++ rest)).dropWhile isSlash =
        credentials user password ++ rest := by
    intro password hp
    obtain ⟨first, more, hcons⟩ : ∃ first more, credentials user password = first :: more :=
      List.exists_cons_of_ne_nil (by simp [credentials])
    have hfirst := (hu.credentials hp).isSlash first (by simp [hcons])
    have hslash : isSlash '/' = true := rfl
    simp [hcons, hfirst, hslash]
  cases hkind : schemeKind scheme with
  | file =>
    simp only [ofScheme, hkind, Option.filter_none,
      fileOf_credentials hrefused hu hp hsome, fileOf_credentials hrefused hu hp' hsome']
  | special =>
    simp only [ofScheme_special hkind, hslashes hp, hslashes hp']
    exact afterSlashes_masked hu hp hp' hsome hsome' parts _ _ rest
  | other =>
    simp only [ofScheme, hkind]
    exact afterSlashes_masked hu hp hp' hsome hsome' parts _ _ rest

/-- A text with user and password, as it is cleaned. -/
theorem exists_cleaned_credentials {scheme : List Char} (hs : IsScheme scheme)
    (rest : List Char) :
    ∃ rest', ∀ user password,
      cleaned (scheme ++ "://".toList ++ credentials user password ++ rest) =
        scheme ++ ':' :: ('/' :: '/' :: credentials (unbroken user) (unbroken password)
          ++ rest') := by
  obtain ⟨first, more, rfl, hfirst⟩ := hs.exists_cons
  have hat : isOuter '@' = false := rfl
  have hcolon : isBreak ':' = false := rfl
  have hmarks : unbroken "://".toList = "://".toList := rfl
  obtain ⟨rest', hcleaned⟩ := exists_cleaned_append hat rest
  refine ⟨rest', fun user password => ?_⟩
  have hwhole : first :: more ++ "://".toList ++ credentials user password ++ rest =
      first :: (more ++ "://".toList ++ user ++ ':' :: password) ++ '@' :: rest := by
    simp [credentials]
  have hkept : unbroken (first :: (more ++ "://".toList ++ user ++ ':' :: password)) =
      unbroken (first :: more) ++ unbroken "://".toList ++ unbroken user ++
        ':' :: unbroken password := by
    rw [← unbroken_cons_of_kept hcolon, ← unbroken_append,
      ← unbroken_append, ← unbroken_append]
    rfl
  rw [hwhole, hcleaned first _ hfirst, hkept, hs.unbroken, hmarks]
  simp [credentials]

/-- What is read of a text with user and password: its scheme and its parts. -/
theorem exists_ofScheme (toAscii : DomainToAscii) {scheme : List Char} (hs : IsScheme scheme)
    (hu : StaysInAuthority user) (rest : List Char) :
    ∃ (parts : Parts) (rest' : List Char), ∀ password, StaysInAuthority password →
      resolve toAscii none (scheme ++ "://".toList ++ credentials user password ++ rest) =
        ofScheme toAscii none (lowercase scheme) { parts with
          front := '/' :: '/' :: (credentials (unbroken user) (unbroken password) ++ rest') } := by
  obtain ⟨rest', hcleaned⟩ := exists_cleaned_credentials hs rest
  refine ⟨.ofText rest', (Parts.ofText rest').front, fun password hp => ?_⟩
  have hscheme := scheme?_eq_some.2 ⟨scheme, hs, hcleaned user password, rfl⟩
  have hstays := hu.unbroken.credentials hp.unbroken
  have hfragment : '#' ∉ '/' :: '/' :: credentials (unbroken user) (unbroken password) := by
    simpa using fun h => (hstays '#' h).2.2.1 rfl
  have hquery : '?' ∉ '/' :: '/' :: credentials (unbroken user) (unbroken password) := by
    simpa using fun h => (hstays '?' h).2.1 rfl
  have hparts := Parts.ofText_append hfragment hquery rest'
  simp only [resolve, hscheme, ← List.cons_append, hparts]

/-- Texts that differ in the password alone are read to URLs that differ in the password alone. -/
theorem resolve_masked (hrefused : toAscii.Refuses '@') {scheme : List Char}
    (hs : IsScheme scheme) (hu : StaysInAuthority user) (hp : IsPassword password)
    (hp' : IsPassword password') (rest : List Char) :
    masked (resolve toAscii none (scheme ++ "://".toList ++ credentials user password ++ rest)) =
      masked (resolve toAscii none (scheme ++ "://".toList ++ credentials user password' ++ rest)) := by
  obtain ⟨parts, rest', hread⟩ := exists_ofScheme toAscii hs hu rest
  rw [hread password hp.stays, hread password' hp'.stays]
  exact ofScheme_masked hrefused hu.unbroken hp.stays.unbroken hp'.stays.unbroken hp.nonempty hp'.nonempty
    parts rest'

end Url

open Url

/-- What is shown of a database URL is its text with the password masked. -/
theorem redactedDatabaseUrl_eq (text : String) (toAscii : DomainToAscii) :
    redactedDatabaseUrl text toAscii =
      match masked (Url.parse text toAscii) with
      | .ok shown => shown.text
      | .error _ => "<unparsable database url>" := by
  simp only [redactedDatabaseUrl, masked]
  cases Url.parse text toAscii <;> rfl

/-- Whatever stands around it, and whether or not the text is a URL at all, the password has no
    influence on what is shown.  Of the mapping of domain names this takes only that it refuses the
    `@`. -/
theorem redaction_hides_password {toAscii : DomainToAscii}
    {scheme user password password' : String} (rest : String) (hrefused : toAscii.Refuses '@')
    (hs : IsScheme scheme.toList) (hu : StaysInAuthority user.toList)
    (hp : IsPassword password.toList) (hp' : IsPassword password'.toList) :
    redactedDatabaseUrl (scheme ++ "://" ++ user ++ ":" ++ password ++ "@" ++ rest) toAscii =
      redactedDatabaseUrl (scheme ++ "://" ++ user ++ ":" ++ password' ++ "@" ++ rest) toAscii := by
  have htext : ∀ p : String, (scheme ++ "://" ++ user ++ ":" ++ p ++ "@" ++ rest).toList =
      scheme.toList ++ "://".toList ++ credentials user.toList p.toList ++ rest.toList := by
    intro p
    simp [credentials]
  rw [redactedDatabaseUrl_eq, redactedDatabaseUrl_eq]
  simp only [Url.parse, htext, resolve_masked hrefused hs hu hp hp' rest.toList]

/-- The characters around a password may stand in it as well, and the port need not be one. -/
theorem redaction_hides_marks :
    redactedDatabaseUrl "postgres://hookq:p@ss: %ö\n@db:5432/hookq" asciiDomains =
        redactedDatabaseUrl "postgres://hookq:hunter2@db:5432/hookq" asciiDomains ∧
      redactedDatabaseUrl "postgres://hookq:hunter2@db:5432/hookq" asciiDomains =
        "postgres://hookq:***@db:5432/hookq" ∧
      redactedDatabaseUrl "Postgres://hookq:p@ss: %ö\n@db:port" asciiDomains =
        redactedDatabaseUrl "Postgres://hookq:hunter2@db:port" asciiDomains ∧
      redactedDatabaseUrl "Postgres://hookq:hunter2@db:port" asciiDomains =
        "<unparsable database url>" := by
  have hrefused : DomainToAscii.Refuses asciiDomains '@' :=
    asciiDomains_refuses (by decide) (by decide) (by decide)
  have hodd : IsPassword "p@ss: %ö\n".toList := ⟨by decide +kernel, by decide +kernel⟩
  have hplain : IsPassword "hunter2".toList := ⟨by decide +kernel, by decide +kernel⟩
  have hserver := @redaction_hides_password asciiDomains "postgres" "hookq" _ _ "db:5432/hookq"
    hrefused (by decide +kernel) (by decide +kernel) hodd hplain
  have hport := @redaction_hides_password asciiDomains "Postgres" "hookq" _ _ "db:port"
    hrefused (by decide +kernel) (by decide +kernel) hodd hplain
  simp only [String.reduceAppend] at hserver hport
  exact ⟨hserver, by decide +kernel, hport, by decide +kernel⟩

end Courier
