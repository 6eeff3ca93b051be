/-
  Courier/Proofs/Url/Authority.lean
  =================================
  **Reading an authority, one step after the other.**

  Behind two slashes stand user and password, then the server, then the path.  The
  server is read from the text behind the last `@` alone, apart from the question
  whether there is a user; `afterSlashes_eq` says how the three are put together.  In
  a special scheme everything but the server can be read from any text, so that the
  text of the server decides whether the whole is a URL (`server_of_resolve`,
  `exists_resolve_of_server`).
-/
import Courier.Proofs.Reading
import Courier.Proofs.Url.Cut
import Courier.Proofs.Url.Host

namespace Courier.Url

open Courier.Text

/-- Host and port, and what of the text behind them belongs to the path. -/
structure Server where
  host : Host
  port : Option Nat
  overrun : List Char
deriving DecidableEq, Repr

/-- Reads the text of a host. -/
def hostOfText (toAscii : DomainToAscii) (kind : SchemeKind) (text : List Char) :
    Except Fault Host :=
  if kind.isSpecial then if text.isEmpty then .error .emptyHost else Host.ofSpecial toAscii text
  else Host.ofOpaque text

/-- Reads the text behind the colon of a host, if there is one. -/
def portOfText (scheme : List Char) : Option (List Char) → Except Fault (Option Nat × List Char)
  | none => .ok (none, [])
  | some text => portOf scheme text

/-- Goes on behind a host; a server without a name has neither port nor users. -/
def Server.ofHost (scheme : List Char) (portText : Option (List Char)) (hasUser : Bool)
    (host : Host) : Except Fault Server :=
  if host.isEmpty && portText.isSome then .error .emptyHost
  else (portOfText scheme portText).bind fun (port, overrun) =>
    if host.isEmpty && hasUser then .error .emptyHost else .ok ⟨host, port, overrun⟩

/-- Reads host and port. -/
def Server.ofText (toAscii : DomainToAscii) (scheme text : List Char) (hasUser : Bool) :
    Except Fault Server :=
  (hostOfText toAscii (schemeKind scheme) (cutHost false text).1).bind
    (Server.ofHost scheme (cutHost false text).2 hasUser)

/-- Whether user or password are given. -/
def UserPart.isSome (user : UserPart) : Bool := !user.username.isEmpty || user.password.isSome

/-- Whether a character belongs to the authority. -/
def inAuthority (scheme : List Char) (c : Char) : Bool := !endsAuthority (schemeKind scheme) c

/-- A server is read and gone on from: its name first, then its port, and the checks in between. -/
theorem Server.ofHost_bind (scheme : List Char) (portText : Option (List Char)) (hasUser : Bool)
    (host : Host) (next : Server → Except Fault Url) :
    (Server.ofHost scheme portText hasUser host).bind next =
      if host.isEmpty = true ∧ portText.isSome = true then .error .emptyHost
      else (portOfText scheme portText).bind fun read =>
        if host.isEmpty = true ∧ hasUser = true then .error .emptyHost
        else next ⟨host, read.1, read.2⟩ := by
  simp only [Server.ofHost, Bool.and_eq_true]
  split
  · rfl
  · cases portOfText scheme portText with
    | error e => rfl
    | ok read =>
      simp only [Except.bind]
      by_cases hname : host.isEmpty = true ∧ hasUser = true
      · rw [if_pos hname, if_pos hname]
      · rw [if_neg hname, if_neg hname]

/-- A URL with an authority: the user is read first, then the server, and the path last. -/
theorem afterSlashes_eq (toAscii : DomainToAscii) (scheme : List Char) (parts : Parts)
    (cs : List Char) :
    afterSlashes toAscii scheme parts cs =
      (UserPart.ofText (cs.takeWhile (inAuthority scheme))
        (!(cs.dropWhile (inAuthority scheme)).isEmpty || parts.query.isSome
          || parts.fragment.isSome)).bind fun user =>
      (Server.ofText toAscii scheme user.host user.isSome).bind fun server =>
      .ok (parts.finish scheme (some ⟨user.username, user.password, server.host, server.port⟩)
        (pathAfterAuthority (schemeKind scheme)
          (server.overrun ++ cs.dropWhile (inAuthority scheme))).path) := by
  have hin : (fun c => !endsAuthority (schemeKind scheme) c) = inAuthority scheme := rfl
  have hsome : ∀ user : UserPart,
      (user.username ≠ [] ∨ user.password.isSome = true) ↔ user.isSome = true := by
    intro user
    simp [UserPart.isSome]
  simp only [afterSlashes, hin, drop_length_takeWhile, hsome]
  cases UserPart.ofText (cs.takeWhile (inAuthority scheme)) _ with
  | error e => rfl
  | ok user =>
    simp only [bind, Except.bind, Server.ofText, hostOfText]
    generalize (cutHost false user.host).1 = hostText
    generalize (cutHost false user.host).2 = portText
    -- wherever the host comes from, it is gone on from in the same way
    have hnext := fun host => Server.ofHost_bind scheme portText user.isSome host fun server =>
      .ok (parts.finish scheme (some ⟨user.username, user.password, server.host, server.port⟩)
        (pathAfterAuthority (schemeKind scheme)
          (server.overrun ++ cs.dropWhile (inAuthority scheme))).path)
    split
    · split
      · rfl
      · cases Host.ofSpecial toAscii hostText with
        | error e => rfl
        | ok host => cases portText <;> exact (hnext host).symm
    · cases Host.ofOpaque hostText with
      | error e => rfl
      | ok host => cases portText <;> exact (hnext host).symm

/-- What a URL with an authority was read from. -/
theorem exists_of_afterSlashes {toAscii : DomainToAscii} {scheme cs : List Char} {parts : Parts}
    {v : Url} (h : afterSlashes toAscii scheme parts cs = .ok v) :
    ∃ more user server path, UserPart.ofText (cs.takeWhile (inAuthority scheme)) more = .ok user ∧
      Server.ofText toAscii scheme user.host user.isSome = .ok server ∧
      v = parts.finish scheme (some ⟨user.username, user.password, server.host, server.port⟩)
        path := by
  rw [afterSlashes_eq] at h
  obtain ⟨user, huser, h⟩ := exists_of_bind_eq_ok h
  obtain ⟨server, hserver, h⟩ := exists_of_bind_eq_ok h
  exact ⟨_, user, server, _, huser, hserver, (Except.ok.inj h).symm⟩

/-! ### The scheme in front of an authority -/

/-- Whether a special scheme takes a character for a slash. -/
def isSlash (c : Char) : Bool := c = '/' || c = '\\'

/-- In a special scheme any number of slashes stand in front of the authority, unless the text is
    relative: its scheme is that of the base, and fewer than two slashes follow it. -/
theorem ofScheme_special {scheme : List Char} (hkind : schemeKind scheme = .special)
    (toAscii : DomainToAscii) (base? : Option Url) (parts : Parts) :
    ofScheme toAscii base? scheme parts =
      match base? with
      | some base =>
        if (parts.front.takeWhile isSlash).length < 2 ∧ base.scheme = scheme then
          relativeTo toAscii base parts
        else afterSlashes toAscii scheme parts (parts.front.dropWhile isSlash)
      | none => afterSlashes toAscii scheme parts (parts.front.dropWhile isSlash) := by
  simp only [ofScheme, hkind, drop_length_takeWhile]
  rfl

/-! ### Host and port -/

/-- Host and port are cut at the first colon outside brackets. -/
theorem cutHost_append {front : List Char} (hcolon : ':' ∉ front) (hopen : '[' ∉ front)
    (cs : List Char) :
    cutHost false (front ++ cs) = (front ++ (cutHost false cs).1, (cutHost false cs).2) := by
  induction front with
  | nil => rfl
  | cons c front ih =>
    simp only [List.mem_cons, not_or] at hcolon hopen
    have hstep : cutHost false (c :: (front ++ cs)) =
        (c :: (cutHost false (front ++ cs)).1, (cutHost false (front ++ cs)).2) := by
      simp [cutHost, Ne.symm hcolon.1, Ne.symm hopen.1]
    rw [List.cons_append, hstep, ih hcolon.2 hopen.2]
    rfl

theorem cutHost_colon {front : List Char} (hcolon : ':' ∉ front) (hopen : '[' ∉ front)
    (cs : List Char) : cutHost false (front ++ ':' :: cs) = (front, some cs) := by
  rw [cutHost_append hcolon hopen]
  simp [cutHost]

theorem mem_of_cutHost {c : Char} {cs : List Char} (hc : c ∈ cs) (hne : c ≠ ':')
    (inBrackets : Bool) :
    c ∈ (cutHost inBrackets cs).1 ∨ ∃ text, (cutHost inBrackets cs).2 = some text ∧ c ∈ text := by
  induction cs generalizing inBrackets with
  | nil => cases hc
  | cons d rest ih =>
    simp only [cutHost]
    split
    · rename_i hcut
      refine Or.inr ⟨rest, rfl, (List.mem_cons.1 hc).resolve_left fun h => hne (h.trans hcut.1)⟩
    · rcases List.mem_cons.1 hc with rfl | hc
      · exact Or.inl List.mem_cons_self
      · exact (ih hc _).imp (List.mem_cons_of_mem d) id

theorem portText_suffix {cs text : List Char} {inBrackets : Bool}
    (h : (cutHost inBrackets cs).2 = some text) : text <:+ cs := by
  induction cs generalizing inBrackets with
  | nil => cases h
  | cons c rest ih =>
    simp only [cutHost] at h
    split at h
    · obtain rfl := Option.some.inj h
      exact List.suffix_cons c rest
    · exact (ih h).trans (List.suffix_cons c rest)

/-- A port without a backslash holds nothing but digits. -/
theorem isDigit_of_portOf {scheme cs : List Char} {read : Option Nat × List Char}
    (hno : '\\' ∉ cs) (h : portOf scheme cs = .ok read) : ∀ c ∈ cs, isDigit c = true := by
  simp only [portOf, drop_length_takeWhile] at h
  split at h
  · cases h
  · split at h
    · rename_i hrest
      refine List.dropWhile_eq_nil_iff.1 (hrest.resolve_right fun hhead => hno ?_)
      exact (List.dropWhile_suffix isDigit).subset (List.mem_of_mem_head? hhead)
    · cases h

/-! ### The server decides -/

namespace UserPart

theorem host_of_ofText {cs : List Char} {more : Bool} {user : UserPart}
    (h : UserPart.ofText cs more = .ok user) : user.host = behindLast '@' cs := by
  simp only [UserPart.ofText] at h
  split at h
  · rename_i hcut
    cases h
    exact (behindLast_of_cutAtLast_eq_none hcut).symm
  · rename_i hcut
    split at h
    · cases h
    · cases h
      exact (behindLast_of_cutAtLast_eq_some hcut).symm
  · rename_i hcut
    cases h
    exact (behindLast_of_cutAtLast_eq_some hcut).symm

/-- Users and passwords are always read, as long as there is a server behind them. -/
theorem exists_ofText {cs : List Char} (h : behindLast '@' cs ≠ []) (more : Bool) :
    ∃ user, UserPart.ofText cs more = .ok user := by
  simp only [UserPart.ofText]
  split
  · exact ⟨_, rfl⟩
  · rename_i hcut
    rw [behindLast_of_cutAtLast_eq_some hcut] at h
    simp [h]
  · exact ⟨_, rfl⟩

end UserPart

/-- Host and port of a URL. -/
def server? (u : Url) : Option (Host × Option Nat) := u.authority.map fun a => (a.host, a.port)

/-- What host and port are read from in the text behind a special scheme and its colon. -/
def serverText (scheme rest : List Char) : List Char :=
  behindLast '@' (((Parts.ofText rest).front.dropWhile isSlash).takeWhile (inAuthority scheme))

/-- What the host of a special scheme is read from in the text of a URL. -/
def hostText (text : String) : List Char :=
  match scheme? (cleaned text.toList) with
  | some (scheme, rest) => (cutHost false (serverText scheme rest)).1
  | none => []

theorem backslash_notMem_serverText {scheme : List Char} (hkind : schemeKind scheme = .special)
    (rest : List Char) : '\\' ∉ serverText scheme rest := by
  intro hmem
  have hauthority := (List.takeWhile_prefix _).subset (List.mem_reverse.1 hmem)
  have hkept := List.all_eq_true.1 List.all_takeWhile _ (List.mem_reverse.1 hauthority)
  simp [inAuthority, endsAuthority, hkind, SchemeKind.isSpecial] at hkept

section Special

variable {toAscii : DomainToAscii} {scheme rest text : List Char} {server : Server}
  {hasUser : Bool}

/-- A server was read from the texts of its host and of its port. -/
theorem Server.read_of_ofText (h : Server.ofText toAscii scheme text hasUser = .ok server) :
    hostOfText toAscii (schemeKind scheme) (cutHost false text).1 = .ok server.host ∧
      portOfText scheme (cutHost false text).2 = .ok (server.port, server.overrun) := by
  obtain ⟨host, hhost, h⟩ := exists_of_bind_eq_ok h
  simp only [Server.ofHost] at h
  split at h
  · cases h
  · obtain ⟨read, hport, h⟩ := exists_of_bind_eq_ok h
    split at h
    · cases h
    · cases h
      exact ⟨hhost, hport⟩

/-- What is no digit stands in the text of the host. -/
theorem Server.mem_hostText (hno : '\\' ∉ text)
    (h : Server.ofText toAscii scheme text hasUser = .ok server) {c : Char} (hc : c ∈ text) (hne : c ≠ ':')
    (hdigit : isDigit c = false) : c ∈ (cutHost false text).1 := by
  refine (mem_of_cutHost hc hne false).resolve_right ?_
  rintro ⟨portText, hcut, hmem⟩
  have hport := (Server.read_of_ofText h).2
  rw [hcut] at hport
  have hall := isDigit_of_portOf (fun hb => hno ((portText_suffix hcut).subset hb)) hport c hmem
  rw [hdigit] at hall
  cases hall

theorem hostOfText_special (hkind : schemeKind scheme = .special) {host : Host}
    (h : hostOfText toAscii (schemeKind scheme) text = .ok host) :
    text ≠ [] ∧ Host.ofSpecial toAscii text = .ok host := by
  simp only [hostOfText, hkind, SchemeKind.isSpecial, if_true] at h
  split at h
  · cases h
  · rename_i hsome
    exact ⟨by simpa using hsome, h⟩

/-- Users make no difference to the server of a special scheme, which always has a name. -/
theorem Server.ofText_eq (hkind : schemeKind scheme = .special) (hasUser hasUser' : Bool) :
    Server.ofText toAscii scheme text hasUser = Server.ofText toAscii scheme text hasUser' := by
  simp only [Server.ofText]
  cases hhost : hostOfText toAscii (schemeKind scheme) (cutHost false text).1 with
  | error e => rfl
  | ok host =>
    have hname := Host.isEmpty_of_ofSpecial (hostOfText_special hkind hhost).2
    simp only [Except.bind, Server.ofHost, hname, Bool.false_and]

variable {cs : List Char} {v : Url}

theorem resolve_special (hscheme : scheme? (cleaned cs) = some (scheme, rest))
    (hkind : schemeKind scheme = .special) :
    resolve toAscii none cs =
      afterSlashes toAscii scheme (.ofText rest) ((Parts.ofText rest).front.dropWhile isSlash) := by
  simp only [resolve, hscheme]
  exact ofScheme_special hkind toAscii none (.ofText rest)

/-- A URL of a special scheme has the server that its text is read to. -/
theorem server_of_resolve (hscheme : scheme? (cleaned cs) = some (scheme, rest))
    (hkind : schemeKind scheme = .special) (h : resolve toAscii none cs = .ok v) (hasUser : Bool) :
    ∃ server, Server.ofText toAscii scheme (serverText scheme rest) hasUser = .ok server ∧
      v.scheme = scheme ∧ v.server? = some (server.host, server.port) := by
  rw [resolve_special hscheme hkind] at h
  obtain ⟨more, user, server, path, huser, hserver, rfl⟩ := exists_of_afterSlashes h
  rw [UserPart.host_of_ofText huser, Server.ofText_eq hkind _ hasUser] at hserver
  exact ⟨server, hserver, rfl, rfl⟩

/-- In a special scheme the text of the server alone decides whether a text is a URL. -/
theorem exists_resolve_of_server (hscheme : scheme? (cleaned cs) = some (scheme, rest))
    (hkind : schemeKind scheme = .special)
    (h : Server.ofText toAscii scheme (serverText scheme rest) hasUser = .ok server) :
    ∃ v, resolve toAscii none cs = .ok v ∧ v.scheme = scheme ∧
      v.server? = some (server.host, server.port) := by
  have hsome : serverText scheme rest ≠ [] := by
    intro hnil
    rw [hnil] at h
    exact (hostOfText_special hkind (Server.read_of_ofText h).1).1 rfl
  obtain ⟨user, huser⟩ := UserPart.exists_ofText hsome
    (!(((Parts.ofText rest).front.dropWhile isSlash).dropWhile (inAuthority scheme)).isEmpty
      || (Parts.ofText rest).query.isSome || (Parts.ofText rest).fragment.isSome)
  have hserver : Server.ofText toAscii scheme user.host user.isSome = .ok server := by
    rw [UserPart.host_of_ofText huser, Server.ofText_eq hkind _ hasUser]
    exact h
  rw [resolve_special hscheme hkind, afterSlashes_eq, huser]
  simp only [Except.bind, hserver]
  exact ⟨_, rfl, rfl, rfl⟩

end Special

end Courier.Url
