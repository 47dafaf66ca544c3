import Micropayment.Proof.Session

/-!
# No orphaned sessions

The other direction of `Session`: every online row and every `client_fds` entry belongs to a live
connection (`Owned`). A second LOGIN on a logged-in connection leaves the first name's row online
for good (`two_logins_orphan`), and so does an iteration that a logged-in connection does not
survive; `no_orphans` is about the runs without these (`KeepsSession`). For any start table, the
entries alone belong to live connections (`Entries`), and each logged-in one has its own
(`Entered`).
-/

set_option autoImplicit false

namespace Micropayment

namespace Server

/-- The message is a LOGIN that `user_login` accepts. -/
def loginSucceeds (s : Server) (item : Cmd × List Str) : Bool :=
  item.1 = .login && (stoi (arg item.2 1)).isOk &&
    (s.table.find? (arg item.2 0)).any fun user => !user.online

/-- On a logged-in connection: no further successful LOGIN, no exception, no undefined
behaviour. -/
def KeepsSession (s : Server) : Action → Prop
  | .message id buffer _ => ∀ c ∈ s.conns.find? id, c.username ≠ [] →
      s.loginSucceeds (parseCommand (cStr buffer)) = false ∧
      throws (parseCommand (cStr buffer)) = false ∧
      s.unanswerable (parseCommand (cStr buffer)) = false
  | _ => True

instance (s : Server) (a : Action) : Decidable (s.KeepsSession a) :=
  match a with
  | .accept _ _ => .isTrue trivial
  | .hangup _ => .isTrue trivial
  | .message id buffer _ => inferInstanceAs (Decidable (∀ c ∈ s.conns.find? id, c.username ≠ [] →
      s.loginSucceeds (parseCommand (cStr buffer)) = false ∧
      throws (parseCommand (cStr buffer)) = false ∧
      s.unanswerable (parseCommand (cStr buffer)) = false))

theorem loginSucceeds_of {s : Server} {item : Cmd × List Str} {u p : Str} {user : Client}
    {privatePort : Int} (hitem : item = (.login, [u, p])) (hp : stoi p = .ok privatePort)
    (hu : s.table.find? u = some user) (ho : user.online = false) :
    s.loginSucceeds item = true := by
  simp [loginSucceeds, hitem, arg, hp, hu, ho, Except.isOk, Except.toBool]

/-- A successful LOGIN is answered. -/
theorem answered_of_loginSucceeds {s : Server} {item : Cmd × List Str}
    (h : s.loginSucceeds item = true) : throws item = false ∧ s.unanswerable item = false := by
  simp only [loginSucceeds, Bool.and_eq_true, decide_eq_true_eq] at h
  obtain ⟨⟨hcmd, hport⟩, -⟩ := h
  exact ⟨by simp [throws, hcmd, hport], by simp [unanswerable, hcmd]⟩

end Server

/-- Every online row and every `client_fds` entry belongs to a live connection, and no endpoint has
two online rows. -/
structure NoOrphans (s : Server) : Prop where
  online : ∀ r ∈ s.table.rows, r.onlineStatus = 1 → ∃ c ∈ s.conns.rows, c.endpoint = r.endpoint
  distinct : ∀ r ∈ s.table.rows, ∀ r' ∈ s.table.rows, r.onlineStatus = 1 → r'.onlineStatus = 1 →
    r.endpoint = r'.endpoint → r = r'
  fds : ∀ fd ∈ s.clientFds, ∃ c ∈ s.conns.rows, c.id = fd.2

/-- A connection that ends leaves no online row and no `client_fds` entry. -/
def EndsClean (s : Server) : Prop :=
  ∀ c ∈ s.conns.rows, ∀ a s', Server.Ends a c → s.step a = some s' →
    (∀ r ∈ s'.table.rows, r.onlineStatus = 1 → r.endpoint ≠ c.endpoint) ∧
    ∀ fd ∈ s'.clientFds, fd.2 ≠ c.id

/-! ## The rows a branch leaves online -/

section
variable {s : Server} {c : Conn} {item : Cmd × List Str} {hd : Handled}

/-- A row after the `switch` is an old one up to its balance, a new user's, or the one just logged
in. -/
theorem Server.Effect.mem_rows (he : s.Effect c item hd) {r : Client} (hr : r ∈ hd.table.rows) :
    (∃ r₀ ∈ s.table.rows, r₀.username = r.username ∧ r₀.session = r.session) ∨
    (∃ u, IsArg u ∧ r = newUser u) ∨
    (s.loginSucceeds item = true ∧ hd.username = r.username ∧
      ∃ r₀ ∈ s.table.rows, ∃ port, r = r₀.login c.clientip c.clientport port) := by
  cases he with
  | nothing o => exact .inl ⟨r, hr, rfl, rfl⟩
  | @registered u o hu _ =>
    rcases Keyed.mem_replace.1 hr with rfl | ⟨hr, -⟩
    · exact .inr (.inl ⟨u, hu, rfl⟩)
    · exact .inl ⟨r, hr, rfl, rfl⟩
  | @loggedIn _ _ user port hitem hp _ hu hoff =>
    rcases Keyed.mem_update hr with rfl | ⟨hr, -⟩
    · have hl := Server.loginSucceeds_of hitem hp hu hoff
      exact .inr (.inr ⟨hl, (Keyed.find?_key hu).symm, user, Keyed.find?_mem hu, port, rfl⟩)
    · exact .inl ⟨r, hr, rfl, rfl⟩
  | transferred o _ _ ht =>
    rcases Keyed.mem_update hr with rfl | ⟨hr, -⟩
    · exact .inl ⟨_, Keyed.find?_mem ht.receiver, rfl, rfl⟩
    · rcases Keyed.mem_update hr with rfl | ⟨hr, -⟩
      · exact .inl ⟨_, Keyed.find?_mem ht.sender, rfl, rfl⟩
      · exact .inl ⟨r, hr, rfl, rfl⟩

/-- A row is online after the `switch` only if it was before, or is the one just logged in. -/
theorem Server.Effect.online_back (he : s.Effect c item hd) {r : Client} (hr : r ∈ hd.table.rows)
    (ho : r.online = true) :
    (∃ r₀ ∈ s.table.rows, r₀.online = true ∧ r₀.username = r.username ∧
      r₀.endpoint = r.endpoint) ∨
    (s.loginSucceeds item = true ∧ hd.username = r.username ∧ r.endpoint = c.endpoint) := by
  rcases he.mem_rows hr with ⟨r₀, hr₀, hu, hsame⟩ | ⟨u, -, rfl⟩ | ⟨hl, hu, r₀, -, port, rfl⟩
  · have hep : r₀.endpoint = r.endpoint := by
      simp only [Client.session, Prod.mk.injEq] at hsame
      rw [Client.endpoint, Client.endpoint, hsame.1, hsame.2.1]
    exact .inl ⟨r₀, hr₀, (Client.online_of_session hsame).trans ho, hu, hep⟩
  · cases ho
  · exact .inr ⟨hl, hu, rfl⟩

theorem Server.Effect.names (he : s.Effect c item hd) (h : ∀ r ∈ s.table.rows, r.username ≠ []) :
    ∀ r ∈ hd.table.rows, r.username ≠ [] := by
  intro r hr
  rcases he.mem_rows hr with ⟨r₀, hr₀, hu, -⟩ | ⟨u, hu, rfl⟩ | ⟨-, -, r₀, hr₀, port, rfl⟩
  · rw [← hu]
    exact h r₀ hr₀
  · exact hu.ne
  · exact h r₀ hr₀

theorem Server.Effect.username (he : s.Effect c item hd) (hl : s.loginSucceeds item = false) :
    hd.username = c.username ∧ hd.clientFds = s.clientFds := by
  cases he with
  | nothing | registered | transferred => exact ⟨rfl, rfl⟩
  | loggedIn hitem hp _ hu hoff =>
    rw [Server.loginSucceeds_of hitem hp hu hoff] at hl
    cases hl

end

/-! ## The entries of `client_fds` -/

/-- Each entry belongs to the live connection that is logged in under its name. -/
structure Entries (s : Server) : Prop where
  sessions : Sessions s
  fds : ∀ fd ∈ s.clientFds, ∃ c ∈ s.conns.rows, c.username = fd.1 ∧ c.id = fd.2
  fdsNodup : (s.clientFds.map Prod.fst).Nodup

/-- Each connection that is logged in has an entry. -/
def Entered (s : Server) : Prop :=
  ∀ c ∈ s.conns.rows, c.username ≠ [] → (c.username, c.id) ∈ s.clientFds

theorem ne_of_mem_eraseFd {fds : List (Str × Nat)} (h : (fds.map Prod.fst).Nodup) {u : Str}
    {fd : Str × Nat} (hfd : fd ∈ Server.eraseFd fds u) : fd.1 ≠ u := by
  unfold Server.eraseFd at hfd
  induction fds with
  | nil => cases hfd
  | cons x fds ih =>
    simp only [List.map_cons, List.nodup_cons] at h
    by_cases hx : x.1 = u
    · rw [List.eraseP_cons_of_pos (by simpa using hx)] at hfd
      intro he
      exact h.1 (hx.trans he.symm ▸ List.mem_map_of_mem hfd)
    · rw [List.eraseP_cons_of_neg (by simpa using hx)] at hfd
      rcases List.mem_cons.1 hfd with rfl | hfd
      · exact hx
      · exact ih h.2 hfd

section
variable {s s' : Server} {c : Conn}

/-- The owner of a row or an entry is live after the `switch`, under the same name: a logged-in
connection survives and keeps its name, and one that is not logged in owns nothing. -/
theorem owner_after (hc : c ∈ s.conns.rows) {item : Cmd × List Str} {hd : Handled}
    (he : s.Effect c item hd) {live : Bool}
    (hguard : c.username ≠ [] → s.loginSucceeds item = false ∧ live = true) {c' : Conn}
    (hc' : c' ∈ s.conns.rows) (hu : c'.username ≠ []) :
    ∃ x ∈ (s.after c hd live).conns.rows,
      x.username = c'.username ∧ x.endpoint = c'.endpoint ∧ x.id = c'.id := by
  by_cases hid : c'.id = c.id
  · obtain rfl := Keyed.eq_of_key hc' hc hid
    obtain ⟨hl, rfl⟩ := hguard hu
    exact ⟨_, Keyed.mem_update_self hc rfl, (he.username hl).1, rfl, rfl⟩
  · refine ⟨c', ?_, rfl, rfl, rfl⟩
    cases live with
    | true => exact Keyed.mem_update_other hc' hid
    | false => exact Keyed.mem_erase.2 ⟨hc', hid⟩

/-- What `KeepsSession` says of the message: a successful LOGIN is survived, and a logged-in
connection survives every message. -/
theorem Server.KeepsSession.survives (h : Sessions s) (hc : c ∈ s.conns.rows) {buffer : Str}
    {resume : Bool} (hg : s.KeepsSession (.message c.id buffer resume)) :
    (Server.survives resume (s.handle c (cStr buffer)).outcome = false →
      s.loginSucceeds (parseCommand (cStr buffer)) = false) ∧
    (c.username ≠ [] → s.loginSucceeds (parseCommand (cStr buffer)) = false ∧
      Server.survives resume (s.handle c (cStr buffer)).outcome = true) := by
  constructor
  · intro hdead
    rw [← Bool.not_eq_true]
    intro hl
    obtain ⟨ht, hn⟩ := Server.answered_of_loginSucceeds hl
    obtain ⟨fd, response, hsent⟩ := h.handle_sent hc ht hn
    rw [hsent] at hdead
    cases hdead
  · intro hu
    obtain ⟨hl, ht, hn⟩ := hg c (Keyed.find?_of_mem hc) hu
    obtain ⟨fd, response, hsent⟩ := h.handle_sent hc ht hn
    exact ⟨hl, by rw [hsent]; rfl⟩

namespace Entries

theorem init (t : Table) : Entries (Server.init t) where
  sessions := .init t
  fds _ h := absurd h List.not_mem_nil
  fdsNodup := List.nodup_nil

theorem disconnect (h : Entries s) (hc : c ∈ s.conns.rows) : Entries (s.disconnect c) := by
  refine ⟨h.sessions.disconnect hc, fun fd hfd => ?_,
    h.fdsNodup.sublist (List.eraseP_sublist.map _)⟩
  obtain ⟨c', hc', hu, hid⟩ := h.fds fd (List.mem_of_mem_eraseP hfd)
  have hne := ne_of_mem_eraseFd h.fdsNodup hfd
  refine ⟨c', Keyed.mem_erase.2 ⟨hc', fun he => hne ?_⟩, hu, hid⟩
  rw [← hu, Keyed.eq_of_key hc' hc he]

theorem accepting (h : Entries s) {ip : Str} {port : Int}
    (hfree : ∀ c ∈ s.conns.rows, c.endpoint ≠ (ip, port)) : Entries (s.accepting ip port) := by
  refine ⟨h.sessions.accepting hfree, fun fd hfd => ?_, h.fdsNodup⟩
  obtain ⟨c, hc, hu, hid⟩ := h.fds fd hfd
  have := h.sessions.fresh c hc
  exact ⟨c, Keyed.mem_replace.2 (.inr ⟨hc, by change c.id ≠ s.accepted; omega⟩), hu, hid⟩

theorem after (h : Entries s) (hc : c ∈ s.conns.rows) {item : Cmd × List Str} {hd : Handled}
    (he : s.Effect c item hd) {live : Bool} (hdead : live = false → s.loginSucceeds item = false)
    (hguard : c.username ≠ [] → s.loginSucceeds item = false ∧ live = true) :
    Entries (s.after c hd live) := by
  have hfd : ∀ fd ∈ s.clientFds, ∃ x ∈ (s.after c hd live).conns.rows,
      x.username = fd.1 ∧ x.id = fd.2 := by
    intro fd hfd
    obtain ⟨c', hc', hu, hid⟩ := h.fds fd hfd
    obtain ⟨x, hx, hxu, -, hxid⟩ :=
      owner_after hc he hguard hc' (hu ▸ h.sessions.fdNames fd hfd)
    exact ⟨x, hx, hxu.trans hu, hxid.trans hid⟩
  refine ⟨h.sessions.after hc he live, ?_, ?_⟩
  · cases he with
    | nothing | registered | transferred => exact hfd
    | @loggedIn u p user port hitem hp hu hf hoff =>
      intro fd hmem
      rcases List.mem_append.1 hmem with hmem | hmem
      · exact hfd fd hmem
      · obtain rfl := List.mem_singleton.1 hmem
        have hl := Server.loginSucceeds_of hitem hp hf hoff
        cases live with
        | true => exact ⟨_, Keyed.mem_update_self hc rfl, rfl, rfl⟩
        | false =>
          rw [hdead rfl] at hl
          cases hl
  · cases he with
    | nothing | registered | transferred => exact h.fdsNodup
    | @loggedIn u p user port hitem hp hu hf hoff =>
      show ((s.clientFds ++ [(u, c.id)]).map Prod.fst).Nodup
      rw [List.map_append, List.nodup_append']
      refine ⟨h.fdsNodup, by simp, fun v hv hv' => ?_⟩
      -- an entry under `u` would mean that `u` is online already
      obtain rfl : v = u := by simpa using hv'
      obtain ⟨fd, hmem, rfl⟩ := List.mem_map.1 hv
      obtain ⟨c', hc', hcu, -⟩ := h.fds fd hmem
      obtain ⟨r, hr, ho, -⟩ := h.sessions.backed c' hc' (hcu ▸ h.sessions.fdNames fd hmem)
      rw [hcu, hf] at hr
      cases hr
      rw [ho] at hoff
      cases hoff

theorem step (h : Entries s) {a : Action} (hg : s.KeepsSession a) (hs : s.step a = some s') :
    Entries s' := by
  rcases Server.step_cases hs with ⟨ip, port, -, hfree, rfl⟩ | ⟨c, hc, -, rfl⟩ |
    ⟨c, hc, buffer, resume, rfl, -, -, he, rfl⟩
  · exact h.accepting hfree
  · exact h.disconnect hc
  · obtain ⟨hdead, hguard⟩ := Server.KeepsSession.survives h.sessions hc hg
    exact h.after hc he hdead hguard

end Entries

/-- The `switch` keeps all entries, and adds one for a new name. -/
theorem Server.Effect.entry {item : Cmd × List Str} {hd : Handled} (he : s.Effect c item hd) :
    (∀ fd ∈ s.clientFds, fd ∈ hd.clientFds) ∧
      (hd.username = c.username ∨ (hd.username, c.id) ∈ hd.clientFds) := by
  cases he with
  | nothing | registered | transferred => exact ⟨fun _ hfd => hfd, .inl rfl⟩
  | loggedIn =>
    exact ⟨fun _ hfd => List.mem_append_left _ hfd,
      .inr (List.mem_append_right _ (List.mem_singleton_self _))⟩

/-- Every connection that logs in gets an entry, and only its own logout takes it. -/
theorem Entered.step (h : Entered s) (hsess : Sessions s) {a : Action} (hs : s.step a = some s') :
    Entered s' := by
  rcases Server.step_cases hs with ⟨ip, port, -, -, rfl⟩ | ⟨c, hc, -, rfl⟩ |
    ⟨c, hc, buffer, resume, -, -, -, he, rfl⟩
  · intro x hx hu
    rcases Keyed.mem_replace.1 hx with rfl | ⟨hx, -⟩
    · exact absurd rfl hu
    · exact h x hx hu
  · intro x hx hu
    obtain ⟨hx, hne⟩ := Keyed.mem_erase.1 hx
    refine (List.mem_eraseP_of_neg ?_).2 (h x hx hu)
    rw [decide_eq_true_eq]
    exact fun he => hne (congrArg Conn.id (hsess.unique hx hc hu he))
  · intro x hx hu
    obtain ⟨hkeep, hname⟩ := he.entry
    rcases Sessions.mem_after hx with ⟨hx, -⟩ | rfl
    · exact hkeep _ (h x hx hu)
    · rcases hname with hname | hname
      · dsimp only at hu ⊢
        rw [hname] at hu ⊢
        exact hkeep _ (h c hc hu)
      · exact hname

/-- The reply to a transfer goes to the connection that is logged in as its payer. -/
theorem senderFd_of (he : Entries s) (hen : Entered s) {payer : Conn} (hp : payer ∈ s.conns.rows)
    (hu : payer.username ≠ []) :
    (s.table.find? payer.username).bind s.senderFd = some payer.id := by
  obtain ⟨r, hr, -, -⟩ := he.sessions.backed payer hp hu
  have hfd : s.clientFds.find? (fun fd => fd.1 = r.username) =
      some (payer.username, payer.id) := by
    refine (Keyed.find?_list he.fdsNodup).2 ⟨hen payer hp hu, ?_⟩
    exact (Keyed.find?_key hr).symm
  rw [hr, Option.bind_some, Server.senderFd, hfd]
  dsimp only
  rw [Keyed.find?_of_mem hp]
  rfl

end

/-! ## The invariant -/

structure Owned (s : Server) : Prop where
  sessions : Sessions s
  names : ∀ r ∈ s.table.rows, r.username ≠ []
  rows : ∀ r ∈ s.table.rows, r.online = true →
    ∃ c ∈ s.conns.rows, c.username = r.username ∧ c.endpoint = r.endpoint
  fds : ∀ fd ∈ s.clientFds, ∃ c ∈ s.conns.rows, c.username = fd.1 ∧ c.id = fd.2
  fdsNodup : (s.clientFds.map Prod.fst).Nodup

namespace Owned

variable {s s' : Server} {c : Conn}

theorem init : Owned (Server.init Keyed.empty) where
  sessions := .init _
  names _ h := absurd h List.not_mem_nil
  rows _ h := absurd h List.not_mem_nil
  fds _ h := absurd h List.not_mem_nil
  fdsNodup := List.nodup_nil

theorem entries (h : Owned s) : Entries s := ⟨h.sessions, h.fds, h.fdsNodup⟩

theorem row_unique (h : Owned s) {r r' : Client} (hr : r ∈ s.table.rows) (hr' : r' ∈ s.table.rows)
    (ho : r.online = true) (ho' : r'.online = true) (hep : r.endpoint = r'.endpoint) : r = r' := by
  obtain ⟨c, hc, hu, he⟩ := h.rows r hr ho
  obtain ⟨c', hc', hu', he'⟩ := h.rows r' hr' ho'
  obtain rfl := h.sessions.endpoints c hc c' hc' (he.trans (hep.trans he'.symm))
  exact Keyed.eq_of_key hr hr' (hu.symm.trans hu')

theorem noOrphans (h : Owned s) : NoOrphans s := by
  have hon : ∀ {r : Client}, r.onlineStatus = 1 → r.online = true := by
    intro r hr
    simpa [Client.online] using hr
  refine ⟨fun r hr ho => ?_, fun r hr r' hr' ho ho' => h.row_unique hr hr' (hon ho) (hon ho'),
    fun fd hfd => ?_⟩
  · obtain ⟨c, hc, -, he⟩ := h.rows r hr (hon ho)
    exact ⟨c, hc, he⟩
  · obtain ⟨c, hc, -, hid⟩ := h.fds fd hfd
    exact ⟨c, hc, hid⟩

/-- An online row is the only one at its endpoint. -/
theorem getAll_endpoint (h : Owned s) {r : Client} (hr : r ∈ s.table.rows) (ho : r.online = true)
    (he : r.endpoint = c.endpoint) :
    s.table.getAll (Client.onlineAt c.clientip c.clientport) = [r] := by
  have hnd : (s.table.getAll (Client.onlineAt c.clientip c.clientport)).Nodup :=
    (List.Nodup.of_map _ s.table.nodup).sublist List.filter_sublist
  rw [← List.perm_singleton, List.perm_ext_iff_of_nodup hnd (List.nodup_singleton r)]
  intro x
  rw [OnlineAt.mem_onlineAt, List.mem_singleton]
  constructor
  · rintro ⟨hx, hxo, hxe⟩
    exact h.row_unique hx hr hxo ho (hxe.trans he.symm)
  · rintro rfl
    exact ⟨hr, ho, he⟩

/-- The logout of a live connection takes the only row at its endpoint. -/
theorem online_of_logout (h : Owned s) {r : Client}
    (hr : r ∈ ((userLogout c.clientip c.clientport).run s.table).2.rows) (ho : r.online = true) :
    r ∈ s.table.rows ∧ r.endpoint ≠ c.endpoint := by
  rcases userLogout_run s.table c.clientip c.clientport with ⟨user, hrows, hrun⟩ | ⟨hrows, hrun⟩
  · rw [hrun] at hr
    rcases Keyed.mem_update hr with rfl | ⟨hr, hne⟩
    · cases ho
    · refine ⟨hr, fun he => hne ?_⟩
      rw [h.getAll_endpoint hr ho he] at hrows
      rw [List.singleton_inj.1 hrows]
      rfl
  · rw [hrun] at hr
    exact ⟨hr, fun he => hrows r (h.getAll_endpoint hr ho he)⟩

theorem names_logout (h : Owned s) {r : Client}
    (hr : r ∈ ((userLogout c.clientip c.clientport).run s.table).2.rows) : r.username ≠ [] := by
  rcases userLogout_run s.table c.clientip c.clientport with ⟨user, hrows, hrun⟩ | ⟨-, hrun⟩
  · rw [hrun] at hr
    rcases Keyed.mem_update hr with rfl | ⟨hr, -⟩
    · exact h.names user (OnlineAt.mem_onlineAt.1 (hrows ▸ List.mem_singleton_self user)).1
    · exact h.names r hr
  · rw [hrun] at hr
    exact h.names r hr

theorem disconnect (h : Owned s) (hc : c ∈ s.conns.rows) : Owned (s.disconnect c) := by
  have he := h.entries.disconnect hc
  refine ⟨he.sessions, fun r hr => h.names_logout hr, fun r hr ho => ?_, he.fds, he.fdsNodup⟩
  obtain ⟨hr, hne⟩ := h.online_of_logout hr ho
  obtain ⟨c', hc', hu, hep⟩ := h.rows r hr ho
  refine ⟨c', Keyed.mem_erase.2 ⟨hc', fun hid => hne ?_⟩, hu, hep⟩
  rw [← hep, Keyed.eq_of_key hc' hc hid]

theorem accepting (h : Owned s) {ip : Str} {port : Int}
    (hfree : ∀ c ∈ s.conns.rows, c.endpoint ≠ (ip, port)) : Owned (s.accepting ip port) := by
  have he := h.entries.accepting hfree
  refine ⟨he.sessions, h.names, fun r hr ho => ?_, he.fds, he.fdsNodup⟩
  obtain ⟨c, hc, hu, hep⟩ := h.rows r hr ho
  have := h.sessions.fresh c hc
  exact ⟨c, Keyed.mem_replace.2 (.inr ⟨hc, by change c.id ≠ s.accepted; omega⟩), hu, hep⟩

theorem after (h : Owned s) (hc : c ∈ s.conns.rows) {item : Cmd × List Str} {hd : Handled}
    (he : s.Effect c item hd) {live : Bool} (hdead : live = false → s.loginSucceeds item = false)
    (hguard : c.username ≠ [] → s.loginSucceeds item = false ∧ live = true) :
    Owned (s.after c hd live) := by
  -- after a successful login the connection is live under its new name
  have hself : s.loginSucceeds item = true →
      { c with username := hd.username } ∈ (s.after c hd live).conns.rows := by
    intro hl
    cases live with
    | true => exact Keyed.mem_update_self hc rfl
    | false =>
      rw [hdead rfl] at hl
      cases hl
  have hentries := h.entries.after hc he hdead hguard
  refine ⟨hentries.sessions, he.names h.names, fun r hr ho => ?_, hentries.fds, hentries.fdsNodup⟩
  rcases he.online_back hr ho with ⟨r₀, hr₀, ho₀, hu₀, he₀⟩ | ⟨hl, hu, hep⟩
  · obtain ⟨c', hc', hu', hep'⟩ := h.rows r₀ hr₀ ho₀
    obtain ⟨x, hx, hxu, hxe, -⟩ := owner_after hc he hguard hc' (hu' ▸ h.names r₀ hr₀)
    exact ⟨x, hx, hxu.trans (hu'.trans hu₀), hxe.trans (hep'.trans he₀)⟩
  · exact ⟨_, hself hl, hu, hep.symm⟩

theorem step (h : Owned s) {a : Action} (hg : s.KeepsSession a) (hs : s.step a = some s') :
    Owned s' := by
  rcases Server.step_cases hs with ⟨ip, port, -, hfree, rfl⟩ | ⟨c, hc, -, rfl⟩ |
    ⟨c, hc, buffer, resume, rfl, -, -, he, rfl⟩
  · exact h.accepting hfree
  · exact h.disconnect hc
  · obtain ⟨hdead, hguard⟩ := Server.KeepsSession.survives h.sessions hc hg
    exact h.after hc he hdead hguard

theorem endsClean (h : Owned s) : EndsClean s := by
  intro c hc a s' hends hs
  obtain rfl : s.disconnect c = s' := Option.some.inj ((Server.step_ends hc hends).symm.trans hs)
  have h' := h.disconnect hc
  refine ⟨fun r hr ho hep => ?_, fun fd hfd hid => ?_⟩
  · exact (h.online_of_logout hr (by simpa [Client.online] using ho)).2 hep
  · obtain ⟨c', hc', -, hid'⟩ := h'.fds fd hfd
    exact (Keyed.mem_erase.1 hc').2 (hid'.trans hid)

end Owned

/-- **No orphaned sessions** in any run from the empty table that keeps sessions. -/
theorem no_orphans {actions : List Action} {s : Server}
    (h : Run Server.step Server.KeepsSession (Server.init Keyed.empty) actions s) :
    NoOrphans s ∧ EndsClean s := by
  have ho : Owned s := h.inv (fun _ _ _ hi hg hs => hi.step hg hs) .init
  exact ⟨ho.noOrphans, ho.endsClean⟩

section
/-- `a` and `b` log in on one connection, which then leaves. -/
def twoLogins : List Action :=
  [.accept ['x'] 1, .message 0 "REGISTER#a".toList true, .message 0 "REGISTER#b".toList true,
    .message 0 "a#11".toList true, .message 0 "b#12".toList true, .message 0 "Exit".toList true]

/-- The same with one LOGIN. -/
theorem no_orphans_one :
    ∃ s, Run Server.step Server.KeepsSession (Server.init Keyed.empty)
        [.accept ['x'] 1, .message 0 "REGISTER#a".toList true, .message 0 "a#11".toList true,
          .message 0 "Exit".toList true] s ∧ NoOrphans s ∧ EndsClean s := by
  obtain ⟨s, -, h⟩ := Run.of_allowed (by decide +kernel : allowed Server.step Server.KeepsSession
    (Server.init Keyed.empty) [.accept ['x'] 1, .message 0 "REGISTER#a".toList true,
      .message 0 "a#11".toList true, .message 0 "Exit".toList true] = true)
  exact ⟨s, h, no_orphans h⟩

/-- Both rows are at the endpoint of the connection, so its Exit logs out neither. -/
theorem two_logins_orphan :
    ∃ s, Run Server.step Any (Server.init Keyed.empty) twoLogins s ∧ ¬ NoOrphans s := by
  have hrun : (runAll Server.step (Server.init Keyed.empty) twoLogins).map
      (fun s => (s.conns.rows, s.table.rows)) =
        some ([], [⟨['a'], ['x'], 1, 11, 1, 10000⟩, ⟨['b'], ['x'], 1, 12, 1, 10000⟩]) := by
    decide +kernel
  obtain ⟨s, hs, hout⟩ := Option.map_eq_some_iff.1 hrun
  obtain ⟨hconns, hrows⟩ := Prod.mk.inj hout
  refine ⟨s, Run.of_runAll hs, fun h => ?_⟩
  obtain ⟨c, hc, -⟩ := h.online ⟨['a'], ['x'], 1, 11, 1, 10000⟩ (by simp [hrows]) rfl
  rw [hconns] at hc
  cases hc

end

end Micropayment
