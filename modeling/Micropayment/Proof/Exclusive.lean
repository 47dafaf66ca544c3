import Micropayment.Proof.SessionFrame

/-!
# Concurrent logins

`user_login` looks whether the user is online and then updates the row in a later statement. The
log of all `UPDATE`s of a row, read in order, should open and close sessions in turn (`opens`).
`one_session`: it does if every login finds the row still offline and every logout finds it still
online at its endpoint (`StillValid`); so nobody is logged in twice. `two_sessions` is a run
without that.
-/

set_option autoImplicit false

namespace Micropayment

/-- A login or a logout. -/
def Call.isSession : Call → Bool
  | .login _ _ _ _ => true
  | .logout _ _ => true
  | _ => false

section
variable {ι : Type} (calls : ι → Call)

/-- Thread `i` is in a login of `u`. -/
def LogsIn (u : Str) (i : ι) : Prop := ∃ ip pub priv, calls i = .login u ip pub priv

/-- The session of `u` after one more `UPDATE` in the log: opened by a login (its endpoint and
private port), closed by a logout from that endpoint. -/
def opens (u : Str) (st : Option (Str × Int × Int)) (x : ι × Client) :
    Option (Option (Str × Int × Int)) :=
  if x.2.username = u then
    match calls x.1, st with
    | .login _ ip pub priv, none => some (some (ip, pub, priv))
    | .logout ip pub, some e => if ip = e.1 ∧ pub = e.2.1 then some none else none
    | _, _ => none
  else some st

/-- No login of `u` succeeds while another one's session is open. -/
structure OneSession (c : Workers ι) (u : Str) : Prop where
  success : ∀ i ip pub priv, calls i = .login u ip pub priv →
    ((c.thread i).prog = .ret .loginSuccess ↔
      ∃ w, (i, w) ∈ c.writes ∧ w.username = u ∧ w.session = (ip, pub, priv, 1))
  between : ∀ A B C i j w w', c.writes = A ++ (i, w) :: (B ++ (j, w') :: C) →
    LogsIn calls u i → LogsIn calls u j →
      ∃ k v, (k, v) ∈ B ∧ v.username = u ∧ calls k = .logout w.ip w.publicPort
  /-- Without logouts there is one success, and the row has what it passed. -/
  single : (∀ k ip pub, calls k ≠ .logout ip pub) →
    ∀ i ip pub priv, calls i = .login u ip pub priv → (c.thread i).prog = .ret .loginSuccess →
      (c.table.find? u).map Client.session = some (ip, pub, priv, 1) ∧
      ∀ j, LogsIn calls u j → (c.thread j).prog = .ret .loginSuccess → j = i

/-- If thread `i` writes next, the row is offline (for a login) or online at the endpoint (for a
logout), as its `SELECT` has found it. -/
def StillValid (c : Workers ι) (i : ι) : Prop :=
  ∀ w ∈ (c.thread i).prog.nextWrite, ∀ cur ∈ c.table.find? w.username,
    match calls i with
    | .login _ _ _ _ => cur.online = false
    | .logout ip pub => cur.onlineAt ip pub = true
    | _ => True

instance (c : Workers ι) (i : ι) : Decidable (StillValid calls c i) :=
  have (cur : Client) : Decidable (match calls i with
      | .login _ _ _ _ => cur.online = false
      | .logout ip pub => cur.onlineAt ip pub = true
      | _ => True) := by
    split <;> infer_instance
  inferInstanceAs (Decidable (∀ w ∈ (c.thread i).prog.nextWrite,
    ∀ cur ∈ c.table.find? w.username, _))

end

/-! ## What a call writes -/

/-- A login writes the user's row as it has read it, with its own session columns. -/
def LoginWrite (u ip : Str) (pub priv : Int) (seen : List Client) (w : Client) : Prop :=
  ∃ read ∈ seen, read.username = u ∧ w = read.login ip pub priv

/-- A logout writes a row that it has read, with its session columns cleared. -/
def LogoutWrite (seen : List Client) (w : Client) : Prop := ∃ read ∈ seen, w = read.logout

theorem userLogin_once (u ip : Str) (pub priv : Int) :
    (userLogin u ip pub priv).WritesOnce .loginSuccess (LoginWrite u ip pub priv)
      (fun _ _ => False) [] := by
  intro l hl
  cases l with
  | nil => simp [Prog.WritesOnce]
  | cons user l =>
    intro l' hl'
    dsimp only
    split
    · simp [Prog.WritesOnce]
    · exact ⟨⟨user, by simp, by simpa using hl user List.mem_cons_self, rfl⟩, rfl⟩

theorem userLogout_once (ip : Str) (pub : Int) :
    (userLogout ip pub).WritesOnce .logoutSuccess LogoutWrite (fun _ _ => False) [] := by
  intro l hl
  rcases l with _ | ⟨user, _ | ⟨user', l⟩⟩
  · simp [Prog.WritesOnce]
  · exact ⟨⟨user, by simp, rfl⟩, rfl⟩
  · simp [Prog.WritesOnce]

/-! ## The log -/

section
variable {ι : Type} {calls : ι → Call} {u : Str}

/-- An open session stays open until a logout from its endpoint. -/
theorem logout_or_open {B : List (ι × Client)} {e : Str × Int × Int}
    {st : Option (Str × Int × Int)} (h : runAll (opens calls u) (some e) B = some st) :
    (∃ k v, (k, v) ∈ B ∧ v.username = u ∧ calls k = .logout e.1 e.2.1) ∨ st = some e := by
  induction B with
  | nil => exact .inr (Option.some.inj h).symm
  | cons x B ih =>
    obtain ⟨st', hst, h⟩ := Option.bind_eq_some_iff.1 h
    unfold opens at hst
    split at hst
    · rename_i hu
      cases hx : calls x.1 with
      | logout ip pub =>
        simp only [hx] at hst
        split at hst
        · rename_i he
          exact .inl ⟨x.1, x.2, List.mem_cons_self, hu, by rw [hx, he.1, he.2]⟩
        · cases hst
      | register | login | transaction =>
        rw [hx] at hst
        cases hst
    · cases hst
      rcases ih h with ⟨k, v, hm, hv, hk⟩ | he
      · exact .inl ⟨k, v, List.mem_cons_of_mem x hm, hv, hk⟩
      · exact .inr he

/-- The row is as the session says. -/
def RowIs (t : Table) (u : Str) : Option (Str × Int × Int) → Prop
  | some e => (t.find? u).map Client.session = some (e.1, e.2.1, e.2.2, 1)
  | none => ∀ r ∈ t.find? u, r.online = false

theorem RowIs.columns {t : Table} {e : Str × Int × Int} (h : RowIs t u (some e)) {r : Client}
    (hr : t.find? u = some r) :
    r.ip = e.1 ∧ r.publicPort = e.2.1 ∧ r.privatePort = e.2.2 ∧ r.onlineStatus = 1 := by
  have hs : (t.find? u).map Client.session = some (e.1, e.2.1, e.2.2, 1) := h
  rw [hr] at hs
  simpa only [Client.session, Prod.mk.injEq] using Option.some.inj hs

theorem RowIs.update {t : Table} {st : Option (Str × Int × Int)} (h : RowIs t u st) {w : Client}
    (hw : w.username ≠ u) : RowIs (t.update w) u st := by
  have hf : (t.update w).find? u = t.find? u := by rw [Keyed.find?_update, if_neg hw]
  cases st with
  | none =>
    intro r hr
    rw [hf] at hr
    exact h r hr
  | some e =>
    show ((t.update w).find? u).map _ = _
    rw [hf]
    exact h

/-! ## The invariant -/

variable (calls u) in
structure SessionInv (c : Workers ι) : Prop where
  logins : ∀ i v ip pub priv, calls i = .login v ip pub priv →
    c.Once .loginSuccess (LoginWrite v ip pub priv) (fun _ _ => False) i
  logouts : ∀ i ip pub, calls i = .logout ip pub →
    c.Once .logoutSuccess LogoutWrite (fun _ _ => False) i
  seen : c.SeenStay
  written : ∀ i w v ip pub priv, (i, w) ∈ c.writes → calls i = .login v ip pub priv →
    w.username = v ∧ w.session = (ip, pub, priv, 1)
  session : ∃ st, runAll (opens calls u) none c.writes = some st ∧ RowIs c.table u st

namespace SessionInv

theorem init {t₀ : Table} (hoff : ∀ r ∈ t₀.find? u, r.online = false) :
    SessionInv calls u (Config.init t₀ fun i => (calls i).prog) := by
  refine ⟨fun i v ip pub priv hi => .inl ⟨List.not_mem_nil, ?_⟩,
    fun i ip pub hi => .inl ⟨List.not_mem_nil, ?_⟩, fun i r hr => absurd hr List.not_mem_nil,
    fun i w v ip pub priv hm => absurd hm List.not_mem_nil, none, rfl, hoff⟩
  · simp only [Config.init, hi]
    exact userLogin_once v ip pub priv
  · simp only [Config.init, hi]
    exact userLogout_once ip pub

variable {c c' : Workers ι} {i : ι}

/-- The session after one more `UPDATE`, which finds the row as its `SELECT` did. -/
theorem session_update (h : SessionInv calls u c) (hf : StillValid calls c i) {w cur : Client}
    (hnext : w ∈ (c.thread i).prog.nextWrite) (hcur : c.table.find? w.username = some cur)
    (hw : (∃ v ip pub priv, calls i = .login v ip pub priv ∧ w.session = (ip, pub, priv, 1)) ∨
      ∃ ip pub, calls i = .logout ip pub ∧ w.online = false) :
    ∃ st, runAll (opens calls u) none (c.writes ++ [(i, w)]) = some st ∧
      RowIs (c.table.update w) u st := by
  obtain ⟨st, hst, hrow⟩ := h.session
  have hvalid := hf w hnext cur hcur
  by_cases hu : w.username = u
  · -- the new row of `u` is `w`
    have hf' : (c.table.update w).find? u = some w := by
      rw [Keyed.find?_update, if_pos hu, ← hu, hcur]
      rfl
    rw [hu] at hcur
    rw [Run.runAll_append, hst]
    rcases hw with ⟨v, ip, pub, priv, hi, hs⟩ | ⟨ip, pub, hi, hs⟩
    · rw [hi] at hvalid
      cases st with
      | none =>
        refine ⟨some (ip, pub, priv), by simp [runAll, opens, hu, hi], ?_⟩
        show ((c.table.update w).find? u).map _ = _
        rw [hf', Option.map_some, hs]
      | some e =>
        obtain ⟨hip', hpub', -, hon'⟩ := hrow.columns hcur
        simp [Client.online, hon'] at hvalid
    · rw [hi] at hvalid
      simp only [Client.onlineAt, Bool.and_eq_true, decide_eq_true_eq] at hvalid
      obtain ⟨⟨hip, hpub⟩, hon⟩ := hvalid
      cases st with
      | none =>
        have := hrow cur hcur
        simp [Client.online, hon] at this
      | some e =>
        obtain ⟨hip', hpub', -, hon'⟩ := hrow.columns hcur
        refine ⟨none, by simp [runAll, opens, hu, hi, ← hip, ← hpub, hip', hpub'], ?_⟩
        intro r hr
        rw [hf'] at hr
        cases hr
        exact hs
  · refine ⟨st, ?_, hrow.update hu⟩
    rw [Run.runAll_append, hst]
    simp [runAll, opens, hu]

theorem success_iff (h : SessionInv calls u c) {ip : Str} {pub priv : Int}
    (hi : calls i = .login u ip pub priv) :
    (c.thread i).prog = .ret .loginSuccess ↔
      ∃ w, (i, w) ∈ c.writes ∧ w.username = u ∧ w.session = (ip, pub, priv, 1) := by
  rw [(h.logins i u ip pub priv hi).ret_iff]
  constructor
  · intro hm
    obtain ⟨⟨i', w⟩, hw, rfl⟩ := List.mem_map.1 hm
    exact ⟨w, hw, h.written i' w u ip pub priv hw hi⟩
  · rintro ⟨w, hw, -⟩
    exact List.mem_map.2 ⟨_, hw, rfl⟩

section
variable {A B C : List (ι × Client)} {j : ι} {w w' : Client} {ip : Str} {pub priv : Int}

/-- An `UPDATE` by a login of `u` opens its session, which no open one allows. -/
theorem opened (h : SessionInv calls u c) (hi : calls i = .login u ip pub priv)
    (hm : (i, w) ∈ c.writes) {st st' : Option (Str × Int × Int)}
    (hrun : runAll (opens calls u) st ((i, w) :: B) = some st') :
    st = none ∧ runAll (opens calls u) (some (ip, pub, priv)) B = some st' := by
  obtain ⟨hu, -⟩ := h.written i w u ip pub priv hm hi
  obtain ⟨y, hy, hrun⟩ := Option.bind_eq_some_iff.1 hrun
  simp only [opens, hu, if_true, hi] at hy
  cases st with
  | none =>
    cases hy
    exact ⟨rfl, hrun⟩
  | some e => cases hy

/-- After the `UPDATE` of a login of `u`, the log goes on from its session. -/
theorem after_login (h : SessionInv calls u c) (hi : calls i = .login u ip pub priv)
    (hw : c.writes = A ++ (i, w) :: B) :
    ∃ st, runAll (opens calls u) (some (ip, pub, priv)) B = some st ∧ RowIs c.table u st := by
  obtain ⟨st, hst, hrow⟩ := h.session
  rw [hw, Run.runAll_append] at hst
  obtain ⟨x, -, hst⟩ := Option.bind_eq_some_iff.1 hst
  exact ⟨st, (h.opened hi (by simp [hw]) hst).2, hrow⟩

theorem logout_between (h : SessionInv calls u c)
    (hw : c.writes = A ++ (i, w) :: (B ++ (j, w') :: C)) (hi : LogsIn calls u i)
    (hj : LogsIn calls u j) :
    ∃ k v, (k, v) ∈ B ∧ v.username = u ∧ calls k = .logout w.ip w.publicPort := by
  obtain ⟨ip, pub, priv, hi⟩ := hi
  obtain ⟨ip', pub', priv', hj⟩ := hj
  obtain ⟨-, hs⟩ := h.written i w u ip pub priv (by simp [hw]) hi
  simp only [Client.session, Prod.mk.injEq] at hs
  obtain ⟨st, hrun, -⟩ := h.after_login hi hw
  rw [Run.runAll_append] at hrun
  obtain ⟨x, hB, hC⟩ := Option.bind_eq_some_iff.1 hrun
  obtain ⟨rfl, -⟩ := h.opened hj (by simp [hw]) hC
  rw [hs.1, hs.2.1]
  rcases logout_or_open hB with hout | hopen
  · exact hout
  · cases hopen

/-- Without logouts, the row stays as the login has left it. -/
theorem row_of_login (h : SessionInv calls u c) (hno : ∀ k ip pub, calls k ≠ .logout ip pub)
    (hi : calls i = .login u ip pub priv) (hm : (i, w) ∈ c.writes) :
    (c.table.find? u).map Client.session = some (ip, pub, priv, 1) := by
  obtain ⟨A, B, hAB⟩ := List.append_of_mem hm
  obtain ⟨st, hrun, hrow⟩ := h.after_login hi hAB
  rcases logout_or_open hrun with ⟨k, v, -, -, hk⟩ | rfl
  · exact absurd hk (hno k _ _)
  · exact hrow

/-- Without logouts, there is one login. -/
theorem one_login (h : SessionInv calls u c) (hno : ∀ k ip pub, calls k ≠ .logout ip pub)
    (hi : LogsIn calls u i) (hm : (i, w) ∈ c.writes) (hj : LogsIn calls u j)
    (hm' : (j, w') ∈ c.writes) : j = i := by
  obtain ⟨A, B, hAB⟩ := List.append_of_mem hm
  rw [hAB] at hm'
  rcases List.mem_append.1 hm' with hA | hB
  · obtain ⟨A₁, A₂, rfl⟩ := List.append_of_mem hA
    have hw : c.writes = A₁ ++ (j, w') :: (A₂ ++ (i, w) :: B) := by simp [hAB]
    obtain ⟨k, v, -, -, hk⟩ := h.logout_between hw hj hi
    exact absurd hk (hno k _ _)
  · rcases List.mem_cons.1 hB with he | hB
    · exact congrArg Prod.fst he
    · obtain ⟨B₁, B₂, rfl⟩ := List.append_of_mem hB
      obtain ⟨k, v, -, -, hk⟩ := h.logout_between hAB hi hj
      exact absurd hk (hno k _ _)

end

theorem oneSession (h : SessionInv calls u c) : OneSession calls c u := by
  refine ⟨fun i ip pub priv hi => h.success_iff hi, fun A B C i j w w' hw hi hj =>
    h.logout_between hw hi hj, fun hno i ip pub priv hi hret => ?_⟩
  obtain ⟨w, hw, -⟩ := (h.success_iff hi).1 hret
  refine ⟨h.row_of_login hno hi hw, fun j hj hretj => ?_⟩
  obtain ⟨ip', pub', priv', hj'⟩ := hj
  obtain ⟨w', hw', -⟩ := (h.success_iff hj').1 hretj
  exact h.one_login hno ⟨ip, pub, priv, hi⟩ hw ⟨ip', pub', priv', hj'⟩ hw'

variable [DecidableEq ι]

/-- A read leaves the log and the table. -/
theorem exec_read (h : SessionInv calls u c) (hs : c.exec i = some c') {p : Client → Bool}
    {k : List Client → Prog Client Status}
    (hc' : c' = c.setThread i ⟨k (c.table.getAll p), (c.thread i).seen ++ c.table.getAll p⟩) :
    SessionInv calls u c' := by
  subst hc'
  exact ⟨fun j v ip pub priv hj => (h.logins j v ip pub priv hj).exec hs,
    fun j ip pub hj => (h.logouts j ip pub hj).exec hs, h.seen.exec hs, h.written, h.session⟩

/-- An `UPDATE` that a login or a logout makes of a row it has read. -/
theorem exec_update (h : SessionInv calls u c) (hf : StillValid calls c i)
    (hs : c.exec i = some c') {w read : Client} {k : Prog Client Status}
    (hc' : c' = c.wrote i w (c.table.update w) k) (hnext : w ∈ (c.thread i).prog.nextWrite)
    (hread : read ∈ (c.thread i).seen) (hname : read.username = w.username)
    (hw : (∃ v ip pub priv, calls i = .login v ip pub priv ∧ w.session = (ip, pub, priv, 1)) ∨
      ∃ ip pub, calls i = .logout ip pub ∧ w.online = false)
    (hlog : ∀ v ip pub priv, calls i = .login v ip pub priv →
      w.username = v ∧ w.session = (ip, pub, priv, 1)) : SessionInv calls u c' := by
  subst hc'
  obtain ⟨cur, hcur⟩ := Option.isSome_iff_exists.1 (hname ▸ h.seen i read hread)
  refine ⟨fun j v ip pub priv hj => (h.logins j v ip pub priv hj).exec hs,
    fun j ip pub hj => (h.logouts j ip pub hj).exec hs, h.seen.exec hs,
    fun j x v ip pub priv hx hj => ?_, h.session_update hf hnext hcur hw⟩
  rw [Config.wrote_writes, List.mem_append, List.mem_singleton] at hx
  rcases hx with hx | hx
  · exact h.written j x v ip pub priv hx hj
  · cases hx
    exact hlog v ip pub priv hj

theorem exec (h : SessionInv calls u c) (hcalls : ∀ i, (calls i).isSession = true)
    (hf : StillValid calls c i) (hs : c.exec i = some c') : SessionInv calls u c' := by
  have hcall := hcalls i
  cases hi : calls i with
  | login v ip pub priv =>
    obtain ⟨-, ⟨p, k, hc', -⟩ | ⟨w, hnext, ⟨read, hm, hv, rfl⟩, hc'⟩ | ⟨w, -, hw, -⟩⟩ :=
      (h.logins i v ip pub priv hi).exec_cases hs
    · exact h.exec_read hs hc'
    · refine h.exec_update hf hs hc' hnext hm rfl (.inl ⟨v, ip, pub, priv, hi, rfl⟩) ?_
      intro v' ip' pub' priv' hi'
      cases hi.symm.trans hi'
      exact ⟨hv, rfl⟩
    · exact hw.elim
  | logout ip pub =>
    obtain ⟨-, ⟨p, k, hc', -⟩ | ⟨w, hnext, ⟨read, hm, rfl⟩, hc'⟩ | ⟨w, -, hw, -⟩⟩ :=
      (h.logouts i ip pub hi).exec_cases hs
    · exact h.exec_read hs hc'
    · refine h.exec_update hf hs hc' hnext hm rfl (.inr ⟨ip, pub, hi, rfl⟩) ?_
      intro v' ip' pub' priv' hi'
      cases hi.symm.trans hi'
    · exact hw.elim
  | register | transaction =>
    rw [hi] at hcall
    cases hcall

end SessionInv

variable [DecidableEq ι]

/-- **One user, one session** along every interleaving of logins and logouts in which each `UPDATE`
finds the row as its `SELECT` did. -/
theorem one_session {t₀ : Table} (hcalls : ∀ i, (calls i).isSession = true)
    (hoff : ∀ r ∈ t₀.find? u, r.online = false) {sched : List ι} {c : Workers ι}
    (h : Run Config.exec (StillValid calls) (Config.init t₀ fun i => (calls i).prog) sched c) :
    OneSession calls c u :=
  (h.inv (fun _ _ _ hi hf hs => hi.exec hcalls hf hs) (SessionInv.init hoff)).oneSession

end

/-! ## Two logins of one user -/

section
/-- `a`, offline. -/
def oneUser : Table where
  rows := [⟨['a'], [], -1, -1, 0, 10000⟩]
  nodup := by decide

/-- Logins of `a` from two connections. -/
def twoLogIns (i : Bool) : Call :=
  if i then .login ['a'] ['x'] 1 11 else .login ['a'] ['y'] 2 12

def logInWorkers : Workers Bool := Config.init oneUser fun i => (twoLogIns i).prog

/-- The first logs out before the second looks at the row. -/
def logInOutIn (i : Fin 3) : Call :=
  match i with
  | 0 => .login ['a'] ['x'] 1 11
  | 1 => .logout ['x'] 1
  | 2 => .login ['a'] ['y'] 2 12

theorem one_session_two :
    ∃ c : Workers (Fin 3), Run Config.exec (StillValid logInOutIn)
        (Config.init oneUser fun i => (logInOutIn i).prog) [0, 0, 2, 0, 1, 1, 2, 2] c ∧
      c.writes.map Prod.fst = [0, 1, 2] ∧ OneSession logInOutIn c ['a'] := by
  obtain ⟨c, hc, h⟩ := Run.of_allowed (by decide +kernel : allowed Config.exec
    (StillValid logInOutIn) (Config.init oneUser fun i => (logInOutIn i).prog)
      [0, 0, 2, 0, 1, 1, 2, 2] = true)
  have hwrites : (runAll Config.exec (Config.init oneUser fun i => (logInOutIn i).prog)
      [0, 0, 2, 0, 1, 1, 2, 2]).map (fun c => c.writes.map Prod.fst) = some [0, 1, 2] := by
    decide +kernel
  rw [hc] at hwrites
  have hoff : ∀ r ∈ oneUser.find? ['a'], r.online = false := by decide
  exact ⟨c, h, Option.some.inj hwrites, one_session (fun i => by fin_cases i <;> rfl) hoff h⟩

/-- Both look before either writes: both logins succeed. -/
theorem two_sessions :
    ∃ c : Workers Bool, Run Config.exec Any logInWorkers [true, true, false, false, true, false] c ∧
      ¬ OneSession twoLogIns c ['a'] := by
  have hend : ∀ i, (runAll Config.exec logInWorkers [true, true, false, false, true, false]).map
      (fun c => (c.thread i).prog.result?) = some (some .loginSuccess) := by decide +kernel
  obtain ⟨c, hc, -⟩ := Option.map_eq_some_iff.1 (hend true)
  have hret : ∀ i, (c.thread i).prog = .ret .loginSuccess := by
    intro i
    have hi := hend i
    rw [hc] at hi
    exact Prog.of_result? (Option.some.inj hi)
  refine ⟨c, Run.of_runAll hc, fun h => ?_⟩
  have hno : ∀ k ip pub, twoLogIns k ≠ .logout ip pub := by
    intro k ip pub
    cases k <;> simp [twoLogIns]
  have := (h.single hno true ['x'] 1 11 rfl (hret true)).2 false ⟨['y'], 2, 12, rfl⟩ (hret false)
  cases this

end

end Micropayment
