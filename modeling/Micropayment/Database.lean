import Micropayment.Lib.Prog
import Micropayment.Text

/-!
# The database (`Database.cpp`)

`Client` is a row of the `CLIENT` table (the `fd` field is no column and never read), `Table` the
table with its primary key. Each member function of `Database` that writes is a `Prog`: its
`get_all`, `replace` and `update` statements in order, each atomic (`sync_schema` changes nothing
on a table that matches). What a call does running alone is its `_run` lemma; `Call.outcome`
collects what any call returns and leaves.
-/

set_option autoImplicit false

namespace Micropayment

structure Client where
  username : Str
  ip : Str
  publicPort : Int
  privatePort : Int
  onlineStatus : Int
  balance : Int
  deriving DecidableEq, Repr

abbrev Table := Keyed Client.username

/-- The status codes of `Database.hpp` that a modelled function returns. -/
inductive Status where
  | registerOk
  | registerFail
  | loginSuccess
  | loginAuthFail
  | loginExist
  | logoutSuccess
  | logoutFail
  | transferOk
  | transferFail
  | transferSenderBankrupt
  | transferSelfFail
  deriving DecidableEq, Repr

def Status.code : Status → Int
  | registerOk => 100
  | registerFail => 210
  | loginSuccess => 110
  | loginAuthFail => 220
  | loginExist => 230
  | logoutSuccess => 120
  | logoutFail => 250
  | transferOk => 130
  | transferFail => 260
  | transferSenderBankrupt => 270
  | transferSelfFail => 280

def initialBalance : Int := 10000

/-- Assignment of a `double` to an `int`: truncation toward zero. -/
def truncToInt (q : ℚ) : Int := if 0 ≤ q then ⌊q⌋ else ⌈q⌉

/-! ## Rows -/

def newUser (username : Str) : Client := ⟨username, [], -1, -1, 0, initialBalance⟩

namespace Client

/-- The row `user_login` writes over the row it read. -/
def login (user : Client) (ip : Str) (publicPort privatePort : Int) : Client :=
  { user with ip, publicPort, privatePort, onlineStatus := 1 }

/-- The row `user_logout` writes over the row it read. -/
def logout (user : Client) : Client :=
  { user with ip := [], publicPort := -1, privatePort := -1, onlineStatus := 0 }

/-- `sender.balance -= pay` -/
def debit (sender : Client) (pay : ℚ) : Client :=
  { sender with balance := truncToInt (sender.balance - pay) }

/-- `receiver.balance += pay` -/
def credit (receiver : Client) (pay : ℚ) : Client :=
  { receiver with balance := truncToInt (receiver.balance + pay) }

def online (c : Client) : Bool := c.onlineStatus = 1

/-- The online row of a connection's endpoint. -/
def onlineAt (ip : Str) (publicPort : Int) (c : Client) : Bool :=
  c.ip = ip && c.publicPort = publicPort && c.onlineStatus = 1

/-- The columns of a row that `user_login` and `user_logout` set. -/
def session (c : Client) : Str × Int × Int × Int :=
  (c.ip, c.publicPort, c.privatePort, c.onlineStatus)

section
variable (c : Client) (ip : Str) (pub priv : Int) (pay : ℚ)

@[simp] theorem login_username : (c.login ip pub priv).username = c.username := rfl
@[simp] theorem logout_username : c.logout.username = c.username := rfl
@[simp] theorem debit_username : (c.debit pay).username = c.username := rfl
@[simp] theorem credit_username : (c.credit pay).username = c.username := rfl

theorem online_of_session {c d : Client} (h : c.session = d.session) : c.online = d.online := by
  simp only [session, Prod.mk.injEq] at h
  simp [online, h.2.2.2]

end

end Client

/-! ## The member functions -/

def userRegister (username _ip : Str) : Prog Client Status :=
  .getAll (fun c => c.username = username) fun checkUser =>
  if checkUser.length ≥ 1 then .ret .registerFail
  else .replace (newUser username) (.ret .registerOk)

def userLogin (username ip : Str) (publicPort privatePort : Int) : Prog Client Status :=
  .getAll (fun c => c.username = username) fun checkUser =>
  match checkUser with
  | [] => .ret .loginAuthFail
  | user :: _ =>
    .getAll (fun c => c.username = username && c.online) fun checkOnline =>
    if checkOnline.length = 1 then .ret .loginExist
    else .update (user.login ip publicPort privatePort) (.ret .loginSuccess)

def userLogout (ip : Str) (publicPort : Int) : Prog Client Status :=
  .getAll (Client.onlineAt ip publicPort) fun checkUser =>
  match checkUser with
  | [user] => .update user.logout (.ret .logoutSuccess)
  | _ => .ret .logoutFail

def userTransaction (snd rcv : Str) (pay : ℚ) : Prog Client Status :=
  if pay ≤ 0 ∨ snd = rcv then
    if snd = rcv then .ret .transferSelfFail else .ret .transferFail
  else
    .getAll (fun c => c.username = snd && c.online) fun senderResult =>
    .getAll (fun c => c.username = rcv && c.online) fun receiverResult =>
    match senderResult, receiverResult with
    | [sender], [receiver] =>
      if (sender.balance : ℚ) - pay < 0 then .ret .transferSenderBankrupt
      else .update (sender.debit pay) (.update (receiver.credit pay) (.ret .transferOk))
    | _, _ => .ret .transferFail

/-- `get_all(..)[0]`; `none` is the access past the end of an empty vector. -/
def userInfo (t : Table) (username : Str) : Option Client :=
  (t.getAll fun c => c.username = username).head?

def list (t : Table) (online : Bool) : List Client :=
  if online then t.getAll Client.online else t.getAll fun _ => true

def userNum (t : Table) : Int := (list t true).length

def userListInfo (t : Table) : Str :=
  (list t true).flatMap fun user =>
    user.username ++ "#".toList ++ user.ip ++ "#".toList ++ toStr user.privatePort ++ "\n".toList

/-- Any number of worker threads, each in one call, on the shared table. -/
abbrev Workers (ι : Type) := Config ι Client.username Status

/-! ## Calls running alone -/

theorem userRegister_run (t : Table) (username ip : Str) :
    (userRegister username ip).run t =
      match t.find? username with
      | some _ => (.registerFail, t)
      | none => (.registerOk, t.replace (newUser username)) := by
  simp only [userRegister, Prog.run, Keyed.getAll_eq_key]
  cases t.find? username <;> rfl

theorem userLogin_run (t : Table) (username ip : Str) (publicPort privatePort : Int) :
    (userLogin username ip publicPort privatePort).run t =
      match t.find? username with
      | none => (.loginAuthFail, t)
      | some user =>
        if user.online then (.loginExist, t)
        else (.loginSuccess, t.update (user.login ip publicPort privatePort)) := by
  simp only [userLogin, Prog.run, Keyed.getAll_eq_key]
  cases h : t.find? username with
  | none => rfl
  | some user =>
    simp only [Option.toList_some, Prog.run, Keyed.getAll_key, h]
    cases ho : user.online <;> simp [Option.filter, ho, Prog.run]

theorem userLogout_run (t : Table) (ip : Str) (publicPort : Int) :
    (∃ user, t.getAll (Client.onlineAt ip publicPort) = [user] ∧
      (userLogout ip publicPort).run t = (.logoutSuccess, t.update user.logout)) ∨
    ((∀ user, t.getAll (Client.onlineAt ip publicPort) ≠ [user]) ∧
      (userLogout ip publicPort).run t = (.logoutFail, t)) := by
  simp only [userLogout, Prog.run]
  rcases t.getAll (Client.onlineAt ip publicPort) with _ | ⟨user, _ | ⟨user', l⟩⟩
  · exact .inr ⟨by simp, rfl⟩
  · exact .inl ⟨user, rfl, rfl⟩
  · exact .inr ⟨by simp, rfl⟩

/-- `user_transaction(snd, rcv, pay)` reaches its two `update` statements, with the rows `s` and
`r` as its copies of the sender's and the receiver's row. -/
structure Transfers (t : Table) (snd rcv : Str) (pay : ℚ) (s r : Client) : Prop where
  ne : snd ≠ rcv
  pos : 0 < pay
  sender : t.find? snd = some s
  senderOnline : s.online = true
  receiver : t.find? rcv = some r
  receiverOnline : r.online = true
  funds : pay ≤ s.balance

/-- `u` has a row with `online_status` 1. -/
def HasSession (t : Table) (u : Str) : Prop := ∃ c ∈ t.rows, c.username = u ∧ c.onlineStatus = 1

theorem hasSession_iff {t : Table} {u : Str} :
    HasSession t u ↔ ∃ c, t.find? u = some c ∧ c.online = true := by
  simp only [HasSession, Keyed.find?_eq_some, Client.online, decide_eq_true_eq, and_assoc]

theorem not_hasSession {t : Table} {u : Str} (h : (t.find? u).filter Client.online = none) :
    ¬ HasSession t u := by
  intro hu
  obtain ⟨c, hc, ho⟩ := hasSession_iff.1 hu
  rw [hc, Option.filter_some_pos ho] at h
  cases h

/-- The five ways a transfer goes, in the order in which the code tests for them. -/
theorem userTransaction_cases (t : Table) (snd rcv : Str) (pay : ℚ) :
    (snd = rcv ∧ (userTransaction snd rcv pay).run t = (.transferSelfFail, t)) ∨
    (snd ≠ rcv ∧ (pay ≤ 0 ∨ ¬ HasSession t snd ∨ ¬ HasSession t rcv) ∧
      (userTransaction snd rcv pay).run t = (.transferFail, t)) ∨
    (∃ s, snd ≠ rcv ∧ 0 < pay ∧ t.find? snd = some s ∧ HasSession t snd ∧ HasSession t rcv ∧
      (s.balance : ℚ) < pay ∧
      (userTransaction snd rcv pay).run t = (.transferSenderBankrupt, t)) ∨
    (∃ s r, Transfers t snd rcv pay s r ∧ (userTransaction snd rcv pay).run t =
      (.transferOk, (t.update (s.debit pay)).update (r.credit pay))) := by
  by_cases hne : snd = rcv
  · exact .inl ⟨hne, by simp [userTransaction, hne, Prog.run]⟩
  by_cases hpay : pay ≤ 0
  · exact .inr (.inl ⟨hne, .inl hpay, by simp [userTransaction, hne, hpay, Prog.run]⟩)
  unfold userTransaction
  rw [if_neg (not_or.2 ⟨hpay, hne⟩)]
  simp only [Prog.run, Keyed.getAll_key]
  cases hs : (t.find? snd).filter Client.online with
  | none => exact .inr (.inl ⟨hne, .inr (.inl (not_hasSession hs)), rfl⟩)
  | some s =>
    cases hr : (t.find? rcv).filter Client.online with
    | none => exact .inr (.inl ⟨hne, .inr (.inr (not_hasSession hr)), rfl⟩)
    | some r =>
      obtain ⟨hs, hso⟩ := Option.filter_eq_some_iff.1 hs
      obtain ⟨hr, hro⟩ := Option.filter_eq_some_iff.1 hr
      by_cases hf : (s.balance : ℚ) - pay < 0
      · refine .inr (.inr (.inl ⟨s, hne, not_le.1 hpay, hs, ?_, ?_, sub_neg.1 hf, ?_⟩))
        · exact hasSession_iff.2 ⟨s, hs, hso⟩
        · exact hasSession_iff.2 ⟨r, hr, hro⟩
        · simp [hf, Prog.run]
      · have hfunds : pay ≤ s.balance := sub_nonneg.1 (not_lt.1 hf)
        refine .inr (.inr (.inr ⟨s, r, ⟨hne, not_le.1 hpay, hs, hso, hr, hro, hfunds⟩, ?_⟩))
        simp [hf, Prog.run]

theorem Transfers.hasSession {t : Table} {snd rcv : Str} {pay : ℚ} {s r : Client}
    (h : Transfers t snd rcv pay s r) : HasSession t snd ∧ HasSession t rcv :=
  ⟨hasSession_iff.2 ⟨s, h.sender, h.senderOnline⟩,
    hasSession_iff.2 ⟨r, h.receiver, h.receiverOnline⟩⟩

/-- Whether the `update` statements are reached, and what the call returns and leaves. -/
theorem userTransaction_run (t : Table) (snd rcv : Str) (pay : ℚ) :
    (∃ s r, Transfers t snd rcv pay s r ∧ (userTransaction snd rcv pay).run t =
      (.transferOk, (t.update (s.debit pay)).update (r.credit pay))) ∨
    ((∀ s r, ¬ Transfers t snd rcv pay s r) ∧ ∃ st, st ≠ .transferOk ∧
      (userTransaction snd rcv pay).run t = (st, t)) := by
  rcases userTransaction_cases t snd rcv pay with ⟨heq, hrun⟩ | ⟨-, hfail, hrun⟩ |
    ⟨s, -, -, hs, -, -, hf, hrun⟩ | h
  · exact .inr ⟨fun s r h => h.ne heq, _, by simp, hrun⟩
  · refine .inr ⟨fun s r h => ?_, _, by simp, hrun⟩
    rcases hfail with hp | hn | hn
    · exact absurd h.pos (not_lt.2 hp)
    · exact hn h.hasSession.1
    · exact hn h.hasSession.2
  · refine .inr ⟨fun s' r h => ?_, _, by simp, hrun⟩
    cases hs.symm.trans h.sender
    exact absurd h.funds (not_le.2 hf)
  · exact .inl h

theorem Transfers.run {t : Table} {snd rcv : Str} {pay : ℚ} {s r : Client}
    (h : Transfers t snd rcv pay s r) : (userTransaction snd rcv pay).run t =
      (.transferOk, (t.update (s.debit pay)).update (r.credit pay)) := by
  rcases userTransaction_run t snd rcv pay with ⟨s', r', h', hrun⟩ | ⟨hn, -⟩
  · cases h.sender.symm.trans h'.sender
    cases h.receiver.symm.trans h'.receiver
    exact hrun
  · exact absurd h (hn s r)

section
variable {t : Table} {snd rcv : Str} {pay : ℚ} {s r : Client}

theorem Transfers.find?_rcv (h : Transfers t snd rcv pay s r) :
    (t.update (s.debit pay)).find? rcv = some r := by
  rw [Keyed.find?_update, if_neg]
  · exact h.receiver
  · rw [Client.debit_username, Keyed.find?_key h.sender]
    exact h.ne

/-- The table after the two `update` statements, one name at a time. -/
theorem Transfers.find?_after (h : Transfers t snd rcv pay s r) (u : Str) :
    ((t.update (s.debit pay)).update (r.credit pay)).find? u =
      if rcv = u then some (r.credit pay)
      else if snd = u then some (s.debit pay) else t.find? u := by
  have hs : (s.debit pay).username = snd := by
    rw [Client.debit_username, Keyed.find?_key h.sender]
  have hr : (r.credit pay).username = rcv := by
    rw [Client.credit_username, Keyed.find?_key h.receiver]
  rw [Keyed.find?_update, hr]
  split
  · rename_i hu
    subst hu
    rw [h.find?_rcv]
    rfl
  · rw [Keyed.find?_update, hs]
    split
    · rename_i hu
      subst hu
      rw [h.sender]
      rfl
    · rfl

end

/-- The table after a successful login, one name at a time. -/
theorem find?_login {t : Table} {u : Str} {user : Client} (h : t.find? u = some user) (ip : Str)
    (publicPort privatePort : Int) (v : Str) :
    (t.update (user.login ip publicPort privatePort)).find? v =
      if u = v then some (user.login ip publicPort privatePort) else t.find? v := by
  rw [Keyed.find?_update, Client.login_username, Keyed.find?_key h]
  split
  · rename_i hv
    rw [← hv, h]
    rfl
  · rfl

theorem userInfo_eq (t : Table) (username : Str) : userInfo t username = t.find? username := by
  rw [userInfo, Keyed.getAll_eq_key]
  cases t.find? username <;> rfl

/-! ## Calls -/

/-- A call of one of the four member functions, with its arguments. -/
inductive Call where
  | register (username ip : Str)
  | login (username ip : Str) (publicPort privatePort : Int)
  | logout (ip : Str) (publicPort : Int)
  | transaction (snd rcv : Str) (pay : ℚ)

namespace Call

def prog : Call → Prog Client Status
  | register username ip => userRegister username ip
  | login username ip publicPort privatePort => userLogin username ip publicPort privatePort
  | logout ip publicPort => userLogout ip publicPort
  | transaction snd rcv pay => userTransaction snd rcv pay

def status (t : Table) (c : Call) : Status := (c.prog.run t).1

/-- One call after another: the system whose runs are the sequences of calls. -/
def exec (t : Table) (c : Call) : Option Table := some (c.prog.run t).2

/-- **What a call running alone returns and leaves**: a failure code (from 200 on) and the table
as it was, or the change that its success stands for. -/
theorem outcome (t : Table) (c : Call) :
    (200 ≤ (c.status t).code ∧ (c.prog.run t).2 = t) ∨
    (∃ u ip, c = register u ip ∧ t.find? u = none ∧ c.status t = .registerOk ∧
      (c.prog.run t).2 = t.replace (newUser u)) ∨
    (∃ u ip pub priv user, c = login u ip pub priv ∧ t.find? u = some user ∧
      user.online = false ∧ c.status t = .loginSuccess ∧
      (c.prog.run t).2 = t.update (user.login ip pub priv)) ∨
    (∃ ip pub user, c = logout ip pub ∧ t.getAll (Client.onlineAt ip pub) = [user] ∧
      c.status t = .logoutSuccess ∧ (c.prog.run t).2 = t.update user.logout) ∨
    (∃ snd rcv pay s r, c = transaction snd rcv pay ∧ Transfers t snd rcv pay s r ∧
      c.status t = .transferOk ∧
      (c.prog.run t).2 = (t.update (s.debit pay)).update (r.credit pay)) := by
  unfold status
  cases c with
  | register u ip =>
    simp only [prog, userRegister_run]
    cases hu : t.find? u with
    | some user => exact .inl ⟨by simp [Status.code], rfl⟩
    | none => exact .inr (.inl ⟨u, ip, rfl, hu, rfl, rfl⟩)
  | login u ip pub priv =>
    simp only [prog, userLogin_run]
    cases hu : t.find? u with
    | none => exact .inl ⟨by simp [Status.code], rfl⟩
    | some user =>
      cases ho : user.online with
      | true => exact .inl ⟨by simp [ho, Status.code], by simp [ho]⟩
      | false =>
        exact .inr (.inr (.inl ⟨u, ip, pub, priv, user, rfl, hu, ho, by simp [ho], by simp [ho]⟩))
  | logout ip pub =>
    simp only [prog]
    rcases userLogout_run t ip pub with ⟨user, hu, hrun⟩ | ⟨-, hrun⟩
    · rw [hrun]
      exact .inr (.inr (.inr (.inl ⟨ip, pub, user, rfl, hu, rfl, rfl⟩)))
    · rw [hrun]
      exact .inl ⟨by simp [Status.code], rfl⟩
  | transaction snd rcv pay =>
    simp only [prog]
    rcases userTransaction_cases t snd rcv pay with ⟨-, hrun⟩ | ⟨-, -, hrun⟩ |
      ⟨s, -, -, -, -, -, -, hrun⟩ | ⟨s, r, h, hrun⟩
    · rw [hrun]
      exact .inl ⟨by simp [Status.code], rfl⟩
    · rw [hrun]
      exact .inl ⟨by simp [Status.code], rfl⟩
    · rw [hrun]
      exact .inl ⟨by simp [Status.code], rfl⟩
    · rw [hrun]
      exact .inr (.inr (.inr (.inr ⟨snd, rcv, pay, s, r, rfl, h, rfl, rfl⟩)))

/-- What a call can do to the table: nothing, or one of four changes. -/
theorem run_cases {t t' : Table} {c : Call} (h : exec t c = some t') :
    (t' = t ∧ c.status t ≠ .transferOk) ∨
    (∃ u ip, c = register u ip ∧ t.find? u = none ∧ t' = t.replace (newUser u)) ∨
    (∃ u ip pub priv user, c = login u ip pub priv ∧ t.find? u = some user ∧
      user.online = false ∧ t' = t.update (user.login ip pub priv)) ∨
    (∃ ip pub user, c = logout ip pub ∧ t.getAll (Client.onlineAt ip pub) = [user] ∧
      t' = t.update user.logout) ∨
    (∃ snd rcv pay s r, c = transaction snd rcv pay ∧ Transfers t snd rcv pay s r ∧
      t' = (t.update (s.debit pay)).update (r.credit pay)) := by
  simp only [exec, Option.some.injEq] at h
  subst h
  rcases outcome t c with ⟨hcode, hrun⟩ | ⟨u, ip, hc, hu, -, hrun⟩ |
    ⟨u, ip, pub, priv, user, hc, hu, ho, -, hrun⟩ | ⟨ip, pub, user, hc, hu, -, hrun⟩ |
    ⟨snd, rcv, pay, s, r, hc, ht, -, hrun⟩
  · exact .inl ⟨hrun, fun hst => by rw [hst] at hcode; simp [Status.code] at hcode⟩
  · exact .inr (.inl ⟨u, ip, hc, hu, hrun⟩)
  · exact .inr (.inr (.inl ⟨u, ip, pub, priv, user, hc, hu, ho, hrun⟩))
  · exact .inr (.inr (.inr (.inl ⟨ip, pub, user, hc, hu, hrun⟩)))
  · exact .inr (.inr (.inr (.inr ⟨snd, rcv, pay, s, r, hc, ht, hrun⟩)))

/-- The rows that a call can write, having read the rows `seen`. -/
inductive Writes (seen : List Client) : Call → Client → Prop
  | register (u ip : Str) : Writes seen (register u ip) (newUser u)
  | login {user : Client} (u ip : Str) (publicPort privatePort : Int) : user ∈ seen →
      Writes seen (login u ip publicPort privatePort) (user.login ip publicPort privatePort)
  | logout {user : Client} (ip : Str) (publicPort : Int) : user ∈ seen →
      Writes seen (logout ip publicPort) user.logout
  | debit {sender : Client} (snd rcv : Str) (pay : ℚ) : sender ∈ seen →
      Writes seen (transaction snd rcv pay) (sender.debit pay)
  | credit {receiver : Client} (snd rcv : Str) (pay : ℚ) : receiver ∈ seen →
      Writes seen (transaction snd rcv pay) (receiver.credit pay)

/-- **What a call writes**, among any other calls: copies of rows it has read with the columns set
that it is for, or a new user's row. -/
theorem obeys_writes (x : Call) : x.prog.Obeys (fun seen w => Writes seen x w) [] := by
  cases x with
  | register u ip =>
    intro l hl
    dsimp only
    split
    · trivial
    · exact ⟨.register u ip, trivial⟩
  | login u ip pub priv =>
    intro l hl
    cases l with
    | nil => trivial
    | cons user l =>
      intro l' hl'
      dsimp only
      split
      · trivial
      · exact ⟨.login u ip pub priv (by simp), trivial⟩
  | logout ip pub =>
    intro l hl
    rcases l with _ | ⟨user, _ | ⟨user', l⟩⟩
    · trivial
    · exact ⟨.logout ip pub (by simp), trivial⟩
    · trivial
  | transaction snd rcv pay =>
    simp only [Call.prog, userTransaction]
    split
    · split <;> trivial
    intro ss hss rr hrr
    rcases ss with _ | ⟨s, _ | ⟨s', ss⟩⟩
    · trivial
    · rcases rr with _ | ⟨r, _ | ⟨r', rr⟩⟩
      · trivial
      · dsimp only
        split
        · trivial
        · exact ⟨.debit snd rcv pay (by simp), .credit snd rcv pay (by simp), trivial⟩
      · trivial
    · trivial

end Call

end Micropayment
