import Micropayment.Proof.Session
import Micropayment.Wire

/-!
# The size of replies

RSA-2048 with PKCS#1 padding takes 245 bytes, and `send_P3` exits on more. All replies but the
list are constants that fit; the list of a LIST or LOGIN has a line for each online user
(`length_listResponse`), so it fits exactly while the table is small enough (`ReplyFits`,
`reply_fits_iff`).
-/

set_option autoImplicit false

namespace Micropayment

/-- What a row adds to `user_list_info`: its line, if the user is online. -/
def lineSize (r : Client) : Nat :=
  if r.online then r.username.length + r.ip.length + (toStr r.privatePort).length + 3 else 0

def listSize (t : Table) : Nat := t.total lineSize

def onlineCount (t : Table) : Nat := t.total fun r => if r.online then 1 else 0

/-- The size of a list reply, from the balance, the number of users online and their lines. -/
def replySize (balance : Int) (online lines : Nat) : Nat :=
  (toStr balance).length + (toStr online).length + 2 + lines

/-- There is room for the reply: a LIST of a logged-in connection has the lines of the table, and
a successful LOGIN one line more. -/
def ReplyFits (s : Server) (c : Conn) (item : Cmd × List Str) : Prop :=
  match item.1 with
  | .list => ∀ user ∈ s.table.find? c.username, c.username ≠ [] →
      replySize user.balance (onlineCount s.table) (listSize s.table) ≤ 245
  | .login => ∀ privatePort ∈ (stoi (arg item.2 1)).toOption,
      ∀ user ∈ s.table.find? (arg item.2 0), user.online = false →
        replySize user.balance (onlineCount s.table + 1) (listSize s.table +
          ((arg item.2 0).length + c.clientip.length + (toStr privatePort).length + 3)) ≤ 245
  | _ => True

instance (s : Server) (c : Conn) (item : Cmd × List Str) : Decidable (ReplyFits s c item) := by
  unfold ReplyFits
  split <;> infer_instance

/-! ## The list -/

theorem length_flatMap_filter {α β : Type} (l : List α) (p : α → Bool) (f : α → List β) :
    ((l.filter p).flatMap f).length = (l.map fun r => if p r then (f r).length else 0).sum := by
  induction l with
  | nil => rfl
  | cons r l ih =>
    rw [List.map_cons, List.sum_cons, ← ih]
    cases hp : p r with
    | true => rw [List.filter_cons_of_pos hp, List.flatMap_cons, List.length_append, if_pos rfl]
    | false => rw [List.filter_cons_of_neg (by simp [hp]), if_neg (by simp), Nat.zero_add]

theorem userNum_eq (t : Table) : userNum t = onlineCount t := by
  have h := length_flatMap_filter t.rows Client.online fun r => [r]
  rw [List.flatMap_singleton'] at h
  unfold userNum list
  rw [if_pos rfl, Keyed.getAll, h]
  rfl

theorem length_userListInfo (t : Table) : (userListInfo t).length = listSize t := by
  unfold userListInfo list
  rw [if_pos rfl, Keyed.getAll, length_flatMap_filter]
  refine congrArg List.sum (List.map_congr_left fun r _ => ?_)
  unfold lineSize
  split
  · simp only [List.length_append, String.length_toList, (by decide : "#".length = 1),
      (by decide : "\n".length = 1)]
    omega
  · rfl

theorem length_listResponse (t : Table) (user : Client) :
    (listResponse t user).length = replySize user.balance (onlineCount t) (listSize t) := by
  unfold listResponse replySize
  rw [userNum_eq]
  simp only [List.length_append, length_userListInfo, String.length_toList,
    (by decide : "\n".length = 1)]
  omega

section
variable {t : Table} {u ip : Str} {publicPort privatePort : Int} {user : Client}

/-- A login takes a row from no line to one line. -/
theorem total_login (f : Client → Nat) (h : t.find? u = some user) (h0 : f user = 0) :
    (t.update (user.login ip publicPort privatePort)).total f =
      t.total f + f (user.login ip publicPort privatePort) := by
  have hk : t.find? (user.login ip publicPort privatePort).username = some user := by
    rw [Client.login_username, Keyed.find?_key h]
    exact h
  have := Keyed.total_update f hk
  omega

theorem length_login (h : t.find? u = some user) (ho : user.online = false) :
    (listResponse (t.update (user.login ip publicPort privatePort))
        (user.login ip publicPort privatePort)).length =
      replySize user.balance (onlineCount t + 1)
        (listSize t + (u.length + ip.length + (toStr privatePort).length + 3)) := by
  have hu : user.username = u := Keyed.find?_key h
  rw [length_listResponse, onlineCount, listSize, total_login _ h (by simp [ho]),
    total_login _ h (by simp [lineSize, ho]), ← hu]
  rfl

end

/-! ## All replies -/

theorem length_transferResponse (st : Status) : (Server.transferResponse st).length ≤ 245 := by
  cases st <;> decide

/-- `send_P3` can send the reply, if the branch gets as far as that. -/
def Sends (o : Outcome) : Prop :=
  ∀ fd response, o = .sent fd response →
    response.length ≤ 245 ∧ ∀ (rsa : Rsa) seed, sendP3 (rsa.encrypt seed) response ≠ none

theorem sends_sent (fd : Nat) (response : Str) :
    Sends (.sent fd response) ↔ response.length ≤ 245 := by
  refine ⟨fun h => (h fd response rfl).1, fun h fd' response' he => ?_⟩
  cases he
  refine ⟨h, fun rsa seed => ?_⟩
  obtain ⟨block, hb⟩ := Option.isSome_iff_exists.1 ((rsa.encrypt_isSome seed response).2 h)
  simp [sendP3, hb]

theorem sends_other {o : Outcome} (h : ∀ fd response, o ≠ .sent fd response) : Sends o :=
  fun fd response he => absurd he (h fd response)

section
variable {s : Server} {c : Conn}

theorem listCase_sends (h : Sessions s) (hc : c ∈ s.conns.rows) :
    Sends (s.listCase c).outcome ↔ ReplyFits s c (.list, ["List".toList]) := by
  unfold Server.listCase ReplyFits
  dsimp only
  by_cases hu : c.username = []
  · rw [if_pos (.inr hu), sends_sent]
    exact ⟨fun _ _ _ hne => absurd hu hne, fun _ => by decide⟩
  · obtain ⟨r, hr, ho, -⟩ := h.backed c hc hu
    have hlist : ¬ (list s.table true).length = 0 := by
      intro h0
      have hm : r ∈ list s.table true := Keyed.mem_getAll.2 ⟨Keyed.find?_mem hr, ho⟩
      rw [List.length_eq_zero_iff.1 h0] at hm
      cases hm
    rw [if_neg (not_or.2 ⟨hlist, hu⟩), userInfo_eq, hr]
    dsimp only
    rw [sends_sent, length_listResponse]
    simp [hu]

theorem loginCase_sends {u p : Str} :
    Sends (s.loginCase c [u, p]).outcome ↔ ReplyFits s c (.login, [u, p]) := by
  unfold ReplyFits
  simp only [arg, List.getD_cons_zero, List.getD_cons_succ]
  cases hp : stoi p with
  | error e =>
    rw [Server.loginCase_throws hp]
    simp [sends_other, Except.toOption]
  | ok privatePort =>
    rw [Server.loginCase_eq hp]
    cases hu : s.table.find? u with
    | none =>
      dsimp only
      rw [sends_sent]
      exact ⟨fun _ _ _ _ hm => by simp at hm, fun _ => by decide⟩
    | some user =>
      dsimp only
      cases ho : user.online with
      | true =>
        simp only [if_true]
        rw [sends_sent]
        refine ⟨fun _ _ _ user' hm hoff => ?_, fun _ => by decide⟩
        obtain rfl : user = user' := by simpa using hm
        rw [ho] at hoff
        cases hoff
      | false =>
        simp only [Bool.false_eq_true, if_false, Server.loggedIn]
        rw [sends_sent, length_login hu ho]
        simp [Except.toOption, ho]

theorem registerCase_sends {args : List Str} : Sends (s.registerCase c args).outcome := by
  have hlength : ∀ st : Status, (if st = .registerOk then toStr st.code ++ " OK\n".toList
      else toStr st.code ++ " FAIL\n".toList).length ≤ 245 := by
    intro st
    cases st <;> decide
  exact (sends_sent _ _).2 (hlength _)

theorem transactionCase_sends {snd n rcv : Str} :
    Sends (s.transactionCase c [snd, n, rcv]).outcome := by
  cases hn : stod n with
  | error e =>
    rw [Server.transactionCase_throws hn]
    exact sends_other (by simp)
  | ok pay =>
    rw [Server.transactionCase_eq hn]
    cases (s.table.find? snd).bind s.senderFd with
    | none => exact sends_other (by simp)
    | some fd => exact (sends_sent _ _).2 (length_transferResponse _)

end

theorem sends_iff {s : Server} {c : Conn} (hs : Sessions s) (hc : c ∈ s.conns.rows) (raw : Str) :
    Sends (s.handle c raw).outcome ↔ ReplyFits s c (parseCommand raw) := by
  obtain ⟨-, hcases⟩ := parseCommand_cases raw
  unfold Server.handle
  rcases hcases with hp | hp | ⟨u, hp⟩ | ⟨u, p, hp, -⟩ | ⟨u, n, v, hp, -⟩ | ⟨args, hp⟩
  all_goals rw [hp]; dsimp only
  · exact iff_of_true ((sends_sent _ _).2 (by decide)) trivial
  · exact listCase_sends hs hc
  · exact iff_of_true registerCase_sends trivial
  · exact loginCase_sends
  · exact iff_of_true transactionCase_sends trivial
  · exact iff_of_true ((sends_sent _ _).2 (by decide)) trivial

/-- **A reply fits the cipher block**, in every reachable state, exactly when there is room for
the list it has to carry. -/
theorem reply_fits_iff {t : Table} {actions : List Action} {s : Server} {c : Conn}
    (h : Run Server.step Any (Server.init t) actions s) (hc : c ∈ s.conns.rows) (raw : Str) :
    Sends (s.handle c raw).outcome ↔ ReplyFits s c (parseCommand raw) :=
  sends_iff (Sessions.run h) hc raw

/-- A name of 230 characters fits into a REGISTER and a LOGIN message. -/
def longName : Str := List.replicate 230 'a'

def longNameRegistered : List Action :=
  [.accept "127.0.0.1".toList 1, .message 0 ("REGISTER#".toList ++ longName) true]

/-- The LOGIN of the user, whose reply would list it. -/
theorem reply_fits_iff_longName :
    ∃ s c, Run Server.step Any (Server.init Keyed.empty) longNameRegistered s ∧ c ∈ s.conns.rows ∧
      (Sends (s.handle c (longName ++ "#1".toList)).outcome ↔
        ReplyFits s c (parseCommand (longName ++ "#1".toList))) ∧
      ¬ReplyFits s c (parseCommand (longName ++ "#1".toList)) := by
  have hrun : (runAll Server.step (Server.init Keyed.empty) longNameRegistered).map
      (fun s => (s.conns.rows, decide (ReplyFits s ⟨0, "127.0.0.1".toList, 1, []⟩
        (parseCommand (longName ++ "#1".toList))))) =
        some ([⟨0, "127.0.0.1".toList, 1, []⟩], false) := by decide +kernel
  obtain ⟨s, hs, hout⟩ := Option.map_eq_some_iff.1 hrun
  obtain ⟨hconns, hfits⟩ := Prod.mk.inj hout
  have hc : (⟨0, "127.0.0.1".toList, 1, []⟩ : Conn) ∈ s.conns.rows := by
    rw [hconns]
    exact List.mem_singleton_self _
  exact ⟨s, _, Run.of_runAll hs, hc, reply_fits_iff (Run.of_runAll hs) hc _,
    of_decide_eq_false hfits⟩

def replyLength : Outcome → Option Nat
  | .sent _ response => some response.length
  | _ => none

theorem not_sends_of_length {o : Outcome} {n : Nat} (h : replyLength o = some n) (hn : 245 < n) :
    ¬ Sends o := by
  cases o with
  | sent fd response =>
    obtain rfl : response.length = n := Option.some.inj h
    rw [sends_sent]
    omega
  | throws | undefined => cases h

/-- The reply to the user's LOGIN, a message of 232 bytes, is 251 bytes long. -/
theorem longName_reply :
    ("REGISTER#".toList ++ longName).length ≤ 245 ∧ (longName ++ "#1".toList).length ≤ 245 ∧
    ∃ s c, Run Server.step Any (Server.init Keyed.empty) longNameRegistered s ∧ c ∈ s.conns.rows ∧
      ¬ Sends (s.handle c (longName ++ "#1".toList)).outcome := by
  have hrun : (runAll Server.step (Server.init Keyed.empty) longNameRegistered).map
      (fun s => (s.conns.rows,
        replyLength (s.handle ⟨0, "127.0.0.1".toList, 1, []⟩ (longName ++ "#1".toList)).outcome)) =
        some ([⟨0, "127.0.0.1".toList, 1, []⟩], some 251) := by decide +kernel
  obtain ⟨s, hs, hout⟩ := Option.map_eq_some_iff.1 hrun
  obtain ⟨hconns, hlength⟩ := Prod.mk.inj hout
  refine ⟨by decide +kernel, by decide +kernel, s, ⟨0, "127.0.0.1".toList, 1, []⟩,
    Run.of_runAll hs, ?_, not_sends_of_length hlength (by decide)⟩
  rw [hconns]
  exact List.mem_singleton_self _

end Micropayment
