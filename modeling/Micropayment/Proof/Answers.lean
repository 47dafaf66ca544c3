import Micropayment.World
import Micropayment.Proof.Authorise
import Micropayment.Proof.ListInfo

/-!
# The server's answers to honest clients

What an iteration does with each message that a menu-driven client sends: it is answered on that
client's connection (a transfer on its payer's, wherever it comes in), and only a LOGIN and an Exit
change what the connection is logged in as. The texts of the replies to LOGIN and List say whether
it is (`IsReply`), which the client goes by.
-/

set_option autoImplicit false

namespace Micropayment

/-- A request of the client `u`, sent while its connection is logged in as `session`. -/
inductive IsRequest (u : Str) (session : Option Str) : Request → Str → Prop
  | register (name : Str) : (parseCommand ("REGISTER#".toList ++ name)).1 ≠ .transaction →
      IsRequest u session .register ("REGISTER#".toList ++ name)
  | login {port : Int} : -2 ^ 31 ≤ port → port < 2 ^ 31 → session = some [] →
      IsRequest u session .login (u ++ "#".toList ++ toStr port)
  | list (pay : Bool) : IsRequest u session (.list pay) "List".toList
  | exit : IsRequest u session .exit "Exit".toList

/-- A message of `p2p_transaction` of the client `u`. -/
def IsTransfer (u text : Str) : Prop := ∃ x : P2pCall, x.Valid ∧ text = transactMsg u x.1 x.2

/-- A reply to the client `u`, with its connection logged in as `session`. -/
def IsReply (u : Str) (session : Option Str) : Request → Str → Prop
  | .login, text => 2 < (split text "\n".toList).length ↔ session = some u
  | .list _, text => cStr text ≠ "Please login first\n".toList → session = some u
  | _, _ => True

/-- All texts of the server are C strings. -/
structure Clean (s : Server) : Prop where
  rows : ∀ r ∈ s.table.rows, '\x00' ∉ r.username ∧ '\x00' ∉ r.ip
  conns : ∀ c ∈ s.conns.rows, '\x00' ∉ c.clientip

/-- The answer to the message `text` on the connection `c`: it goes to `fd`. -/
structure Answer (s : Server) (c : Conn) (text : Str) (fd : Nat) (response : Str) : Prop where
  ne : cStr text ≠ []
  sent : (s.handle c (cStr text)).outcome = .sent fd response
  keeps : ∀ resume, s.KeepsSession (.message c.id text resume)

section
variable {s s' : Server} {c : Conn} {u : Str}

theorem Clean.init {t : Table} (h : ∀ r ∈ t.rows, '\x00' ∉ r.username ∧ '\x00' ∉ r.ip) :
    Clean (Server.init t) := ⟨h, fun _ hc => absurd hc List.not_mem_nil⟩

theorem Clean.disconnect (h : Clean s) : Clean (s.disconnect c) := by
  refine ⟨fun r hr => ?_, fun x hx => h.conns x (Keyed.mem_erase.1 hx).1⟩
  have hr : r ∈ ((userLogout c.clientip c.clientport).run s.table).2.rows := hr
  rcases userLogout_run s.table c.clientip c.clientport with ⟨user, hu, hrun⟩ | ⟨-, hrun⟩
  · rw [hrun] at hr
    rcases Keyed.mem_update hr with rfl | ⟨hr, -⟩
    · have hm := (OnlineAt.mem_onlineAt.1 (hu ▸ List.mem_singleton_self user)).1
      exact ⟨(h.rows user hm).1, List.not_mem_nil⟩
    · exact h.rows r hr
  · rw [hrun] at hr
    exact h.rows r hr

theorem Clean.after (h : Clean s) (hc : c ∈ s.conns.rows) {item : Cmd × List Str} {hd : Handled}
    (he : s.Effect c item hd) (live : Bool) : Clean (s.after c hd live) := by
  refine ⟨fun r hr => ?_, fun x hx => ?_⟩
  · rcases he.mem_rows hr with ⟨r₀, hr₀, hu, hsame⟩ | ⟨u, hu, rfl⟩ | ⟨-, -, r₀, hr₀, port, rfl⟩
    · have hip : r₀.ip = r.ip := congrArg Prod.fst hsame
      rw [← hu, ← hip]
      exact h.rows r₀ hr₀
    · exact ⟨hu.nul, List.not_mem_nil⟩
    · exact ⟨(h.rows r₀ hr₀).1, h.conns c hc⟩
  · rcases Sessions.mem_after hx with ⟨hx, -⟩ | rfl
    · exact h.conns x hx
    · exact h.conns c hc

/-- Names come from tokens and addresses from connections, so the texts stay C strings. -/
theorem Clean.step (h : Clean s) {a : Action}
    (ha : ∀ ip port, a = .accept ip port → '\x00' ∉ ip) (hs : s.step a = some s') : Clean s' := by
  rcases Server.step_cases hs with ⟨ip, port, rfl, -, rfl⟩ | ⟨c, -, -, rfl⟩ |
    ⟨c, hc, buffer, resume, -, -, -, he, rfl⟩
  · refine ⟨h.rows, fun x hx => ?_⟩
    rcases Keyed.mem_replace.1 hx with rfl | ⟨hx, -⟩
    · exact ha ip port rfl
    · exact h.conns x hx
  · exact h.disconnect
  · exact h.after hc he _

/-! ## REGISTER -/

/-- With a name that makes it no TRANSACTION, the message is a REGISTER or no command. -/
theorem parseCommand_register {name : Str}
    (h : (parseCommand ("REGISTER#".toList ++ name)).1 ≠ .transaction) :
    (parseCommand ("REGISTER#".toList ++ name)).1 = .register ∨
      (parseCommand ("REGISTER#".toList ++ name)).1 = .err := by
  have hr : IsArg "REGISTER".toList := ⟨by simp, by simp, by simp⟩
  have hsplit : split ("REGISTER#".toList ++ name) "#".toList =
      "REGISTER".toList :: split name "#".toList :=
    hr.split_first name (c := '#') (by simp) (by decide)
  obtain ⟨-, hcases⟩ := parseCommand_cases ("REGISTER#".toList ++ name)
  have hargs : (parseCommand ("REGISTER#".toList ++ name)).2 =
      "REGISTER".toList :: split name "#".toList := hsplit
  rcases hcases with hp | hp | ⟨v, hp⟩ | ⟨v, p, hp, -⟩ | ⟨v, n, w, hp, -⟩ | ⟨args, hp⟩
  all_goals rw [hp] at h hargs ⊢
  · exact absurd (List.cons.inj hargs).1 (by decide)
  · exact absurd (List.cons.inj hargs).1 (by decide)
  · exact .inl rfl
  · -- a LOGIN of `REGISTER` is a REGISTER
    have hcmd : cmdType (parseCommand ("REGISTER#".toList ++ name)).2 = .login :=
      congrArg Prod.fst hp
    rw [hp, cmdType_two, if_pos (List.cons.inj hargs).1] at hcmd
    cases hcmd
  · exact absurd rfl h
  · exact .inr rfl

/-- Only the request to leave is an Exit for the server. -/
theorem IsRequest.exit_iff {session : Option Str} {r : Request} {text : Str} (hu : IsArg u)
    (hr : u ≠ "REGISTER".toList) (h : IsRequest u session r text) :
    (parseCommand (cStr text)).1 = .exit ↔ r = .exit := by
  rw [parseCommand_cStr]
  cases h with
  | register name hcmd =>
    rcases parseCommand_register hcmd with hp | hp
    · rw [hp]
      simp
    · rw [hp]
      simp
  | @login port h1 h2 hout =>
    rw [parseCommand_two hu (isArg_toStr port), cmdType_two, if_neg hr]
    split <;> simp
  | list pay =>
    have hp : (parseCommand "List".toList).1 = .list := by decide +kernel
    rw [hp]
    simp
  | exit =>
    have hp : (parseCommand "Exit".toList).1 = .exit := by decide +kernel
    rw [hp]
    exact ⟨fun _ => rfl, fun _ => rfl⟩

theorem IsRequest.loggedOut {session : Option Str} {text : Str}
    (h : IsRequest u session .login text) : session = some [] := by
  cases h with
  | login _ _ hout => exact hout

theorem Server.keepsSession_of {raw : Str} {cmd : Cmd} (h : (parseCommand (cStr raw)).1 = cmd)
    (h1 : cmd ≠ .login) (h2 : cmd ≠ .transaction) (id : Nat) (resume : Bool) :
    s.KeepsSession (.message id raw resume) := by
  intro c hc hu
  simp [Server.loginSucceeds, Server.unanswerable, Server.throws, h, h1, h2]

theorem answer_register {name : Str}
    (h : (parseCommand ("REGISTER#".toList ++ name)).1 ≠ .transaction) :
    ∃ response, Answer s c ("REGISTER#".toList ++ name) c.id response ∧
      (s.handle c (cStr ("REGISTER#".toList ++ name))).username = c.username := by
  have hne : cStr ("REGISTER#".toList ++ name) ≠ [] := by
    simp [cStr]
  have hcmd := parseCommand_register h
  rw [← parseCommand_cStr] at hcmd
  rcases hcmd with hcmd | hcmd
  · have hhandle : s.handle c (cStr ("REGISTER#".toList ++ name)) =
        s.registerCase c (parseCommand (cStr ("REGISTER#".toList ++ name))).2 := by
      simp only [Server.handle, hcmd]
    refine ⟨_, ⟨hne, by rw [hhandle]; rfl, fun resume => ?_⟩, by rw [hhandle]; rfl⟩
    exact Server.keepsSession_of hcmd (by decide) (by decide) _ _
  · have hhandle := Server.handle_err (s := s) (c := c) hcmd
    refine ⟨_, ⟨hne, by rw [hhandle], fun resume => ?_⟩, by rw [hhandle]⟩
    exact Server.keepsSession_of hcmd (by decide) (by decide) _ _

/-! ## LOGIN -/

/-- A list that is not empty has a third line. -/
theorem lines_listResponse {t : Table} (h : ∀ r ∈ t.rows, '\x00' ∉ r.username ∧ '\x00' ∉ r.ip)
    {r : Client} (hr : r ∈ list t true) (user : Client) :
    2 < (split (listResponse t user) "\n".toList).length := by
  have hhash : '#' ∈ userListInfo t := by
    rw [userListInfo_eq]
    refine List.mem_flatMap.2 ⟨r, hr, ?_⟩
    simp [listLine]
  have hnul : '\x00' ∉ userListInfo t := by
    rw [userListInfo_eq]
    intro h0
    obtain ⟨x, hx, h0⟩ := List.mem_flatMap.1 h0
    obtain ⟨hu, hip⟩ := h x (mem_list.1 hx).1
    have hport : '\x00' ∉ toStr x.privatePort := by
      intro hm
      rcases mem_toStr hm with hm | hm
      · exact absurd hm (by decide)
      · exact absurd hm (by decide)
    simp [listLine, hu, hip, hport] at h0
  have hne := split_ne_nil hnul hhash (by simp : '#' ∉ "\n".toList)
  unfold listResponse
  rw [List.append_assoc, split_number_line, split_number_line]
  have := List.length_pos_iff.2 hne
  simp only [List.length_cons]
  omega

/-- The reply to a LOGIN has three lines or more exactly if it succeeds. -/
theorem loginCase_answer (hcl : Clean s) (hc : c ∈ s.conns.rows) {p : Str} {port : Int}
    (hp : stoi p = .ok port) :
    ∃ response, (s.loginCase c [u, p]).outcome = .sent c.id response ∧
      (((s.loginCase c [u, p]).username = c.username ∧
          (split response "\n".toList).length ≤ 2 ∧
          s.dbStatus c (.login, [u, p]) ≠ some .loginSuccess) ∨
        ((s.loginCase c [u, p]).username = u ∧ 2 < (split response "\n".toList).length ∧
          s.dbStatus c (.login, [u, p]) = some .loginSuccess)) := by
  rw [Server.dbStatus_login hp, userLogin_run, Server.loginCase_eq hp]
  cases hf : s.table.find? u with
  | none =>
    refine ⟨toStr Status.loginAuthFail.code ++ " AUTH_FAIL\n".toList, rfl,
      .inl ⟨rfl, ?_, by simp⟩⟩
    decide +kernel
  | some user =>
    dsimp only
    by_cases ho : user.online = true
    · rw [if_pos ho, if_pos ho]
      refine ⟨toStr Status.loginExist.code ++ " DUPLICATE_LOGIN\n".toList, rfl,
        .inl ⟨rfl, ?_, by simp⟩⟩
      decide +kernel
    · rw [if_neg ho, if_neg ho]
      have hrow : user.login c.clientip c.clientport port ∈
          list (s.table.update (user.login c.clientip c.clientport port)) true :=
        mem_list.2 ⟨Keyed.mem_update_self (Keyed.find?_mem hf) rfl, rfl⟩
      refine ⟨_, rfl, .inr ⟨rfl, lines_listResponse (fun r hm => ?_) hrow _, rfl⟩⟩
      rcases Keyed.mem_update hm with rfl | ⟨hm, -⟩
      · exact ⟨(hcl.rows user (Keyed.find?_mem hf)).1, hcl.conns c hc⟩
      · exact hcl.rows r hm

/-- Without a name the port is the only token, and the message no command. -/
theorem parseCommand_unnamed (port : Int) :
    parseCommand ("#".toList ++ toStr port) = (.err, [toStr port]) := by
  have hport := isArg_toStr port
  have hsplit : split ("#".toList ++ toStr port) "#".toList = [toStr port] := by
    rw [← hport.split_last, split_eq_fields, split_eq_fields, cStr_eq, cStr_eq]
    · exact fields_cons_sep (toStr port) (by decide)
    · exact hport.nul
    · simp [hport.nul]
  have hdigits : ∀ {word : Str} {c : Char}, c ∈ word → c ≠ '-' → c.isDigit = false →
      toStr port ≠ word := by
    rintro _ c hc h1 h2 rfl
    rcases mem_toStr hc with h | h
    · exact h1 h
    · rw [h] at h2
      cases h2
  rw [parseCommand, hsplit, cmdType_one,
    if_neg (hdigits (c := 'E') (by simp) (by decide) (by decide)),
    if_neg (hdigits (c := 'L') (by simp) (by decide) (by decide))]

theorem cStr_login (hu : u = [] ∨ IsArg u) (port : Int) :
    cStr (u ++ "#".toList ++ toStr port) = u ++ "#".toList ++ toStr port := by
  have hnul : '\x00' ∉ u := by
    rcases hu with rfl | hu
    · simp
    · exact hu.nul
  apply cStr_eq
  simp [hnul, (isArg_toStr port).nul]

/-- The LOGIN `text` under the name `u` is answered with `response`: in more than two lines if and
only if `user_login` accepts it, and only then the connection is logged in under the name. -/
structure LoginAnswer (s : Server) (c : Conn) (u text response : Str) : Prop where
  sent : (s.handle c text).outcome = .sent c.id response
  status : 2 < (split response "\n".toList).length ↔
    s.dbStatus c (parseCommand text) = some .loginSuccess
  accepted : 2 < (split response "\n".toList).length → (s.handle c text).username = u
  refused : (split response "\n".toList).length ≤ 2 → (s.handle c text).username = c.username

theorem LoginAnswer.of_refused {text response : Str}
    (hsent : (s.handle c text).outcome = .sent c.id response)
    (hlines : (split response "\n".toList).length ≤ 2)
    (hst : s.dbStatus c (parseCommand text) ≠ some .loginSuccess)
    (hsame : (s.handle c text).username = c.username) : LoginAnswer s c u text response :=
  ⟨hsent, iff_of_false (by omega) hst, fun _ => by omega, fun _ => hsame⟩

theorem loginAnswer_err {text : Str} (hp : (parseCommand text).1 = .err) :
    LoginAnswer s c u text (toStr Server.queryError) := by
  apply LoginAnswer.of_refused
  · rw [Server.handle_err hp]
  · decide +kernel
  · simp [Server.dbStatus, hp]
  · rw [Server.handle_err hp]

/-- A LOGIN under the name `REGISTER` registers the port. -/
theorem loginAnswer_register {text p : Str}
    (hp : parseCommand text = (.register, ["REGISTER".toList, p])) :
    ∃ response, LoginAnswer s c u text response := by
  have hhandle := Server.handle_register (s := s) (c := c) hp
  have hst : s.dbStatus c (parseCommand text) =
      some ((userRegister p c.clientip).run s.table).1 := by
    rw [hp]
    rfl
  refine ⟨_, .of_refused (congrArg Handled.outcome hhandle) ?_ ?_ (by rw [hhandle]; rfl)⟩
  · simp only [arg, List.getD_cons_succ, List.getD_cons_zero, userRegister_run]
    split
    · show (split (toStr Status.registerFail.code ++ " FAIL\n".toList) "\n".toList).length ≤ 2
      decide +kernel
    · show (split (toStr Status.registerOk.code ++ " OK\n".toList) "\n".toList).length ≤ 2
      decide +kernel
  · rw [hst, userRegister_run]
    split
    · simp
    · simp

/-- **Every LOGIN is answered**, whatever the name, which may make another command of it. -/
theorem exists_loginAnswer (hcl : Clean s) (hc : c ∈ s.conns.rows) (hu : u = [] ∨ IsArg u)
    {port : Int} (h1 : -2 ^ 31 ≤ port) (h2 : port < 2 ^ 31) :
    ∃ response, LoginAnswer s c u (u ++ "#".toList ++ toStr port) response := by
  rcases hu with rfl | hu
  · exact ⟨_, loginAnswer_err (congrArg Prod.fst (parseCommand_unnamed port))⟩
  have hp := parseCommand_two hu (isArg_toStr port)
  rw [cmdType_two] at hp
  split at hp
  · rename_i hr
    subst hr
    exact loginAnswer_register hp
  split at hp
  · obtain ⟨response, hsent, hcases⟩ := loginCase_answer hcl hc (u := u) (stoi_toStr h1 h2)
    rw [← Server.handle_login hp] at hsent hcases
    rw [← hp] at hcases
    refine ⟨response, ?_⟩
    rcases hcases with ⟨hsame, hlines, hst⟩ | ⟨hin, hlines, hst⟩
    · exact .of_refused hsent hlines hst hsame
    · exact ⟨hsent, iff_of_true hlines hst, fun _ => hin, fun _ => by omega⟩
  · exact ⟨_, loginAnswer_err (congrArg Prod.fst hp)⟩

theorem answer_login (hcl : Clean s) (hc : c ∈ s.conns.rows) (hu : IsArg u)
    (hout : c.username = []) {port : Int} (h1 : -2 ^ 31 ≤ port) (h2 : port < 2 ^ 31) :
    ∃ response, Answer s c (u ++ "#".toList ++ toStr port) c.id response ∧
      (((s.handle c (cStr (u ++ "#".toList ++ toStr port))).username = [] ∧
          (split response "\n".toList).length ≤ 2) ∨
        ((s.handle c (cStr (u ++ "#".toList ++ toStr port))).username = u ∧
          2 < (split response "\n".toList).length)) := by
  obtain ⟨response, hans⟩ := exists_loginAnswer hcl hc (.inr hu) h1 h2
  have htext := cStr_login (.inr hu) port
  refine ⟨response, ⟨?_, ?_, fun resume c' hc' hu' => ?_⟩, ?_⟩
  · rw [htext]
    simp
  · rw [htext]
    exact hans.sent
  · rw [Keyed.find?_of_mem hc] at hc'
    cases hc'
    exact absurd hout hu'
  · rw [htext]
    by_cases hlines : 2 < (split response "\n".toList).length
    · exact .inr ⟨hans.accepted hlines, hlines⟩
    · have hlines : (split response "\n".toList).length ≤ 2 := by omega
      exact .inl ⟨(hans.refused hlines).trans hout, hlines⟩

/-! ## List and Exit -/

theorem answer_list (hs : Sessions s) (hc : c ∈ s.conns.rows) :
    ∃ response, Answer s c "List".toList c.id response ∧
      (s.handle c (cStr "List".toList)).username = c.username ∧
      (c.username = [] → response = "Please login first\n".toList) := by
  have hp : parseCommand (cStr "List".toList) = (.list, ["List".toList]) := by decide +kernel
  have hhandle := Server.handle_list (s := s) (c := c) (congrArg Prod.fst hp)
  obtain ⟨response, hsent⟩ := hs.listCase_sent hc
  refine ⟨response, ⟨by decide +kernel, hhandle ▸ hsent, fun resume => ?_⟩,
    by rw [hhandle]; rfl, fun hout => ?_⟩
  · exact Server.keepsSession_of (congrArg Prod.fst hp) (by decide) (by decide) _ _
  · dsimp only [Server.listCase] at hsent
    rw [if_pos (.inr hout)] at hsent
    exact (Outcome.sent.inj hsent).2.symm

theorem answer_exit : Answer s c "Exit".toList c.id "Bye\n".toList ∧
    (s.handle c (cStr "Exit".toList)).username = c.username := by
  have hp : parseCommand (cStr "Exit".toList) = (.exit, ["Exit".toList]) := by decide +kernel
  have hhandle := Server.handle_exit (s := s) (c := c) (congrArg Prod.fst hp)
  refine ⟨⟨by decide +kernel, ?_, fun resume => ?_⟩, by rw [hhandle]; rfl⟩
  · rw [hhandle]
    rfl
  · exact Server.keepsSession_of (congrArg Prod.fst hp) (by decide) (by decide) _ _

/-! ## Transfers -/

theorem cStr_transactMsg (hu : IsArg u) {x : P2pCall} (hx : x.Valid) :
    cStr (transactMsg u x.1 x.2) = transactMsg u x.1 x.2 := by
  apply cStr_eq
  simp [transactMsg, hu.nul, (isArg_toStr x.1).nul, hx.receiver.nul]

theorem IsTransfer.parse {text : Str} (hu : IsArg u) (h : IsTransfer u text) :
    (parseCommand (cStr text)).1 = .transaction := by
  obtain ⟨x, hx, rfl⟩ := h
  rw [parseCommand_cStr, parseCommand_transactMsg hu hx]

theorem answer_transfer (he : Entries s) (hen : Entered s) {payer : Conn}
    (hp : payer ∈ s.conns.rows) (hu : IsArg payer.username) {x : P2pCall} (hx : x.Valid) :
    Answer s c (transactMsg payer.username x.1 x.2) payer.id (Server.transferResponse
      ((userTransaction payer.username x.2 (x.1 : ℤ)).run s.table).1) ∧
    (s.handle c (cStr (transactMsg payer.username x.1 x.2))).username = c.username := by
  have hparse := parseCommand_transactMsg hu hx
  have hstod := stod_toStr hx.lower hx.upper
  have hfd := senderFd_of he hen hp hu.ne
  have hhandle : s.handle c (transactMsg payer.username x.1 x.2) =
      ⟨((userTransaction payer.username x.2 (x.1 : ℤ)).run s.table).2, s.clientFds, c.username,
        .sent payer.id (Server.transferResponse
          ((userTransaction payer.username x.2 (x.1 : ℤ)).run s.table).1)⟩ := by
    simp only [Server.handle_transaction hparse, Server.transactionCase_eq hstod, hfd]
  have htext := cStr_transactMsg hu hx
  rw [htext]
  refine ⟨⟨?_, ?_, fun resume c' hc' hu' => ?_⟩, by rw [hhandle]⟩
  · rw [htext]
    simp [transactMsg]
  · rw [htext, hhandle]
  · rw [htext, hparse]
    simp [Server.loginSucceeds, Server.throws, Server.unanswerable, arg, hstod, hfd, Except.isOk,
      Except.toBool]

/-! ## Any request -/

/-- **The answer to a request** goes to the client's own connection. -/
theorem answer_request (he : Entries s) (hcl : Clean s) (hc : c ∈ s.conns.rows) (hu : IsArg u)
    (hr : u ≠ "REGISTER".toList) (hname : c.username = [] ∨ c.username = u) {r : Request}
    {text : Str} (h : IsRequest u (some c.username) r text) :
    ∃ response, Answer s c text c.id response ∧
      ((parseCommand (cStr text)).1 = .exit ↔ r = .exit) ∧
      (r ≠ .login → r ≠ .exit → (s.handle c (cStr text)).username = c.username) ∧
      ((s.handle c (cStr text)).username = [] ∨ (s.handle c (cStr text)).username = u) ∧
      (r ≠ .exit → IsReply u (some (s.handle c (cStr text)).username) r response) := by
  have hx := h.exit_iff hu hr
  cases h with
  | register name hcmd =>
    obtain ⟨response, hans, hsame⟩ := answer_register (s := s) (c := c) hcmd
    exact ⟨response, hans, hx, fun _ _ => hsame, hsame ▸ hname, fun _ => trivial⟩
  | @login port h1 h2 hout =>
    obtain ⟨response, hans, hcases⟩ := answer_login hcl hc hu (Option.some.inj hout) h1 h2
    refine ⟨response, hans, hx, fun hl => absurd rfl hl, hcases.imp And.left And.left,
      fun _ => ?_⟩
    rcases hcases with ⟨hout, hlen⟩ | ⟨hin, hlen⟩
    · rw [hout]
      exact ⟨fun hlt => absurd hlt (by omega), fun h => absurd (Option.some.inj h).symm hu.ne⟩
    · rw [hin]
      exact ⟨fun _ => rfl, fun _ => hlen⟩
  | list pay =>
    obtain ⟨response, hans, hsame, hout⟩ := answer_list he.sessions hc
    refine ⟨response, hans, hx, fun _ _ => hsame, hsame ▸ hname, fun _ hne => ?_⟩
    rw [hsame]
    rcases hname with hname | hname
    · rw [hout hname] at hne
      exact absurd (by decide +kernel) hne
    · rw [hname]
  | exit =>
    obtain ⟨hans, hsame⟩ := answer_exit (s := s) (c := c)
    exact ⟨_, hans, hx, fun _ hne => absurd rfl hne, hsame ▸ hname, fun hne => absurd rfl hne⟩

end

end Micropayment
