import Micropayment.Proof.Names
import Micropayment.Proof.Orphans

/-!
# The list at the client

`parse_list_info` takes apart what the LIST and LOGIN branches put together. `split_listLines` is
the client's tokens, `peerLoop_eq` what the loop over them does for any count; `list_decoded` is the
round trip, for any table whose online users fit the loop's `int` counter (`crowd_overflows` is one
with two users more).
-/

set_option autoImplicit false

namespace Micropayment

/-- An online row whose columns can be told apart in the list. -/
structure Listable (r : Client) : Prop where
  username : IsToken "#\n".toList r.username
  ip : IsToken "#\n".toList r.ip

/-- The entry of the peer list for a row. -/
def peerInfo (r : Client) : List Str := [r.username, r.ip, toStr r.privatePort]

/-- The line of the list for a row, without its end. -/
def lineText (r : Client) : Str :=
  r.username ++ "#".toList ++ r.ip ++ "#".toList ++ toStr r.privatePort

/-- The client has from the reply what the server has put in. -/
structure Decoded (t : Table) (u : Client) (reply : Str) : Prop where
  parse : parseListInfo reply =
    .ok ⟨u.balance, (list t true).length, (list t true).map peerInfo⟩
  found : ∀ r ∈ t.rows, r.online = true →
    findPeerInfo ((list t true).map peerInfo) r.username = some (peerInfo r)
  others : ∀ name, (∀ r ∈ t.rows, r.online = true → r.username ≠ name) →
    findPeerInfo ((list t true).map peerInfo) name = none

/-- The server answers `raw` with a list for `u`: `raw` is a LIST of `u`'s connection, or a LOGIN of
`u` that succeeds. -/
structure AnswersList (s : Server) (c : Conn) (raw : Str) (u : Client) (reply : Str) : Prop where
  sent : (s.handle c raw).outcome = .sent c.id reply
  user : (s.handle c raw).username = u.username
  kind : (parseCommand raw).1 = .list ∨ s.loginSucceeds (parseCommand raw) = true

theorem mem_list {t : Table} {r : Client} : r ∈ list t true ↔ r ∈ t.rows ∧ r.online = true := by
  rw [list, if_pos rfl]
  exact Keyed.mem_getAll

/-! ## The tokens of the reply -/

/-- A number on a line of its own. -/
theorem split_number_line (n : Int) (rest : Str) :
    split (toStr n ++ "\n".toList ++ rest) "\n".toList = toStr n :: split rest "\n".toList := by
  have hn : IsToken "\n".toList (toStr n) := by
    refine isToken_toStr n fun c hc => ?_
    obtain rfl : c = '\n' := by simpa using hc
    decide
  rw [List.append_assoc]
  exact hn.split_first rest (c := '\n') (by simp) (by decide)

/-- A line without newlines and NULs is one token. -/
theorem isToken_lineText {r : Client} (hu : '\n' ∉ r.username ∧ '\x00' ∉ r.username)
    (hip : '\n' ∉ r.ip ∧ '\x00' ∉ r.ip) : IsToken "\n".toList (lineText r) := by
  have hmem : ∀ {c : Char}, c ∈ lineText r → c ∈ r.username ∨ c ∈ r.ip ∨ c = '#' ∨ c = '-' ∨
      c.isDigit = true := by
    intro c hc
    simp only [lineText, List.mem_append] at hc
    have hash : c ∈ "#".toList → c = '#' := by simp
    rcases hc with (((hc | hc) | hc) | hc) | hc
    · exact .inl hc
    · exact .inr (.inr (.inl (hash hc)))
    · exact .inr (.inl hc)
    · exact .inr (.inr (.inl (hash hc)))
    · exact .inr (.inr (.inr (mem_toStr hc)))
  refine ⟨by simp [lineText], fun c hc hs => ?_, fun h0 => ?_⟩
  · obtain rfl : c = '\n' := by simpa using hs
    rcases hmem hc with h | h | h | h | h
    · exact hu.1 h
    · exact hip.1 h
    all_goals exact absurd h (by decide)
  · rcases hmem h0 with h | h | h | h | h
    · exact hu.2 h
    · exact hip.2 h
    all_goals exact absurd h (by decide)

theorem split_lines {rows : List Client} (h : ∀ r ∈ rows, IsToken "\n".toList (lineText r)) :
    split (rows.flatMap fun r => listLine r.username r.ip r.privatePort) "\n".toList =
      rows.map lineText := by
  induction rows with
  | nil => rfl
  | cons r rows ih =>
    have hline : listLine r.username r.ip r.privatePort = lineText r ++ "\n".toList := rfl
    have hr := (h r List.mem_cons_self).split_first
      (rows.flatMap fun r => listLine r.username r.ip r.privatePort) (c := '\n') (by simp)
      (by decide)
    rw [List.flatMap_cons, hline, List.append_assoc, List.map_cons,
      ← ih fun x hx => h x (List.mem_cons_of_mem r hx)]
    exact hr

/-- The tokens of a reply with any count before the lines. -/
theorem split_listLines {t : Table} (h : ∀ r ∈ list t true, IsToken "\n".toList (lineText r))
    (balance n : Int) :
    split (toStr balance ++ "\n".toList ++ (toStr n ++ "\n".toList) ++ userListInfo t) "\n".toList =
      toStr balance :: toStr n :: (list t true).map lineText := by
  rw [List.append_assoc, split_number_line, split_number_line, userListInfo_eq, split_lines h]

/-! ## The loop -/

/-- The loop reads the next `n` tokens, if there are so many and its counter does not overflow. -/
theorem peerLoop_eq {tmp : List Str} (n : Nat) {i : Nat} (hi : i < 2 ^ 31) (hlen : i ≤ tmp.length) :
    peerLoop tmp n i =
      if i + n ≤ tmp.length ∧ i + n < 2 ^ 31 then
        .ok (((tmp.drop i).take n).map fun line => split line "#".toList)
      else .error .undefined := by
  induction n generalizing i with
  | zero =>
    rw [if_pos ⟨by omega, by omega⟩]
    rfl
  | succ n ih =>
    unfold peerLoop
    by_cases hend : i < tmp.length
    · rw [List.getElem?_eq_getElem hend]
      dsimp only
      by_cases hover : i + 1 < 2 ^ 31
      · rw [if_pos hover, ih hover hend, List.drop_eq_getElem_cons hend, List.take_succ_cons,
          List.map_cons]
        have hiff : (i + 1 + n ≤ tmp.length ∧ i + 1 + n < 2 ^ 31) ↔
            (i + (n + 1) ≤ tmp.length ∧ i + (n + 1) < 2 ^ 31) := by omega
        simp only [hiff]
        split
        · rfl
        · rfl
      · rw [if_neg hover, if_neg (by omega)]
    · rw [List.getElem?_eq_none (by omega), if_neg (by omega)]

/-- **What the client makes of a reply**: an error, or the first `n` lines. -/
theorem parseListInfo_eq {t : Table} (h : ∀ r ∈ list t true, IsToken "\n".toList (lineText r))
    {balance : Int} (hb : -2 ^ 31 ≤ balance ∧ balance < 2 ^ 31) {n : Nat} (hn : n < 2 ^ 31) :
    parseListInfo
        (toStr balance ++ "\n".toList ++ (toStr n ++ "\n".toList) ++ userListInfo t) =
      if n ≤ (list t true).length ∧ n + 2 < 2 ^ 31 then
        .ok ⟨balance, n,
          ((list t true).take n).map fun r => split (lineText r) "#".toList⟩
      else .error .undefined := by
  have hlen : 2 ≤ (toStr balance :: toStr n :: (list t true).map lineText).length := by simp
  have hloop := peerLoop_eq n (by omega) hlen
  have hiff : (2 + n ≤ (toStr balance :: toStr n :: (list t true).map lineText).length ∧
      2 + n < 2 ^ 31) ↔ (n ≤ (list t true).length ∧ n + 2 < 2 ^ 31) := by
    simp only [List.length_cons, List.length_map]
    omega
  unfold parseListInfo
  rw [split_listLines h]
  simp only [stoiAt, List.getElem?_cons_zero, List.getElem?_cons_succ, stoi_toStr hb.1 hb.2,
    stoi_toStr (by omega : -2 ^ 31 ≤ (n : Int)) (by exact_mod_cast hn), Except.mapError,
    bind, Except.bind, Int.toNat_natCast, hloop, hiff]
  by_cases hc : n ≤ (list t true).length ∧ n + 2 < 2 ^ 31
  · rw [if_pos hc, if_pos hc, List.drop_succ_cons, List.drop_succ_cons, List.drop_zero,
      ← List.map_take, List.map_map]
    rfl
  · rw [if_neg hc, if_neg hc]

/-- A count beyond `int` is none for `stoi`. -/
theorem parseListInfo_throws {t : Table} (h : ∀ r ∈ list t true, IsToken "\n".toList (lineText r))
    {balance : Int} (hb : -2 ^ 31 ≤ balance ∧ balance < 2 ^ 31) {n : Nat} (hn : 2 ^ 31 ≤ n) :
    parseListInfo
        (toStr balance ++ "\n".toList ++ (toStr n ++ "\n".toList) ++ userListInfo t) =
      .error (.throws .outOfRange) := by
  have hstoi : stoi (toStr n) = .error .outOfRange := by
    rw [stoi_toStr_eq, if_pos (.inr (by exact_mod_cast hn))]
  unfold parseListInfo
  rw [split_listLines h]
  simp only [stoiAt, List.getElem?_cons_zero, List.getElem?_cons_succ, stoi_toStr hb.1 hb.2, hstoi,
    Except.mapError, bind, Except.bind]

/-! ## The round trip -/

section
variable {t : Table} {u : Client}

theorem Listable.lineText {r : Client} (h : Listable r) :
    IsToken "\n".toList (lineText r) ∧ split (lineText r) "#".toList = peerInfo r := by
  have hsep : ∀ {x : Str}, IsToken "#\n".toList x → ('\n' ∉ x ∧ '\x00' ∉ x) ∧ IsArg x := by
    intro x hx
    refine ⟨⟨fun hc => hx.notSep _ hc (by simp), hx.nul⟩, hx.ne, fun c hc hs => ?_, hx.nul⟩
    obtain rfl : c = '#' := by simpa using hs
    exact hx.notSep _ hc (by simp)
  obtain ⟨hu, hu'⟩ := hsep h.username
  obtain ⟨hip, hip'⟩ := hsep h.ip
  exact ⟨isToken_lineText hu hip, split_three hu' hip' (isArg_toStr r.privatePort)⟩

/-- A search for an online user stops at its entry, and there is no other of that name. -/
theorem findPeerInfo_peerInfo (t : Table) (name : Str) :
    findPeerInfo ((list t true).map peerInfo) name =
      ((t.find? name).filter Client.online).map peerInfo := by
  have hcomp : (fun info : List Str => decide (info.head? = some name)) ∘ peerInfo =
      fun r => decide (r.username = name) := by
    funext r
    simp [peerInfo]
  have hkey : (list t true).find? (fun r => decide (r.username = name)) =
      ((t.find? name).filter Client.online) := by
    have h := Keyed.getAll_key t name Client.online
    unfold Keyed.getAll at h
    rw [list, if_pos rfl, Keyed.getAll, ← List.head?_filter, List.filter_filter, h]
    cases (t.find? name).filter Client.online <;> rfl
  rw [findPeerInfo, List.find?_map, hcomp, hkey]

theorem AnswersList.reply_eq {s : Server} {c : Conn} {raw reply : Str}
    (h : AnswersList s c raw u reply) (ht : (s.handle c raw).table = t) (hu : u ∈ list t true)
    (hne : u.username ≠ []) : reply = listResponse t u := by
  obtain ⟨hsent, huser, hkind⟩ := h
  subst ht
  obtain ⟨-, hcases⟩ := parseCommand_cases raw
  unfold Server.handle at hsent huser hu ⊢
  rcases hcases with hp | hp | ⟨v, hp⟩ | ⟨v, p, hp, -⟩ | ⟨v, n, w, hp, -⟩ | ⟨args, hp⟩
  all_goals rw [hp] at hsent huser hkind hu ⊢
  · simp [Server.loginSucceeds] at hkind
  · -- LIST: the user's row is online, so the list is not empty and the user has a row
    dsimp only [Server.listCase] at hsent huser hu ⊢
    have hlen : ¬ ((list s.table true).length = 0 ∨ c.username = []) := by
      rintro (h0 | h0)
      · rw [List.length_eq_zero_iff.1 h0] at hu
        cases hu
      · exact hne (huser ▸ h0)
    rw [if_neg hlen, userInfo_eq, huser, Keyed.find?_of_mem (mem_list.1 hu).1] at hsent
    exact (Outcome.sent.inj hsent).2.symm
  · simp [Server.loginSucceeds] at hkind
  · -- LOGIN: the reply is for the row that was written
    have hl := hkind.resolve_left (by simp)
    simp only [Server.loginSucceeds, arg, List.getD_cons_succ, List.getD_cons_zero,
      Bool.and_eq_true, Option.any_eq_true] at hl
    obtain ⟨⟨-, hport⟩, user, hv, ho⟩ := hl
    obtain ⟨privatePort, hport⟩ : ∃ q, stoi p = .ok q := by
      cases hq : stoi p with
      | ok q => exact ⟨q, rfl⟩
      | error e => simp [hq, Except.isOk, Except.toBool] at hport
    dsimp only at hsent huser hu ⊢
    rw [Server.loginCase_eq hport, hv] at hsent huser hu ⊢
    dsimp only at hsent huser hu ⊢
    have hoff : ¬ user.online = true := by simpa using ho
    rw [if_neg hoff] at hsent huser hu ⊢
    rw [Server.loggedIn_username] at huser
    have hrow : (user.login c.clientip c.clientport privatePort) = u := by
      have hm := (mem_list.1 hu).1
      rw [Server.loggedIn_table] at hm
      have h1 := Keyed.find?_of_mem hm
      rw [find?_login hv, if_pos huser] at h1
      exact Option.some.inj h1
    rw [hrow] at hsent ⊢
    exact (Outcome.sent.inj hsent).2.symm
  · simp [Server.loginSucceeds] at hkind
  · simp [Server.loginSucceeds] at hkind

/-- **Decoding undoes encoding**, for every table whose online users the loop can count. -/
theorem list_decoded (hl : ∀ r ∈ t.rows, r.online = true → Listable r)
    (hlen : (list t true).length + 2 < 2 ^ 31) (hu : u ∈ t.rows) (ho : u.online = true)
    (hb : -2 ^ 31 ≤ u.balance ∧ u.balance < 2 ^ 31) :
    Decoded t u (listResponse t u) ∧
      ∀ s c raw reply, (s.handle c raw).table = t → AnswersList s c raw u reply →
        reply = listResponse t u := by
  have hlines : ∀ r ∈ list t true, IsToken "\n".toList (lineText r) ∧
      split (lineText r) "#".toList = peerInfo r := by
    intro r hr
    exact (hl r (mem_list.1 hr).1 (mem_list.1 hr).2).lineText
  refine ⟨⟨?_, fun r hr hon => ?_, fun name hname => ?_⟩, fun s c raw reply ht h => ?_⟩
  · have hparse := parseListInfo_eq (fun r hr => (hlines r hr).1) hb
      (n := (list t true).length) (by omega)
    rw [if_pos ⟨le_rfl, hlen⟩, List.take_length,
      List.map_congr_left fun r hr => (hlines r hr).2] at hparse
    exact hparse
  · rw [findPeerInfo_peerInfo, Keyed.find?_of_mem hr, Option.filter_some_pos hon]
    rfl
  · rw [findPeerInfo_peerInfo]
    cases hf : (t.find? name).filter Client.online with
    | none => rfl
    | some r =>
      obtain ⟨hf, hon⟩ := Option.filter_eq_some_iff.1 hf
      exact absurd (Keyed.find?_key hf) (hname r (Keyed.find?_mem hf) hon)
  · exact h.reply_eq ht (mem_list.2 ⟨hu, ho⟩) (hl u hu ho).username.ne

end

/-- `a` online at `x`, `b` offline. -/
def listedTable : Table where
  rows := [⟨['a'], ['x'], 1, 11, 1, 10000⟩, ⟨['b'], [], -1, -1, 0, 9000⟩]
  nodup := by decide

theorem list_decoded_one : Decoded listedTable ⟨['a'], ['x'], 1, 11, 1, 10000⟩
    "10000\n1\na#x#11\n".toList := by
  have hl : ∀ r ∈ listedTable.rows, r.online = true → Listable r := by
    intro r hr ho
    fin_cases hr
    · exact ⟨⟨by simp, by simp, by simp⟩, ⟨by simp, by simp, by simp⟩⟩
    · cases ho
  have h := (list_decoded hl (by decide +kernel) (u := ⟨['a'], ['x'], 1, 11, 1, 10000⟩)
    (by decide) (by decide) (by decide)).1
  exact (by decide +kernel : "10000\n1\na#x#11\n".toList = listResponse listedTable
    ⟨['a'], ['x'], 1, 11, 1, 10000⟩) ▸ h

/-! ## More users than the loop can count -/

theorem toStr_injective {n m : Nat} (h : toStr n = toStr m) : n = m := by
  rw [toStr_natCast, toStr_natCast] at h
  have := congrArg (fun s => Nat.ofDigitChars 10 s 0) h
  simpa only [Nat.ofDigitChars_ten_toDigits] using this

def crowdUser (k : Nat) : Client := ⟨toStr k, ['x'], k, k, 1, 10000⟩

/-- `n` users, all online, named by numbers. -/
def crowd (n : Nat) : Table where
  rows := (List.range n).map crowdUser
  nodup := by
    rw [List.map_map]
    exact List.nodup_range.map fun _ _ h => toStr_injective h

theorem listable_crowdUser (k : Nat) : Listable (crowdUser k) where
  username := isToken_toStr k fun c hc => by
    have : c = '#' ∨ c = '\n' := by simpa using hc
    rcases this with rfl | rfl <;> decide
  ip := ⟨by simp [crowdUser], by simp [crowdUser], by simp [crowdUser]⟩

/-- The loop's counter overflows before the loop has read the last line. -/
theorem parseListInfo_crowd {n : Nat} (hn : n + 2 = 2 ^ 31) (u : Client) (hb : u.balance = 10000) :
    parseListInfo (listResponse (crowd n) u) = .error .undefined := by
  have hlist : list (crowd n) true = (List.range n).map crowdUser := by
    rw [list, if_pos rfl, Keyed.getAll]
    refine List.filter_eq_self.2 fun r hr => ?_
    obtain ⟨k, -, rfl⟩ := List.mem_map.1 hr
    rfl
  have hlines : ∀ r ∈ list (crowd n) true, IsToken "\n".toList (lineText r) := by
    intro r hr
    rw [hlist] at hr
    obtain ⟨k, -, rfl⟩ := List.mem_map.1 hr
    exact (listable_crowdUser k).lineText.1
  have hcount : (list (crowd n) true).length = n := by
    rw [hlist, List.length_map, List.length_range]
  have hrange : -2 ^ 31 ≤ u.balance ∧ u.balance < 2 ^ 31 := by omega
  have hparse := parseListInfo_eq hlines hrange (n := (list (crowd n) true).length) (by omega)
  rw [if_neg (by omega)] at hparse
  exact hparse

theorem crowd_not_decoded {n : Nat} (hn : n + 2 = 2 ^ 31) :
    (∀ r ∈ (crowd n).rows, Listable r ∧ 0 ≤ r.privatePort) ∧ crowdUser 0 ∈ (crowd n).rows ∧
      ¬ Decoded (crowd n) (crowdUser 0) (listResponse (crowd n) (crowdUser 0)) := by
  refine ⟨fun r hr => ?_, List.mem_map_of_mem (List.mem_range.2 (by omega)), fun h => ?_⟩
  · obtain ⟨k, -, rfl⟩ := List.mem_map.1 hr
    exact ⟨listable_crowdUser k, Int.natCast_nonneg k⟩
  · have hparse := h.parse
    rw [parseListInfo_crowd hn _ rfl] at hparse
    cases hparse

/-- 2147483646 users online are two too many. -/
theorem crowd_overflows :
    (crowdUser 0).online = true ∧
    (∀ r ∈ (crowd 2147483646).rows, Listable r ∧ 0 ≤ r.privatePort) ∧
    crowdUser 0 ∈ (crowd 2147483646).rows ∧
    ¬ Decoded (crowd 2147483646) (crowdUser 0) (listResponse (crowd 2147483646) (crowdUser 0)) :=
  ⟨rfl, crowd_not_decoded (by norm_num)⟩

end Micropayment
