import Micropayment.Proof.Ledger

/-!
# Rows and the history of calls

After any sequence of calls from the empty table a row is either without a session, or has the
session of its last successful login, with no logout since (`wellFormed`). `LastLogin` says this
of the sequence alone; a call keeps it unless it sets the session columns of that user
(`Call.SetsSession`).
-/

set_option autoImplicit false

namespace Micropayment

theorem tableAfter_append (calls : List Call) (c : Call) :
    tableAfter (calls ++ [c]) = (c.prog.run (tableAfter calls)).2 := by
  unfold tableAfter
  rw [List.foldl_append]
  rfl

/-! ## Usernames -/

/-- A call leaves the usernames as they are, in their order; a registration adds one. -/
theorem Call.usernames (t : Table) (c : Call) :
    ∃ new : List Str, (c.prog.run t).2.rows.map Client.username =
        t.rows.map Client.username ++ new ∧
      new.length = if c.status t = .registerOk then 1 else 0 := by
  have hsame : ∀ r : Client, (t.update r).rows.map Client.username = t.rows.map Client.username :=
    fun r => Keyed.map_key_overwrite Client.username r t.rows
  rcases c.outcome t with ⟨hcode, hrun⟩ | ⟨u, ip, -, hu, hst, hrun⟩ |
    ⟨u, ip, pub, priv, user, -, -, -, hst, hrun⟩ | ⟨ip, pub, user, -, -, hst, hrun⟩ |
    ⟨snd, rcv, pay, s, r, -, -, hst, hrun⟩
  · refine ⟨[], by rw [hrun, List.append_nil], ?_⟩
    rw [if_neg]
    · rfl
    · intro hst
      rw [hst] at hcode
      simp [Status.code] at hcode
  · refine ⟨[u], ?_, by rw [hst]; rfl⟩
    rw [hrun, Keyed.rows_replace_new hu, List.map_append]
    rfl
  · exact ⟨[], by rw [hrun, hsame, List.append_nil], by rw [hst]; rfl⟩
  · exact ⟨[], by rw [hrun, hsame, List.append_nil], by rw [hst]; rfl⟩
  · refine ⟨[], ?_, by rw [hst]; rfl⟩
    rw [hrun, List.append_nil, ← hsame (s.debit pay)]
    exact Keyed.map_key_overwrite Client.username (r.credit pay) _

/-- No sequence of calls removes a username. -/
theorem usernames_kept (A B : List Call) :
    (tableAfter A).rows.map Client.username <+: (tableAfter (A ++ B)).rows.map Client.username := by
  induction B using List.reverseRecOn with
  | nil =>
    rw [List.append_nil]
  | append_singleton B c ih =>
    obtain ⟨new, hnew, -⟩ := c.usernames (tableAfter (A ++ B))
    rw [← List.append_assoc, tableAfter_append, hnew]
    exact ih.trans (List.prefix_append _ _)

/-! ## The last login -/

/-- The call logs `u` in, or logs out a row of `u`, and returns its code of success. -/
def Call.SetsSession (t : Table) (u : Str) : Call → Prop
  | .login v ip pub priv => v = u ∧ (Call.login v ip pub priv).status t = .loginSuccess
  | .logout ip pub => (Call.logout ip pub).status t = .logoutSuccess ∧
      ∃ r ∈ t.rows, r.username = u ∧ r.onlineAt ip pub = true
  | _ => False

/-- The last login of `u` that succeeded had these arguments, and no logout has hit `u` since. -/
def LastLogin (calls : List Call) (u ip : Str) (pub priv : Int) : Prop :=
  ∃ A B, calls = A ++ .login u ip pub priv :: B ∧
    (Call.login u ip pub priv).status (tableAfter A) = .loginSuccess ∧
    ∀ B₁ c B₂, B = B₁ ++ c :: B₂ →
      ¬ c.SetsSession (tableAfter (A ++ .login u ip pub priv :: B₁)) u

section
variable {calls : List Call} {c : Call} {u ip : Str} {pub priv : Int}

theorem LastLogin.of_success
    (h : (Call.login u ip pub priv).status (tableAfter calls) = .loginSuccess) :
    LastLogin (calls ++ [.login u ip pub priv]) u ip pub priv :=
  ⟨calls, [], rfl, h, fun B₁ c B₂ hB => by simp at hB⟩

theorem LastLogin.append (h : LastLogin calls u ip pub priv)
    (hc : ¬ c.SetsSession (tableAfter calls) u) : LastLogin (calls ++ [c]) u ip pub priv := by
  obtain ⟨A, B, rfl, hst, hB⟩ := h
  refine ⟨A, B ++ [c], by simp, hst, fun B₁ d B₂ he => ?_⟩
  -- the new call is the last one of the split, or the split was there before
  rcases List.eq_nil_or_concat B₂ with rfl | ⟨B₂, e, rfl⟩
  · obtain ⟨rfl, hcd⟩ := List.append_inj' he rfl
    rw [← List.head_eq_of_cons_eq hcd]
    exact hc
  · rw [List.concat_eq_append, ← List.cons_append, ← List.append_assoc] at he
    exact hB B₁ d B₂ (List.append_inj' he rfl).1

end

/-! ## Rows -/

/-- The row has no session, or the one of its user's last login. -/
def WellFormed (calls : List Call) (r : Client) : Prop :=
  (r.onlineStatus = 0 ∧ r.ip = [] ∧ r.publicPort = -1 ∧ r.privatePort = -1) ∨
  (r.onlineStatus = 1 ∧ LastLogin calls r.username r.ip r.publicPort r.privatePort)

section
variable {calls : List Call} {c : Call} {r : Client}

theorem WellFormed.append (h : WellFormed calls r)
    (hc : ¬ c.SetsSession (tableAfter calls) r.username) : WellFormed (calls ++ [c]) r := by
  rcases h with h | ⟨ho, hl⟩
  · exact .inl h
  · exact .inr ⟨ho, hl.append hc⟩

/-- A row depends on the history through its name and its session only. -/
theorem WellFormed.congr {r' : Client} (h : WellFormed calls r) (hu : r'.username = r.username)
    (hs : r'.session = r.session) : WellFormed calls r' := by
  simp only [Client.session, Prod.mk.injEq] at hs
  unfold WellFormed
  rw [hu, hs.1, hs.2.1, hs.2.2.1, hs.2.2.2]
  exact h

/-- **One call** keeps every row well formed. -/
theorem wellFormed_append (h : ∀ r ∈ (tableAfter calls).rows, WellFormed calls r) :
    ∀ r ∈ (tableAfter (calls ++ [c])).rows, WellFormed (calls ++ [c]) r := by
  rw [tableAfter_append]
  rcases c.outcome (tableAfter calls) with ⟨hcode, hrun⟩ | ⟨u, ip, rfl, -, -, hrun⟩ |
    ⟨u, ip, pub, priv, user, rfl, hu, -, hst, hrun⟩ | ⟨ip, pub, user, rfl, hu, hst, hrun⟩ |
    ⟨snd, rcv, pay, s, r, rfl, ht, -, hrun⟩
  all_goals
    rw [hrun]
    intro x hx
  · refine (h x hx).append fun hc => ?_
    cases c with
    | register | transaction => exact hc
    | login => rw [hc.2] at hcode; simp [Status.code] at hcode
    | logout => rw [hc.1] at hcode; simp [Status.code] at hcode
  · rcases Keyed.mem_replace.1 hx with rfl | ⟨hx, -⟩
    · exact .inl ⟨rfl, rfl, rfl, rfl⟩
    · exact (h x hx).append id
  · have hk := Keyed.find?_key hu
    rcases Keyed.mem_update hx with rfl | ⟨hx, hne⟩
    · refine .inr ⟨rfl, ?_⟩
      rw [Client.login_username, hk]
      exact .of_success hst
    · exact (h x hx).append fun hc => hne (hc.1.symm.trans hk.symm)
  · rcases Keyed.mem_update hx with rfl | ⟨hx, hne⟩
    · exact .inl ⟨rfl, rfl, rfl, rfl⟩
    · refine (h x hx).append fun hc => hne ?_
      -- the row that a logout hits is the only one at its endpoint
      obtain ⟨y, hy, hyu, hon⟩ := hc.2
      have hm := Keyed.mem_getAll.2 ⟨hy, hon⟩
      rw [hu, List.mem_singleton] at hm
      rw [← hyu, hm]
      rfl
  · rcases Keyed.mem_update hx with rfl | ⟨hx, -⟩
    · exact ((h r (Keyed.find?_mem ht.receiver)).append id).congr rfl rfl
    · rcases Keyed.mem_update hx with rfl | ⟨hx, -⟩
      · exact ((h s (Keyed.find?_mem ht.sender)).append id).congr rfl rfl
      · exact (h x hx).append id

end

theorem wellFormed_tableAfter (calls : List Call) :
    ∀ r ∈ (tableAfter calls).rows, WellFormed calls r := by
  induction calls using List.reverseRecOn with
  | nil => exact fun r hr => absurd hr List.not_mem_nil
  | append_singleton calls c ih => exact wellFormed_append ih

/-- **The table is well formed** after every sequence of calls: distinct usernames, none of them
ever removed, and a row without a session or with the one of its last successful login. -/
theorem table_wellFormed (calls : List Call) :
    ((tableAfter calls).rows.map Client.username).Nodup ∧
    (∀ A B, calls = A ++ B → ∀ r ∈ (tableAfter A).rows,
      r.username ∈ (tableAfter calls).rows.map Client.username) ∧
    ∀ r ∈ (tableAfter calls).rows,
      (r.onlineStatus = 0 ∨ r.onlineStatus = 1) ∧
      (r.onlineStatus = 0 → r.ip = [] ∧ r.publicPort = -1 ∧ r.privatePort = -1) ∧
      (r.onlineStatus = 1 → LastLogin calls r.username r.ip r.publicPort r.privatePort) := by
  refine ⟨(tableAfter calls).nodup, ?_, fun r hr => ?_⟩
  · rintro A B rfl r hr
    exact (usernames_kept A B).subset (List.mem_map_of_mem hr)
  · rcases wellFormed_tableAfter calls r hr with ⟨ho, h⟩ | ⟨ho, h⟩
    · exact ⟨.inl ho, fun _ => h, fun h1 => by omega⟩
    · exact ⟨.inr ho, fun h0 => by omega, fun _ => h⟩

end Micropayment
