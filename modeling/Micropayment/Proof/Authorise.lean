import Micropayment.Peer

/-!
# Who debits an account

The server carries out any `a#n#r` that reaches it, on whatever connection: `p2p_transaction`
encrypts with the peer's public key only, and neither the peer nor the server checks who wrote the
message. `debits_authorised`: a user is debited only for its own calls, each at most once, in the
runs in which every transaction message under its name is one that it has handed to a peer and that
has not been delivered before (`Authentic`). `forged_debit` is a run without that.
-/

set_option autoImplicit false

namespace Micropayment

/-- A transaction message in the user's name is outstanding from one of its own calls. -/
def Authentic (user : Str) (n : Network) : Event → Prop
  | .server (.message _ buffer _) =>
    (parseCommand (cStr buffer)).1 = .transaction → arg (parseCommand (cStr buffer)).2 0 = user →
      cStr buffer ∈ n.outstanding
  | _ => True

instance (user : Str) (n : Network) (e : Event) : Decidable (Authentic user n e) :=
  match e with
  | .p2pTransaction _ _ _ => .isTrue trivial
  | .server (.accept _ _) => .isTrue trivial
  | .server (.hangup _) => .isTrue trivial
  | .server (.message _ buffer _) => inferInstanceAs (Decidable
      ((parseCommand (cStr buffer)).1 = .transaction →
        arg (parseCommand (cStr buffer)).2 0 = user → cStr buffer ∈ n.outstanding))

/-- The amount and the receiver of a call, as a debit. -/
def P2pCall.debit (x : P2pCall) : ℚ × Str := (x.1, x.2)

/-- A call has an `int` as its amount and a token as its receiver. -/
structure P2pCall.Valid (x : P2pCall) : Prop where
  lower : -2 ^ 31 ≤ x.1
  upper : x.1 < 2 ^ 31
  receiver : IsArg x.2

/-! ## One message -/

section
variable {user : Str} {x : P2pCall}

theorem parseCommand_transactMsg (hu : IsArg user) (hx : x.Valid) :
    parseCommand (transactMsg user x.1 x.2) = (.transaction, [user, toStr x.1, x.2]) := by
  rw [transactMsg, parseCommand_three hu (isArg_toStr x.1) hx.receiver, cmdType_three,
    if_pos (isNumber_toStr x.1)]

/-- The message of a call debits at most what the call says. -/
theorem debitOf_transactMsg (hu : IsArg user) (hx : x.Valid) {s : Server} {id : Nat} {buffer : Str}
    {resume : Bool} (h : cStr buffer = transactMsg user x.1 x.2) :
    debitOf user s (.message id buffer resume) = [] ∨
      debitOf user s (.message id buffer resume) = [x.debit] := by
  unfold debitOf
  simp only [h, parseCommand_transactMsg hu hx, arg, List.getD_cons_zero, List.getD_cons_succ,
    stod_toStr hx.lower hx.upper]
  split
  · exact .inr rfl
  · exact .inl rfl

theorem debitOf_other {s : Server} {a : Action}
    (h : ∀ id buffer resume, a = .message id buffer resume →
      (parseCommand (cStr buffer)).1 = .transaction →
        arg (parseCommand (cStr buffer)).2 0 ≠ user) : debitOf user s a = [] := by
  cases a with
  | accept | hangup => rfl
  | message id buffer resume =>
    unfold debitOf
    dsimp only
    split
    · rename_i hcmd hpay
      rw [if_neg fun hd => h id buffer resume rfl hcmd hd.1]
    · rfl

end

/-! ## The invariant -/

/-- The calls whose message is still outstanding, and the debits so far, make up at most all
calls. -/
def Accounted (user : Str) (n : Network) : Prop :=
  ∃ pending : List P2pCall, (∀ x ∈ pending, x.Valid) ∧
    n.outstanding.Perm (pending.map fun x => transactMsg user x.1 x.2) ∧
    (n.debits ++ pending.map P2pCall.debit).Subperm (n.calls.map P2pCall.debit)

section
variable {user : Str} {n n' : Network}

theorem valid_of_found {listMsg : Str} {amount : Int} {receiver : Str}
    (h1 : -2 ^ 31 ≤ amount) (h2 : amount < 2 ^ 31) {p : List Str → Bool}
    (hf : (findPeerInfo (splitLines listMsg) receiver).any p = true) :
    P2pCall.Valid (amount, receiver) := by
  obtain ⟨info, hinfo, -⟩ := (Option.any_eq_true _ _).1 hf
  refine ⟨h1, h2, ?_⟩
  obtain ⟨line, -, rfl⟩ := List.mem_map.1 (List.mem_of_find?_eq_some hinfo)
  have hhead := List.find?_some hinfo
  exact isToken_of_mem_split (List.mem_of_mem_head? (by simpa using hhead))

theorem Accounted.call (h : Accounted user n) {x : P2pCall} (hx : x.Valid) :
    Accounted user { n with
      calls := x :: n.calls
      outstanding := transactMsg user x.1 x.2 :: n.outstanding } := by
  obtain ⟨pending, hvalid, hperm, hsub⟩ := h
  refine ⟨x :: pending, List.forall_mem_cons.2 ⟨hx, hvalid⟩, hperm.cons _, ?_⟩
  exact (List.perm_middle.subperm).trans ((List.subperm_cons _).2 hsub)

theorem Accounted.deliver (h : Accounted user n) (hu : IsArg user) {server : Server}
    {id : Nat} {buffer : Str} {resume : Bool}
    (hg : Authentic user n (.server (.message id buffer resume))) :
    Accounted user ⟨server, n.calls, n.outstanding.erase (cStr buffer),
      debitOf user n.server (.message id buffer resume) ++ n.debits⟩ := by
  obtain ⟨pending, hvalid, hperm, hsub⟩ := h
  by_cases hout : cStr buffer ∈ n.outstanding
  · -- the message of a pending call, which is no longer pending
    obtain ⟨x, hx, hmsg⟩ := List.mem_map.1 (hperm.mem_iff.1 hout)
    have hpending := List.perm_cons_erase hx
    refine ⟨pending.erase x, fun y hy => hvalid y (List.mem_of_mem_erase hy), ?_, ?_⟩
    · have hp := (hperm.trans (hpending.map _)).erase (cStr buffer)
      rw [List.map_cons, hmsg, List.erase_cons_head] at hp
      exact hp
    · have hp : (n.debits ++ x.debit :: (pending.erase x).map P2pCall.debit).Subperm
          (n.calls.map P2pCall.debit) :=
        ((hpending.map P2pCall.debit).symm.append_left n.debits).subperm.trans hsub
      rcases debitOf_transactMsg hu (hvalid x hx) hmsg.symm with hd | hd
      · rw [hd]
        exact ((List.sublist_cons_self _ _).append_left _).subperm.trans hp
      · rw [hd]
        exact (List.perm_middle.symm).subperm.trans hp
  · rw [List.erase_of_not_mem hout, debitOf_other fun id' buffer' resume' he hcmd hname => ?_]
    · exact ⟨pending, hvalid, hperm, hsub⟩
    · cases he
      exact hout (hg hcmd hname)

theorem Accounted.step (h : Accounted user n) (hu : IsArg user) {e : Event}
    (hg : Authentic user n e) (hs : Network.step user n e = some n') : Accounted user n' := by
  cases e with
  | p2pTransaction listMsg amount receiver =>
    simp only [Network.step] at hs
    split at hs
    · rename_i hcall
      obtain rfl := Option.some.inj hs
      exact h.call (valid_of_found hcall.1 hcall.2.1 hcall.2.2)
    · cases hs
  | server a =>
    obtain ⟨server, -, rfl⟩ := Option.map_eq_some_iff.1 hs
    cases a with
    | message id buffer resume => exact h.deliver hu hg
    | accept | hangup => exact h

end

/-- **Every debit is authorised by its payer** in the runs in which every transaction message in
the payer's name is authentic: debits map injectively to calls with the same amount and receiver. -/
theorem debits_authorised {user : Str} (hu : IsArg user) {t : Table} {events : List Event}
    {n : Network} (h : Run (Network.step user) (Authentic user) (Network.init t) events n) :
    n.debits.Subperm (n.calls.map P2pCall.debit) := by
  have hinit : Accounted user (Network.init t) := ⟨[], by simp, .refl _, .refl _⟩
  obtain ⟨pending, -, -, hsub⟩ := h.inv (fun _ _ _ ha hg hs => ha.step hu hg hs) hinit
  exact (List.sublist_append_left _ _).subperm.trans hsub

/-! ## A forged message -/

section
/-- `a` and `m` register and log in on connections of their own. -/
def twoSessions : List Event :=
  [.server (.accept ['x'] 1), .server (.accept ['y'] 2),
    .server (.message 0 "REGISTER#a".toList true), .server (.message 1 "REGISTER#m".toList true),
    .server (.message 0 "a#11".toList true), .server (.message 1 "m#12".toList true)]

theorem isArg_a : IsArg ['a'] := ⟨by simp, by simp, by simp⟩

/-- `a` pays `m` 5000 coins, and `m` forwards the message. -/
theorem debits_authorised_paid :
    ∃ n, Run (Network.step ['a']) (Authentic ['a']) (Network.init Keyed.empty)
        (twoSessions ++ [.p2pTransaction "5000\n1\nm#y#12\n".toList 5000 ['m'],
          .server (.message 1 "a#5000#m".toList true)]) n ∧
      n.debits = [(5000, ['m'])] ∧ n.debits.Subperm (n.calls.map P2pCall.debit) := by
  have hok : allowed (Network.step ['a']) (Authentic ['a']) (Network.init Keyed.empty)
      (twoSessions ++ [.p2pTransaction "5000\n1\nm#y#12\n".toList 5000 ['m'],
        .server (.message 1 "a#5000#m".toList true)]) = true := by decide +kernel
  have hend : (runAll (Network.step ['a']) (Network.init Keyed.empty)
      (twoSessions ++ [.p2pTransaction "5000\n1\nm#y#12\n".toList 5000 ['m'],
        .server (.message 1 "a#5000#m".toList true)])).map Network.debits =
          some [(5000, ['m'])] := by decide +kernel
  obtain ⟨n, hn, h⟩ := Run.of_allowed hok
  rw [hn] at hend
  exact ⟨n, h, Option.some.inj hend, debits_authorised isArg_a h⟩

/-- `m` sends the server a transaction message in `a`'s name: `a`, who has called nothing, is
debited. -/
theorem forged_debit :
    ∃ n, Run (Network.step ['a']) Any (Network.init Keyed.empty)
        (twoSessions ++ [.server (.message 1 "a#5000#m".toList true)]) n ∧
      n.debits = [(5000, ['m'])] ∧ n.calls = [] ∧
      ¬ n.debits.Subperm (n.calls.map P2pCall.debit) := by
  have hend : (runAll (Network.step ['a']) (Network.init Keyed.empty)
      (twoSessions ++ [.server (.message 1 "a#5000#m".toList true)])).map
        (fun n => (n.debits, n.calls)) = some ([(5000, ['m'])], []) := by decide +kernel
  obtain ⟨n, hn, hout⟩ := Option.map_eq_some_iff.1 hend
  obtain ⟨hdebits, hcalls⟩ := Prod.mk.inj hout
  refine ⟨n, Run.of_runAll hn, hdebits, hcalls, fun h => ?_⟩
  rw [hdebits, hcalls] at h
  exact absurd h.length_le (by decide)

end

end Micropayment
