import DlsSdk.LcmNet.Relay
import DlsSdk.Library.Lease

/-!
# `LcmNet.Exclusion` — at most one requester and one replier

A device enters `STATE_CALL` when *its own copy* of the registers names it, and the master lets the last
message win. So two devices can be in the same role: one enters on a copy that is out of date, or the
master's register is given away while its owner is still in the call (`two_requesters`).

`Arbitrated` rules out exactly these two steps. Under it the master's register is a `Lease` on each of
the two roles (`leased_run`), whatever else the network and the buttons do.
-/

namespace DlsSdk

open Network Wlan

/-- The address the registers give to a role. -/
def Regs.owner (r : Regs) : LcmRole → String
  | .reqer => r.reqAddr
  | .reper => r.repAddr
  | _ => ""

theorem Regs.merge_owner (r m : Regs) (role : LcmRole) : (r.merge m).owner role = m.owner role := by
  cases role <;> rfl

/-! ## The lease -/

variable {ι : Type} [DecidableEq ι] {cfg : Config ι} {acts : List (LcmAct ι)} {n n' : LcmSys ι}

/-- Slave `i` is in a call in the role. -/
def Config.Holding (cfg : Config ι) (role : LcmRole) (n : LcmSys ι) (i : ι) : Prop :=
  i ≠ cfg.m ∧ (n.dev i).self.Holds role

/-- The registers name slave `i` for the role. -/
def Config.Naming (cfg : Config ι) (role : LcmRole) (r : Regs) (i : ι) : Prop :=
  i ≠ cfg.m ∧ r.owner role = cfg.addr i

/-- The step does not go wrong for the role: a slave enters `STATE_CALL` only while the *master's*
    registers name it, and the master applies a message only if no slave other than the one it names is
    in the role. -/
def Config.RoleKept (cfg : Config ι) (role : LcmRole) (n : LcmSys ι) : LcmAct ι → Prop
  | .own i .loop => i ≠ cfg.m → (n.dev i).self.Enters role → (cfg.board n).owner role = cfg.addr i
  | .deliver src dst k _ => dst = cfg.m → ∀ msg ∈ (n.link src dst)[k]?,
      ∀ i j, cfg.Holding role n i → cfg.Naming role msg.regs j → i = j
  | _ => True

/-- The step goes wrong for neither role. -/
def Config.Arbitrated (cfg : Config ι) (n : LcmSys ι) (a : LcmAct ι) : Prop :=
  cfg.RoleKept .reqer n a ∧ cfg.RoleKept .reper n a

instance (role : LcmRole) (i : ι) : Decidable (cfg.Holding role n i) :=
  inferInstanceAs (Decidable (_ ∧ _))

instance (role : LcmRole) (r : Regs) (i : ι) : Decidable (cfg.Naming role r i) :=
  inferInstanceAs (Decidable (_ ∧ _))

instance [Fintype ι] (role : LcmRole) : (a : LcmAct ι) → Decidable (cfg.RoleKept role n a)
  | .own _ .loop => inferInstanceAs (Decidable (_ → _ → _))
  | .own _ (.tick _) => inferInstanceAs (Decidable True)
  | .own _ (.button _) => inferInstanceAs (Decidable True)
  | .own _ .sync => inferInstanceAs (Decidable True)
  | .deliver _ _ _ _ => inferInstanceAs (Decidable (_ → ∀ msg ∈ _, ∀ _ _, _ → _ → _))
  | .lose _ _ _ => inferInstanceAs (Decidable True)

instance [Fintype ι] (a : LcmAct ι) : Decidable (cfg.Arbitrated n a) :=
  inferInstanceAs (Decidable (_ ∧ _))

/-- The master's register is a lease on the role. -/
abbrev Config.Leased (cfg : Config ι) (role : LcmRole) (n : LcmSys ι) : Prop :=
  Lease.Exclusive (cfg.Holding role n) (cfg.Naming role (cfg.board n))

omit [DecidableEq ι] in
/-- Distinct addresses: a register names at most one slave. -/
theorem Config.Naming.unique (hinj : Function.Injective cfg.addr) {role : LcmRole} {r : Regs}
    {i j : ι} (hi : cfg.Naming role r i) (hj : cfg.Naming role r j) : i = j :=
  hinj (hi.2.symm.trans hj.2)

/-- **A slave in a call** was in it before the step, or the step has brought it in. -/
theorem holding_step {role : LcmRole} (hrole : role = .reqer ∨ role = .reper) {a : LcmAct ι}
    (hs : n.step lcmNode a = some n') {i : ι} (hh : cfg.Holding role n' i) :
    cfg.Holding role n i ∨ (a = .own i .loop ∧ (n.dev i).self.Enters role) := by
  obtain ⟨hi, hh⟩ := hh
  rcases Net.step_dev hs i with he | ⟨o, rfl, ho⟩ | ⟨src, k, keep, msg, rfl, _, hr⟩
  · rw [he] at hh
    exact .inl ⟨hi, hh⟩
  · rcases (node_own ho).holds hrole hh with hold | ⟨rfl, hent⟩
    · exact .inl ⟨hi, hold⟩
    · exact .inr ⟨rfl, hent⟩
  · -- a pull changes no role and no state
    obtain ⟨hro, hst, _⟩ := node_recv_mode hr
    rw [LcmNet.Holds, hro, hst] at hh
    exact .inl ⟨hi, hh⟩

theorem leased_own (hinj : Function.Injective cfg.addr) {role : LcmRole}
    (hrole : role = .reqer ∨ role = .reper) (hn : cfg.Leased role n) {i : ι} {o : Op}
    (hok : cfg.RoleKept role n (.own i o)) (hs : n.step lcmNode (.own i o) = some n') :
    cfg.Leased role n' := by
  rw [Config.Leased, board_own hs]
  by_cases hent : i ≠ cfg.m ∧ o = .loop ∧ (n.dev i).self.Enters role
  · -- the device enters, and the guard says that the master's registers name it
    obtain ⟨him, rfl, hent⟩ := hent
    have hnamed : cfg.Naming role (cfg.board n) i := ⟨him, hok him hent⟩
    refine hn.enter (fun _ _ h1 h2 => h1.unique hinj h2) hnamed ?_
    intro j hj
    rcases holding_step hrole hs hj with hold | ⟨ha, _⟩
    · exact .inl hold
    · exact .inr (Act.own.inj ha).1.symm
  · -- nobody enters
    apply hn.leave
    intro j hj
    rcases holding_step hrole hs hj with hold | ⟨ha, hnew⟩
    · exact hold
    · obtain ⟨rfl, rfl⟩ := Act.own.inj ha
      exact absurd ⟨hj.1, rfl, hnew⟩ hent

theorem leased_deliver {role : LcmRole} (hrole : role = .reqer ∨ role = .reper)
    (hn : cfg.Leased role n) {src dst : ι} {k : Nat} {keep : Bool}
    (hok : cfg.RoleKept role n (.deliver src dst k keep))
    (hs : n.step lcmNode (.deliver src dst k keep) = some n') : cfg.Leased role n' := by
  have hhold : ∀ j, cfg.Holding role n' j → cfg.Holding role n j := by
    intro j hj
    rcases holding_step hrole hs hj with hold | ⟨ha, _⟩
    · exact hold
    · exact absurd ha (by simp)
  apply Lease.Exclusive.leave _ hhold
  by_cases hd : dst = cfg.m
  · -- the registers take the message's names, and the guard says that no other device holds the role
    subst hd
    obtain ⟨msg, _, hget, _, _⟩ := Net.step_deliver.mp hs
    apply hn.rename
    rintro i j hi ⟨hj, hown⟩
    rw [board_deliver hget hs, Regs.merge_owner] at hown
    exact hok rfl msg hget i j hi ⟨hj, hown⟩
  · rw [board_deliver_ne hd hs]
    exact hn

theorem leased_step (hinj : Function.Injective cfg.addr) {role : LcmRole}
    (hrole : role = .reqer ∨ role = .reper) (hn : cfg.Leased role n) {a : LcmAct ι}
    (hok : cfg.RoleKept role n a) (hs : n.step lcmNode a = some n') : cfg.Leased role n' := by
  cases a with
  | own i o => exact leased_own hinj hrole hn hok hs
  | deliver src dst k keep => exact leased_deliver hrole hn hok hs
  | lose src dst k =>
      obtain ⟨_, rfl⟩ := Net.step_lose.mp hs
      exact hn

theorem leased_run (hinj : Function.Injective cfg.addr) {role : LcmRole}
    (hrole : role = .reqer ∨ role = .reper) {ok : LcmSys ι → LcmAct ι → Prop}
    (hok : ∀ n a, ok n a → cfg.RoleKept role n a) (hr : cfg.Run ok acts n) :
    cfg.Leased role n := by
  refine hr.invariant (I := cfg.Leased role) ?_
    fun n a n' hn ha hs => leased_step hinj hrole hn (hok n a ha) hs
  apply Lease.Exclusive.of_free
  rintro i ⟨_, _, hs⟩
  rw [show (cfg.start.dev i).self.lcmState = .idle from (boot_mode cfg i).2] at hs
  simp at hs

/-- **Mutual exclusion of the call roles.** In every run that keeps to the registers of the master, at
    most one slave is in a call as the requester and at most one as the replier. -/
theorem call_roles_exclusive (hinj : Function.Injective cfg.addr)
    (hr : cfg.Run cfg.Arbitrated acts n) {i j : ι} (hi : i ≠ cfg.m) (hj : j ≠ cfg.m) :
    ((n.dev i).self.Holds .reqer → (n.dev j).self.Holds .reqer → i = j) ∧
      ((n.dev i).self.Holds .reper → (n.dev j).self.Holds .reper → i = j) := by
  have hq : cfg.Leased .reqer n := leased_run hinj (.inl rfl) (fun _ _ h => h.1) hr
  have hp : cfg.Leased .reper n := leased_run hinj (.inr rfl) (fun _ _ h => h.2) hr
  exact ⟨fun h1 h2 => hq.one i j ⟨hi, h1⟩ ⟨hj, h2⟩, fun h1 h2 => hp.one i j ⟨hi, h1⟩ ⟨hj, h2⟩⟩

set_option maxRecDepth 10000 in
/-- A call is set up without a race: boards 1 and 2 hold the two roles. -/
theorem call_roles_exclusive_wlan : ∃ n, wlanConfig.Run wlanConfig.Arbitrated Wlan.connected n ∧
    (n.dev 1).self.Holds .reqer ∧ (n.dev 2).self.Holds .reper ∧ ¬ (n.dev 2).self.Holds .reqer := by
  obtain ⟨n, hr, h1, h2⟩ := wlanConfig.run_of_exec wlanConfig.Arbitrated Wlan.connected
    (fun n => (n.dev 1).self.Holds .reqer ∧ (n.dev 2).self.Holds .reper) (by decide)
  have hinj : Function.Injective wlanConfig.addr := by decide
  have hex := (call_roles_exclusive hinj hr (i := 1) (j := 2) (by decide) (by decide)).1
  exact ⟨n, hr, h1, h2, fun h => absurd (hex h1 h) (by decide)⟩

/-- Boards 1 and 2 request at the same time. The master applies the request of board 1, which enters
    `STATE_CALL`; then it applies the request of board 2 over it, and board 2 enters as well. -/
def Wlan.race : List (LcmAct (Fin 4)) :=
  [press 1 .tryReqer, press 2 .tryReqer, beat, hear 1, hear 2, loop 1, loop 2,
    tell 1, hear 1, loop 1, tell 2, hear 2, hear 2, loop 2]

set_option maxRecDepth 10000 in
/-- **Two requesters.** The boards have distinct non-empty addresses, every link is a queue and nothing
    is lost, and still two boards are in `STATE_CALL` as the requester. -/
theorem two_requesters :
    Function.Injective wlanConfig.addr ∧ (∀ i, wlanConfig.addr i ≠ "") ∧
      ∃ n, wlanConfig.Run (fun _ a => wlanConfig.orderly a = true) Wlan.race n ∧
        (n.dev 1).self.lcmRole = .reqer ∧ (n.dev 1).self.lcmState = .call ∧
        (n.dev 2).self.lcmRole = .reqer ∧ (n.dev 2).self.lcmState = .call := by
  refine ⟨by decide, by decide, ?_⟩
  exact wlanConfig.run_of_exec (fun _ a => wlanConfig.orderly a = true) Wlan.race
    (fun n => (n.dev 1).self.lcmRole = .reqer ∧ (n.dev 1).self.lcmState = .call ∧
      (n.dev 2).self.lcmRole = .reqer ∧ (n.dev 2).self.lcmState = .call) (by decide)

end DlsSdk
