import DlsSdk.LcmNet.Loop

/-!
# `LcmNet.Registers` — the shared registers and the five pushes

What the devices agree on is the quadruple (`req_addr`, `rep_addr`, `req_state`, `rep_state`). This file
looks at a device and at a message through that quadruple alone: a received message is *merged* into the
registers (`Regs.merge`), and the device's own state machine publishes one of five quadruples
(`PushKind`), each a function of the device's address and registers.

`LcmNet.due` says which of the five, if any, the next step of the state machine publishes; that the loops
of `Loop` publish exactly that is proved in `LoopSpec`.
-/

namespace DlsSdk

/-- The shared registers. -/
structure Regs where
  reqAddr : String
  repAddr : String
  reqState : Int8
  repState : Int8
  deriving DecidableEq, Repr

def LcmNet.regs (self : LcmNet) : Regs :=
  ⟨self.reqAddr, self.repAddr, self.reqState, self.repState⟩

def ExlcmLcmJyt.regs (msg : ExlcmLcmJyt) : Regs :=
  ⟨msg.reqAddr, msg.repAddr, msg.reqState, msg.repState⟩

/-- A message's registers `m` applied to a device's: the addresses always, a state unless it is
    `STATE_NULL`. -/
def Regs.merge (r m : Regs) : Regs where
  reqAddr := m.reqAddr
  repAddr := m.repAddr
  reqState := if LcmState.null ≠ m.reqState then m.reqState else r.reqState
  repState := if LcmState.null ≠ m.repState then m.repState else r.repState

/-- The registers after a hang-up, and before the first call. -/
def Regs.cleared : Regs := ⟨"", "", LcmState.idle, LcmState.idle⟩

@[simp] theorem LcmNet.regs_reqAddr (self : LcmNet) : self.regs.reqAddr = self.reqAddr := rfl
@[simp] theorem LcmNet.regs_repAddr (self : LcmNet) : self.regs.repAddr = self.repAddr := rfl
@[simp] theorem LcmNet.regs_reqState (self : LcmNet) : self.regs.reqState = self.reqState := rfl
@[simp] theorem LcmNet.regs_repState (self : LcmNet) : self.regs.repState = self.repState := rfl

theorem Regs.merge_reqState_of_ne (r : Regs) {m : Regs} (h : m.reqState ≠ LcmState.null) :
    (r.merge m).reqState = m.reqState := if_pos h.symm

theorem Regs.merge_repState_of_ne (r : Regs) {m : Regs} (h : m.repState ≠ LcmState.null) :
    (r.merge m).repState = m.repState := if_pos h.symm

theorem Regs.merge_repState_of_null (r : Regs) {m : Regs} (h : m.repState = LcmState.null) :
    (r.merge m).repState = r.repState := if_neg (fun hn => hn h.symm)

/-- A message without `STATE_NULL` replaces the registers. -/
theorem Regs.merge_full (r : Regs) {m : Regs} (hq : m.reqState ≠ LcmState.null)
    (hp : m.repState ≠ LcmState.null) : r.merge m = m := by
  have h1 := r.merge_reqState_of_ne hq
  have h2 := r.merge_repState_of_ne hp
  cases m
  simp only [Regs.merge, Regs.mk.injEq, true_and] at h1 h2 ⊢
  exact ⟨h1, h2⟩

/-! ## The pushes of the state machine -/

/-- The five pushes: a request and an answer (`lcm_net_idle_loop`), the requester's and the replier's
    move to `STATE_WORK` (`lcm_net_call_loop`), and the clear (`lcm_net_work_loop`). -/
inductive PushKind where
  | request | answer | reqWork | repWork | clear
  deriving DecidableEq, Repr

/-- The registers a push carries, from the pusher's address and its copy `r` of the registers. -/
def PushKind.regs (slave : String) (r : Regs) : PushKind → Regs
  | .request => ⟨slave, r.repAddr, LcmState.call, LcmState.null⟩
  | .answer => ⟨r.reqAddr, slave, r.reqState, LcmState.call⟩
  | .reqWork => ⟨slave, r.repAddr, LcmState.work, r.repState⟩
  | .repWork => ⟨r.reqAddr, slave, r.reqState, LcmState.work⟩
  | .clear => Regs.cleared

/-- The guard of a push, as the branches of the loops have it. -/
def PushKind.Guard (self : LcmNet) : PushKind → Prop
  | .request => self.lcmRole = .reqer ∧ self.lcmState = .idle ∧
      self.reqState = LcmState.idle ∧ self.repState = LcmState.idle
  | .answer => self.lcmRole = .reper ∧ self.lcmState = .idle ∧
      self.reqState = LcmState.call ∧ self.repState = LcmState.idle
  | .reqWork => self.lcmRole = .reqer ∧ self.lcmState = .call ∧
      self.reqState ≠ LcmState.work ∧ self.repState = LcmState.call
  | .repWork => self.lcmRole = .reper ∧ self.lcmState = .call ∧ self.reqState = LcmState.work
  | .clear => self.lcmRole = .idle ∧ self.lcmState = .work

instance (self : LcmNet) : (k : PushKind) → Decidable (k.Guard self)
  | .request => inferInstanceAs (Decidable (_ ∧ _))
  | .answer => inferInstanceAs (Decidable (_ ∧ _))
  | .reqWork => inferInstanceAs (Decidable (_ ∧ _))
  | .repWork => inferInstanceAs (Decidable (_ ∧ _))
  | .clear => inferInstanceAs (Decidable (_ ∧ _))

/-- The push the next step of the state machine makes, if any: nothing before the last push is known to
    be applied (`wait_data`), else the one whose guard holds. -/
def LcmNet.due (self : LcmNet) : Option PushKind :=
  if self.waitData then
    [PushKind.request, .answer, .reqWork, .repWork, .clear].find? fun k => decide (k.Guard self)
  else none

theorem LcmNet.due_guard {self : LcmNet} {k : PushKind} (h : self.due = some k) :
    self.waitData = true ∧ k.Guard self := by
  unfold LcmNet.due at h
  split at h
  · rename_i hw
    exact ⟨hw, by simpa using List.find?_some h⟩
  · exact absurd h (by simp)

/-- The role and the state a push is made in. -/
def PushKind.mode : PushKind → LcmRole × LcmState
  | .request => (.reqer, .idle)
  | .answer => (.reper, .idle)
  | .reqWork => (.reqer, .call)
  | .repWork => (.reper, .call)
  | .clear => (.idle, .work)

theorem PushKind.mode_inj {k l : PushKind} (h : k.mode = l.mode) : k = l := by
  cases k <;> cases l <;> simp [PushKind.mode] at h ⊢

theorem PushKind.Guard.mode {self : LcmNet} {k : PushKind} (hk : k.Guard self) :
    (self.lcmRole, self.lcmState) = k.mode := by
  cases k with
  | clear => exact Prod.ext hk.1 hk.2
  | request | answer | reqWork | repWork => exact Prod.ext hk.1 hk.2.1

/-- No two guards hold together: each role and state has its own push. -/
theorem PushKind.Guard.unique {self : LcmNet} {k l : PushKind} (hk : k.Guard self)
    (hl : l.Guard self) : k = l :=
  PushKind.mode_inj (hk.mode.symm.trans hl.mode)

theorem LcmNet.due_eq_some {self : LcmNet} {k : PushKind} :
    self.due = some k ↔ self.waitData = true ∧ k.Guard self := by
  constructor
  · exact LcmNet.due_guard
  · -- the search finds some guard that holds, and there is only one
    rintro ⟨hw, hk⟩
    have hsome : ([PushKind.request, .answer, .reqWork, .repWork, .clear].find?
        fun k => decide (k.Guard self)).isSome := by
      rw [List.find?_isSome]
      exact ⟨k, by cases k <;> simp, by simpa using hk⟩
    obtain ⟨l, hl⟩ := Option.isSome_iff_exists.mp hsome
    have hg : l.Guard self := by simpa using List.find?_some hl
    unfold LcmNet.due
    rw [if_pos hw, hl, hg.unique hk]

theorem LcmNet.due_eq_none {self : LcmNet} :
    self.due = none ↔ ∀ k : PushKind, self.waitData = true → ¬ k.Guard self := by
  rw [Option.eq_none_iff_forall_ne_some]
  constructor
  · intro h k hw hk; exact h k (LcmNet.due_eq_some.mpr ⟨hw, hk⟩)
  · intro h k hk; exact h k (LcmNet.due_guard hk).1 (LcmNet.due_guard hk).2

/-- Where the push of the role and state cannot be made, nothing is due. -/
theorem LcmNet.due_of_not_guard {self : LcmNet} {k : PushKind}
    (hm : k.mode = (self.lcmRole, self.lcmState)) (hn : ¬ k.Guard self) : self.due = none := by
  refine LcmNet.due_eq_none.mpr fun l _ hl => hn ?_
  rw [PushKind.mode_inj (hm.trans hl.mode)]
  exact hl

/-- In a role and state without a push nothing is due. -/
theorem LcmNet.due_of_no_mode {self : LcmNet} {role : LcmRole} {state : LcmState}
    (hr : self.lcmRole = role) (hs : self.lcmState = state)
    (hn : ∀ k : PushKind, k.mode ≠ (role, state)) : self.due = none := by
  refine LcmNet.due_eq_none.mpr fun k _ hk => hn k ?_
  rw [← hr, ← hs]
  exact hk.mode.symm

end DlsSdk
