import DlsSdk.LcmNet.Media

/-!
# `LcmNet.Machine` — the reachable modes of one device

One device again, driven by anything. Its role and its state are two fields, written by four buttons and three
loops; `hasCase` lists the pairs that the loops can do something with, and no operation leaves them
(`hasCase_step`), so `lcm_net_state_loop` never indexes past its table.

A device gets into a call through registers that name it. Registers come from messages alone, so behind every
call there is the message that named the device (`called_run`); `machine_wellFormed` is the two together.
-/

namespace DlsSdk

/-! ## Roles and states -/

/-- The pairs of a role and a state that the loops have a case for. -/
def hasCase : LcmRole → LcmState → Bool
  | _, .idle => true
  | .reqer, .call | .reper, .call => true
  | .idle, .work | .reqer, .work | .reper, .work => true
  | _, _ => false

/-- The dispatch has no entry for `STATE_NULL`. -/
theorem hasCase_null (role : LcmRole) : hasCase role .null = false := by
  cases role <;> rfl

/-- A device has a call only as one of its parties. -/
theorem named_party {self : LcmNet} {role : LcmRole} (h : self.Named role) :
    role = .reqer ∨ role = .reper := by
  cases role with
  | reqer => exact .inl rfl
  | reper => exact .inr rfl
  | null | idle => exact absurd h id

theorem Trans.hasCase {self : LcmNet} {role : LcmRole} {state : LcmState} {k : Option PushKind}
    {sh : List Event} (h : Trans self role state k sh)
    (hc : DlsSdk.hasCase self.lcmRole self.lcmState = true) : DlsSdk.hasCase role state = true := by
  cases h with
  | stay | push => exact hc
  | enter _ _ _ hn =>
      obtain rfl | rfl := named_party hn
      · rfl
      · rfl
  | join | launchReqer | launchReper | timeout | hangUp | hungUp | ended => rfl

/-- No operation leaves the pairs. -/
theorem hasCase_step {h h' : Host} {a : DevAct} (hc : hasCase h.self.lcmRole h.self.lcmState = true)
    (hs : h.act a = some h') : hasCase h'.self.lcmRole h'.self.lcmState = true := by
  cases a with
  | pull msg =>
      obtain rfl := Option.some.inj hs
      obtain ⟨hr, hst, -⟩ := pull_mode h msg
      rw [hr, hst]
      exact hc
  | own o =>
      cases own_step hs with
      | kept hr hst =>
          rw [hr, hst]
          exact hc
      | loop hk => exact hk.trans.hasCase hc
      | button hp =>
          cases hp with
          | tryInit | tryExit => rfl
          | tryReqer hi | tryReper hi => simp only [hi, hasCase]
          | ignored => exact hc

/-- A step of the state machine is defined in every state but `STATE_NULL`. -/
theorem act_isSome {h : Host} (hs : h.self.lcmState ≠ .null) (a : DevAct) : (h.act a).isSome := by
  cases a with
  | pull msg => rfl
  | own o =>
      cases o with
      | tick | sync | button => rfl
      | loop =>
          show (lcmNetStateLoop h).isSome
          unfold lcmNetStateLoop
          cases hst : h.self.lcmState with
          | idle | call | work => rfl
          | null => exact absurd hst hs

/-! ## What is behind a call -/

/-- The label is the pull of a message. -/
def DevAct.IsPull (a : DevAct) : Prop := ∃ msg, a = .pull msg

/-- Only pulls change the registers; nothing changes the address. -/
theorem act_regs {h h' : Host} {a : DevAct} (hs : h.act a = some h') :
    h'.self.slave = h.self.slave ∧ (a.IsPull ∨ h'.self.regs = h.self.regs) := by
  cases a with
  | pull msg =>
      obtain rfl := Option.some.inj hs
      exact ⟨congrArg Ident.slave (pull_ident h msg), .inl ⟨msg, rfl⟩⟩
  | own o =>
      have hf := own_frame hs
      exact ⟨congrArg Ident.slave hf.ident, .inr hf.regs⟩

/-- The registers name the device, in the role, as a party of a call. -/
def Regs.Names (r : Regs) (slave : String) : LcmRole → Prop
  | .reqer => r.reqAddr = slave ∧ r.reqState = LcmState.call
  | .reper => r.repAddr = slave ∧ r.repState = LcmState.call
  | _ => False

theorem named_iff (self : LcmNet) (role : LcmRole) :
    self.Named role ↔ self.regs.Names self.slave role := by
  cases role <;> exact Iff.rfl

/-- Whoever is in a call after an operation was in it before, or its registers have just named it. -/
theorem holds_act {h h' : Host} {a : DevAct} {role : LcmRole} (hp : role = .reqer ∨ role = .reper)
    (hs : h.act a = some h') (hc : h'.self.Holds role) : h.self.Holds role ∨ h.self.Named role := by
  cases a with
  | pull msg =>
      obtain rfl := Option.some.inj hs
      obtain ⟨hr, hst, -⟩ := pull_mode h msg
      rw [LcmNet.Holds, hr, hst] at hc
      exact .inl hc
  | own o =>
      obtain hold | ⟨-, henters⟩ := (own_step hs).holds hp hc
      · exact .inl hold
      · exact .inr henters.2.2.2

section Runs
variable {ifname master devIp : String} {clock : Int} {as : List DevAct} {h : Host}

/-- The address is the one the device was loaded with. -/
theorem slave_run (hr : (Host.boot ifname master devIp clock).Acts as h) : h.self.slave = devIp := by
  refine hr.invariant (I := fun h => h.self.slave = devIp) (load_slave ifname master devIp clock) ?_
  intro t a u ht _ hs
  rw [(act_regs hs).1, ht]

theorem hasCase_run (hr : (Host.boot ifname master devIp clock).Acts as h) :
    hasCase h.self.lcmRole h.self.lcmState = true := by
  refine hr.invariant (I := fun h => hasCase h.self.lcmRole h.self.lcmState = true) ?_ ?_
  · obtain ⟨hrole, hst⟩ := load_mode ifname master devIp clock
    rw [hrole, hst]
    rfl
  · intro t a u ht _ hs
    exact hasCase_step ht hs

/-- Among the operations `as` there was a pull that left registers which name the device. -/
def Called (ifname master devIp : String) (clock : Int) (as : List DevAct) (role : LcmRole) : Prop :=
  ∃ pre msg g, pre ++ [.pull msg] <+: as ∧ (Host.boot ifname master devIp clock).Acts pre g ∧
    (lcmNetPull g msg).self.regs.Names devIp role

theorem Called.mono {bs : List DevAct} {role : LcmRole} (hc : Called ifname master devIp clock as role)
    (hp : as <+: bs) : Called ifname master devIp clock bs role := by
  obtain ⟨pre, msg, g, hpre, hg, hn⟩ := hc
  exact ⟨pre, msg, g, hpre.trans hp, hg, hn⟩

/-- Registers that name the device come from a message: at the start they name nobody. -/
theorem called_of_named (hown : devIp ≠ "") {role : LcmRole}
    (hr : (Host.boot ifname master devIp clock).Acts as h) (hn : h.self.Named role) :
    Called ifname master devIp clock as role := by
  have hparty := named_party hn
  rw [named_iff, slave_run hr] at hn
  obtain hfirst | ⟨pre, a, g, u, hpre, ⟨msg, rfl⟩, hg, hs, hlast⟩ :=
    hr.wrote (f := fun h => h.self.regs) (W := DevAct.IsPull) fun t a u hs => (act_regs hs).2
  · -- nobody's address is empty
    rw [hfirst, load_regs] at hn
    obtain rfl | rfl := hparty
    · exact absurd hn.1.symm hown
    · exact absurd hn.1.symm hown
  · obtain rfl := Option.some.inj hs
    have hregs : (lcmNetPull g msg).self.regs = h.self.regs := hlast
    refine ⟨pre, msg, g, hpre, hg, ?_⟩
    rw [hregs]
    exact hn

/-- **Behind every call there is a message** that named the device in its role. -/
theorem called_run (hown : devIp ≠ "") {role : LcmRole} (hp : role = .reqer ∨ role = .reper)
    (hr : (Host.boot ifname master devIp clock).Acts as h) (hc : h.self.Holds role) :
    Called ifname master devIp clock as role := by
  induction hr with
  | nil =>
      have hst := hc.2
      rw [(load_mode ifname master devIp clock).2] at hst
      simp at hst
  | @snoc as t a u hr _ hs ih =>
      -- the device was in the call before the last step, or its registers named it then
      obtain hbefore | hn := holds_act hp hs hc
      · exact (ih hbefore).mono (List.prefix_append as [a])
      · exact (called_of_named hown hr hn).mono (List.prefix_append as [a])

/-- **Well-formedness of the state machine.** Whatever happens to a device with an address of its own: its
    state is never `STATE_NULL`, so every operation is defined; its role and state are never a pair the loops
    have no case for; and if it is in `STATE_CALL` or `STATE_WORK` as requester (as replier), then it has
    pulled a message that left `req_addr` (`rep_addr`) at its own address and `req_state` (`rep_state`) at
    `STATE_CALL`. -/
theorem machine_wellFormed (hown : devIp ≠ "")
    (hr : (Host.boot ifname master devIp clock).Acts as h) :
    (h.self.lcmState ≠ .null ∧ ∀ a, (h.act a).isSome) ∧
    ((h.self.lcmRole, h.self.lcmState) ≠ (.null, .call) ∧
      (h.self.lcmRole, h.self.lcmState) ≠ (.idle, .call) ∧
      (h.self.lcmRole, h.self.lcmState) ≠ (.null, .work)) ∧
    (h.self.lcmState = .call ∨ h.self.lcmState = .work →
      (h.self.lcmRole = .reqer → ∃ pre msg g, pre ++ [.pull msg] <+: as ∧
        (Host.boot ifname master devIp clock).Acts pre g ∧
        (lcmNetPull g msg).self.reqAddr = devIp ∧
        (lcmNetPull g msg).self.reqState = LcmState.call) ∧
      (h.self.lcmRole = .reper → ∃ pre msg g, pre ++ [.pull msg] <+: as ∧
        (Host.boot ifname master devIp clock).Acts pre g ∧
        (lcmNetPull g msg).self.repAddr = devIp ∧
        (lcmNetPull g msg).self.repState = LcmState.call)) := by
  have hpair : ∀ role state, hasCase role state = false →
      (h.self.lcmRole, h.self.lcmState) ≠ (role, state) := by
    intro role state hno heq
    obtain ⟨hrole, hst⟩ := Prod.mk.inj heq
    have hcase := hasCase_run hr
    rw [hrole, hst, hno] at hcase
    exact absurd hcase (by simp)
  have hnull : h.self.lcmState ≠ .null := by
    intro hs
    exact hpair h.self.lcmRole .null (hasCase_null _) (by rw [hs])
  refine ⟨⟨hnull, act_isSome hnull⟩, ⟨hpair _ _ rfl, hpair _ _ rfl, hpair _ _ rfl⟩,
    fun hst => ⟨fun hrole => ?_, fun hrole => ?_⟩⟩
  · exact called_run hown (.inl rfl) hr ⟨hrole, hst⟩
  · exact called_run hown (.inr rfl) hr ⟨hrole, hst⟩

end Runs

set_option maxRecDepth 10000 in
/-- Board 1 at work in its call: the message that called it is among those it has pulled. -/
theorem machine_called : ∃ h, Wlan.board1.Acts Wlan.calls h ∧ h.self.lcmState = .work ∧
    ∃ pre msg g, pre ++ [.pull msg] <+: Wlan.calls ∧ Wlan.board1.Acts pre g ∧
      (lcmNetPull g msg).self.reqAddr = "192.168.137.101" ∧
      (lcmNetPull g msg).self.reqState = LcmState.call := by
  obtain ⟨h, hr, hst, hrole⟩ := Wlan.board1.acts_of_exec Wlan.calls
    (fun h => h.self.lcmState = .work ∧ h.self.lcmRole = .reqer) (by decide)
  exact ⟨h, hr, hst, ((machine_wellFormed (by decide) hr).2.2 (.inr hst)).1 hrole⟩

end DlsSdk
