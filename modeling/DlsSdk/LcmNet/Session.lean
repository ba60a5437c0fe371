import DlsSdk.LcmNet.Coherence
import DlsSdk.LcmNet.Relay

/-!
# `LcmNet.Session` — whose session a device joins

`lcm_net_idle_loop` compares the registers with the own address on the way into `STATE_CALL`;
`lcm_net_call_loop` launches as soon as `req_state` says `STATE_WORK`, without looking at the address
again. Meanwhile a pull may replace the addresses, so a device that waits in `STATE_CALL` can launch for
a session of others (`joins_foreign_session`).

`OwnSession` says that registers at work name the device. It is kept by everything but a pull of other
devices' registers at work (`ownSession_run`). Where the device's step of the state machine comes right behind such a
pull, it launches with a foreign address (`launches_own_session`); another pull in between may take the registers
back.
-/

namespace DlsSdk

open Network Wlan

/-- If the device waits in `STATE_CALL` and the registers `r` say that the requester is at work, they
    name the device for its role. -/
def LcmNet.OwnSession (self : LcmNet) (r : Regs) : Prop :=
  self.lcmState = .call → r.reqState = LcmState.work →
    (self.lcmRole = .reqer → r.reqAddr = self.slave) ∧
      (self.lcmRole = .reper → r.repAddr = self.slave)

instance (self : LcmNet) (r : Regs) : Decidable (self.OwnSession r) :=
  inferInstanceAs (Decidable (_ → _ → _ ∧ _))

/-- A device that has just been named is in its own session, at work or not. -/
theorem LcmNet.Named.ownSession {self next : LcmNet} (hn : self.Named next.lcmRole)
    (hf : SameFrame self next) : next.OwnSession next.regs := by
  intro _ _
  have hreq : next.reqAddr = self.reqAddr := congrArg Regs.reqAddr hf.regs
  have hrep : next.repAddr = self.repAddr := congrArg Regs.repAddr hf.regs
  have hsl : next.slave = self.slave := congrArg Ident.slave hf.ident
  constructor
  · intro hr
    rw [hr] at hn
    show next.reqAddr = next.slave
    rw [hreq, hsl]
    exact hn.1
  · intro hr
    rw [hr] at hn
    show next.repAddr = next.slave
    rw [hrep, hsl]
    exact hn.1

/-- **Own operations keep the own session.** Only `lcm_net_idle_loop` leads into `STATE_CALL`. -/
theorem ownSession_own {h h' : Host} {o : Op} (ho : lcmNode.own h o = some h')
    (hn : h.self.OwnSession h.self.regs) : h'.self.OwnSession h'.self.regs := by
  intro hs hq
  have hf := node_frame ho
  rcases node_call ho hs with ⟨hs', hr'⟩ | ⟨rfl, hent⟩
  · -- the device was in `STATE_CALL` already
    rw [hf.regs] at hq ⊢
    rw [hr', show h'.self.slave = h.self.slave from congrArg Ident.slave hf.ident]
    exact hn hs' hq
  · exact hent.2.2.2.ownSession hf hs hq

/-- A pull takes the message's request half: no message has `STATE_NULL` there. -/
theorem ownSession_pull {h h' : Host} {msg : ExlcmLcmJyt} (hr : lcmNode.recv h msg = some h')
    (hnull : msg.regs.reqState ≠ LcmState.null) (hm : h.self.OwnSession msg.regs) :
    h'.self.OwnSession h'.self.regs := by
  intro hs hq
  obtain ⟨hro, hst, _⟩ := node_recv_mode hr
  rw [node_merge hr, Regs.merge_reqState_of_ne _ hnull] at hq
  rw [hst] at hs
  rw [node_merge hr, hro,
    show h'.self.slave = h.self.slave from congrArg Ident.slave (node_recv_ident hr)]
  exact hm hs hq

variable {ι : Type} [DecidableEq ι] {cfg : Config ι} {ok : LcmSys ι → LcmAct ι → Prop}
  {acts : List (LcmAct ι)} {n : LcmSys ι}

/-- No device that waits in `STATE_CALL` pulls the registers of other devices at work. -/
def SessionKept (n : LcmSys ι) : LcmAct ι → Prop
  | .deliver src dst k _ => ∀ msg ∈ (n.link src dst)[k]?, (n.dev dst).self.OwnSession msg.regs
  | _ => True

instance : (a : LcmAct ι) → Decidable (SessionKept n a)
  | .deliver _ _ _ _ => inferInstanceAs (Decidable (∀ msg ∈ _, _))
  | .own _ _ => inferInstanceAs (Decidable True)
  | .lose _ _ _ => inferInstanceAs (Decidable True)

theorem ownSession_step {n' : LcmSys ι} {a : LcmAct ι} (hnull : NoNullSys n)
    (hn : ∀ i, (n.dev i).self.OwnSession (n.dev i).self.regs) (hok : SessionKept n a)
    (hs : n.step lcmNode a = some n') : ∀ i, (n'.dev i).self.OwnSession (n'.dev i).self.regs := by
  intro j
  rcases Net.step_dev hs j with he | ⟨o, rfl, ho⟩ | ⟨src, k, keep, msg, rfl, hget, hr⟩
  · rw [he]
    exact hn j
  · exact ownSession_own ho (hn j)
  · exact ownSession_pull hr (hnull.link src j msg (List.mem_of_getElem? hget)) (hok msg hget)

theorem ownSession_run (hok : ∀ n a, ok n a → SessionKept n a) (hr : cfg.Run ok acts n) :
    ∀ i, (n.dev i).self.OwnSession (n.dev i).self.regs := by
  refine hr.invariant_since (J := NoNullSys) ?_ (fun _ _ h => noNull_run h)
    fun n a n' hnull hn ha hs => ownSession_step hnull hn (hok n a ha) hs
  intro i hs
  rw [show (cfg.start.dev i).self.lcmState = .idle from (boot_mode cfg i).2] at hs
  simp at hs

/-- The step of device `i` from `n` to `n'` launches, and the register of its role holds an address that
    is not its own. -/
def Config.ForeignLaunch (cfg : Config ι) (n n' : LcmSys ι) (i : ι) : Prop :=
  (∃ e ∈ (n'.dev i).log, e.isLaunch = true) ∧
    (((n.dev i).self.lcmRole = .reqer ∧ (n.dev i).self.reqAddr ≠ cfg.addr i) ∨
      ((n.dev i).self.lcmRole = .reper ∧ (n.dev i).self.repAddr ≠ cfg.addr i))

theorem not_foreignLaunch {n' : LcmSys ι} {i : ι} (hid : (n.dev i).self.slave = cfg.addr i)
    (hn : (n.dev i).self.OwnSession (n.dev i).self.regs)
    (hs : n.step lcmNode (.own i .loop) = some n') : ¬ cfg.ForeignLaunch n n' i := by
  rintro ⟨⟨e, hm, he⟩, hfor⟩
  obtain ⟨h, ho, rfl⟩ := Net.step_own.mp hs
  rw [Net.post_dev_self] at hm
  have hl := node_launch ho he hm
  obtain ⟨hreq, hrep⟩ := hn hl.state hl.work
  rw [hid] at hreq hrep
  rcases hfor with ⟨hr, ha⟩ | ⟨hr, ha⟩
  · exact ha (hreq hr)
  · exact ha (hrep hr)

/-- A pull of other devices' registers at work: the next step of the device launches for them. -/
theorem foreignLaunch_of_pull {src i : ι} {k : Nat} {keep : Bool} {n' n'' : LcmSys ι}
    (hnull : NoNullSys n) (hid : (n.dev i).self.slave = cfg.addr i)
    (hbad : ¬ SessionKept n (.deliver src i k keep))
    (hs : n.step lcmNode (.deliver src i k keep) = some n')
    (hs' : n'.step lcmNode (.own i .loop) = some n'') : cfg.ForeignLaunch n' n'' i := by
  obtain ⟨msg, h, hget, hr, rfl⟩ := Net.step_deliver.mp hs
  obtain ⟨h', ho, rfl⟩ := Net.step_own.mp hs'
  rw [Net.post_dev_self] at ho
  obtain ⟨hro, hst, hw⟩ := node_recv_mode hr
  -- the device waits in `STATE_CALL`, the requester is at work, and the address is somebody else's
  have hbad' : ¬ (n.dev i).self.OwnSession msg.regs := by
    intro hm
    apply hbad
    intro msg' hget'
    obtain rfl := Option.some.inj (hget.symm.trans hget')
    exact hm
  simp only [LcmNet.OwnSession, Classical.not_imp] at hbad'
  obtain ⟨hcall, hwork, hfor⟩ := hbad'
  have hq : h.self.reqState = LcmState.work := by
    have hmerge := congrArg Regs.reqState (node_merge hr)
    rw [Regs.merge_reqState_of_ne _ (hnull.link src i msg (List.mem_of_getElem? hget))] at hmerge
    exact hmerge.trans hwork
  have hreq : h.self.reqAddr = msg.regs.reqAddr := congrArg Regs.reqAddr (node_merge hr)
  have hrep : h.self.repAddr = msg.regs.repAddr := congrArg Regs.repAddr (node_merge hr)
  have hrole : h.self.lcmRole = .reqer ∧ h.self.reqAddr ≠ cfg.addr i ∨
      h.self.lcmRole = .reper ∧ h.self.repAddr ≠ cfg.addr i := by
    rw [hro, hreq, hrep, ← hid]
    by_cases h1 : (n.dev i).self.lcmRole = .reqer
    · left
      refine ⟨h1, ?_⟩
      intro ha
      exact hfor ⟨fun _ => ha, fun h2 => absurd (h1.symm.trans h2) (by simp)⟩
    · by_cases h2 : (n.dev i).self.lcmRole = .reper
      · exact .inr ⟨h2, fun ha => hfor ⟨fun h => absurd h h1, fun _ => ha⟩⟩
      · exact absurd ⟨fun h => absurd h h1, fun h => absurd h h2⟩ hfor
  constructor
  · obtain ⟨g, e, hg, he, hm⟩ := stateLoop_launch (h := h.fresh) hw (hst.trans hcall)
      (hrole.imp And.left And.left) hq
    obtain rfl := Option.some.inj (hg.symm.trans ho)
    exact ⟨e, by rw [Net.post_dev_self]; exact hm, he⟩
  · rw [Net.post_dev_self]
    exact hrole

/-- **A device joins only its own session**, in every run in which no device that waits in `STATE_CALL`
    pulls registers at work that name others; and a step right behind such a pull launches for them. -/
theorem launches_own_session :
    (∀ acts n, cfg.Run (fun n a => cfg.pureRelay a = true ∧ SessionKept n a) acts n →
      ∀ i n', n.step lcmNode (.own i .loop) = some n' → ¬ cfg.ForeignLaunch n n' i) ∧
    (∀ acts n, cfg.Run (fun _ a => cfg.pureRelay a = true) acts n →
      ∀ src i k keep n' n'', ¬ SessionKept n (.deliver src i k keep) →
        n.step lcmNode (.deliver src i k keep) = some n' →
        n'.step lcmNode (.own i .loop) = some n'' → cfg.ForeignLaunch n' n'' i) := by
  constructor
  · intro acts n hr i n' hs
    have hid : (n.dev i).self.slave = cfg.addr i := device_slave hr i
    exact not_foreignLaunch hid (ownSession_run (fun _ _ h => h.2) hr i) hs
  · intro acts n hr src i k keep n' n'' hbad hs hs'
    have hid : (n.dev i).self.slave = cfg.addr i := device_slave hr i
    exact foreignLaunch_of_pull (noNull_run hr) hid hbad hs hs'

set_option maxRecDepth 10000 in
/-- A call that is set up without a race: board 1 launches, for its own session. -/
theorem launches_own_session_wlan : ∃ n n', wlanConfig.Run
      (fun n a => wlanConfig.pureRelay a = true ∧ SessionKept n a) (connected ++ [hear 1]) n ∧
    n.step lcmNode (loop 1) = some n' ∧ (∃ e ∈ (n'.dev 1).log, e.isLaunch = true) ∧
    ¬ wlanConfig.ForeignLaunch n n' 1 := by
  obtain ⟨n, hr, n', hs, hlaunch⟩ := wlanConfig.run_of_exec
    (fun n a => wlanConfig.pureRelay a = true ∧ SessionKept n a) (connected ++ [hear 1])
    (fun n => ∃ n' : LcmSys (Fin 4), n' ∈ n.step lcmNode (loop 1) ∧
      ∃ e ∈ (n'.dev 1).log, e.isLaunch = true) (by decide)
  exact ⟨n, n', hr, hs, hlaunch, launches_own_session.1 _ n hr 1 n' hs⟩

/-- Boards 1 and 2 race for the requester's role, board 3 answers board 2, and board 1, which still waits
    in `STATE_CALL`, sees board 2 move to `STATE_WORK`. -/
def Wlan.overtaken : List (LcmAct (Fin 4)) :=
  [press 1 .tryReqer, press 2 .tryReqer, beat, hear 1, hear 2, loop 1, loop 2,
    tell 1, hear 1, loop 1, tell 2, hear 2, hear 2, loop 2,
    press 3 .tryReper, hear 3, hear 3, hear 3, loop 3, tell 3, hear 2, loop 2, tell 2,
    hear 1, hear 1, hear 1]

set_option maxRecDepth 10000 in
/-- **A foreign session.** Board 1 launches with board 2's address as the requester's. -/
theorem joins_foreign_session :
    Function.Injective wlanConfig.addr ∧ (∀ i, wlanConfig.addr i ≠ "") ∧
      ∃ n n', wlanConfig.Run (fun _ a => wlanConfig.orderly a = true) Wlan.overtaken n ∧
        n.step lcmNode (loop 1) = some n' ∧ (n.dev 1).self.lcmRole = .reqer ∧
        (n.dev 1).self.reqAddr = wlanConfig.addr 2 ∧ ∃ e ∈ (n'.dev 1).log, e.isLaunch = true := by
  obtain ⟨n, hr, n', hs, hlaunch⟩ := wlanConfig.run_of_exec
    (fun _ a => wlanConfig.orderly a = true) Wlan.overtaken
    (fun n => ∃ n' : LcmSys (Fin 4), n' ∈ n.step lcmNode (loop 1) ∧
      (n.dev 1).self.lcmRole = .reqer ∧ (n.dev 1).self.reqAddr = wlanConfig.addr 2 ∧
        ∃ e ∈ (n'.dev 1).log, e.isLaunch = true) (by decide)
  exact ⟨by decide, by decide, n, n', hr, hs, hlaunch⟩

end DlsSdk
