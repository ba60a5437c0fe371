import DlsSdk.LcmNet.Relay

/-!
# `LcmNet.Timeout` — giving up a call

A device in `STATE_CALL` counts its waiting, and past 60 it leaves through `lcm_net_try_exit`. The counter
and the way out are said once (`reqerWait_eq`, `reperWait_eq`).

* `giving_up_silent_iff` — whether the step that gives up is silent. The replier's is; the requester's goes on
  to the test for an answer, for there is no `break` after the timeout, and moves `req_state` to
  `STATE_WORK` on its way out.
-/

namespace DlsSdk

open Network Wlan

/-! ## The wait -/

/-- The counter after a reading of the clock. -/
def Host.counted (h : Host) : UInt16 :=
  if h.time - h.self.waitOld > 1 then h.self.waitConut + 1 else h.self.waitConut

/-- The way out past the limit. -/
theorem tryExit_if (h : Host) : (if h.self.waitConut > 60 then lcmNetTryExit h else h) = { h with
    self.lcmState := if h.self.waitConut > 60 then .work else h.self.lcmState
    self.lcmRole := if h.self.waitConut > 60 then .idle else h.self.lcmRole } := by
  by_cases hover : h.self.waitConut > 60
  · simp only [if_pos hover]
    rfl
  · simp only [if_neg hover]

/-- **The requester's wait**: a reading that is counted is also remembered. -/
theorem reqerWait_eq (h : Host) : reqerWait h = { h with
    self.waitNow := h.time
    self.waitConut := h.counted
    self.waitOld := if h.time - h.self.waitOld > 1 then h.time else h.self.waitOld
    self.lcmState := if h.counted > 60 then .work else h.self.lcmState
    self.lcmRole := if h.counted > 60 then .idle else h.self.lcmRole } := by
  unfold reqerWait Host.counted
  dsimp only
  rw [tryExit_if]
  by_cases hlate : h.time - h.self.waitOld > 1
  · simp only [if_pos hlate]
  · simp only [if_neg hlate]

/-- **The replier's wait**: half a second later, and a reading that is counted is not remembered. -/
theorem reperWait_eq (h : Host) : reperWait h = { h.usleep (500 * 1000) with
    self.waitNow := (h.usleep (500 * 1000)).time
    self.waitConut := (h.usleep (500 * 1000)).counted
    self.lcmState := if (h.usleep (500 * 1000)).counted > 60 then .work else h.self.lcmState
    self.lcmRole := if (h.usleep (500 * 1000)).counted > 60 then .idle else h.self.lcmRole } := by
  unfold reperWait
  generalize hg : h.usleep (500 * 1000) = g
  have hself : h.self = g.self := by rw [← hg]; rfl
  rw [hself]
  unfold Host.counted
  dsimp only
  rw [tryExit_if]
  by_cases hlate : g.time - g.self.waitOld > 1
  · simp only [if_pos hlate]
  · simp only [if_neg hlate]

/-- The requester without an answer waits. -/
theorem callLoop_reqerWait {h : Host} (hr : h.self.lcmRole = .reqer) (hw : h.self.waitData = true)
    (hq : h.self.reqState ≠ LcmState.work) (hp : h.self.repState ≠ LcmState.call) :
    lcmNetCallLoop h = reqerWait h := by
  have hgp : (reqerWait h).self.repState ≠ LcmState.call := by
    rw [reqerWait_eq]
    exact hp
  unfold lcmNetCallLoop
  rw [hr]
  dsimp only
  rw [if_pos hw, if_neg hq, if_neg hgp]

/-- The replier waits until the requester is at work. -/
theorem callLoop_reperWait {h : Host} (hr : h.self.lcmRole = .reper) (hw : h.self.waitData = true)
    (hq : h.self.reqState ≠ LcmState.work) : lcmNetCallLoop h = reperWait h := by
  unfold lcmNetCallLoop
  rw [hr]
  dsimp only
  rw [if_pos hw, if_neg hq]

/-- With the call at work the role stays. -/
theorem callLoop_work_role {h : Host} (hq : h.self.reqState = LcmState.work) :
    (lcmNetCallLoop h).self.lcmRole = h.self.lcmRole := by
  by_cases hw : h.self.waitData = true
  · unfold lcmNetCallLoop
    cases hr : h.self.lcmRole <;> dsimp only
    · exact hr
    · exact hr
    · rw [if_pos hw, if_pos hq]
      exact hr
    · rw [if_pos hw, if_pos hq]
      exact hr
  · rw [callLoop_wait hw]

/-! ## Giving up with the answer in sight -/

/-- The requester's counter passes its limit while an answer is there. -/
def Host.LateAnswer (h : Host) : Prop :=
  h.self.lcmRole = .reqer ∧ h.self.waitData = true ∧ h.self.reqState ≠ LcmState.work ∧
    h.self.repState = LcmState.call ∧ h.counted > 60

instance Host.instDecidableLateAnswer (h : Host) : Decidable h.LateAnswer :=
  inferInstanceAs (Decidable (_ ∧ _))

/-- **The step is silent if it gives up**: a device that had a role in the call and leaves it by
    `lcm_net_call_loop` publishes nothing. -/
def SilentExit (h : Host) : Prop :=
  h.self.lcmRole ≠ .idle → (lcmNetCallLoop h).self.lcmRole = .idle →
    (lcmNetCallLoop h).self.lcmState = .work → published (lcmNetCallLoop h).log = published h.log

/-- The requester with an answer, and not at work: wait, and push the move to `STATE_WORK`. -/
theorem callLoop_answered {h : Host} (hr : h.self.lcmRole = .reqer) (hw : h.self.waitData = true)
    (hq : h.self.reqState ≠ LcmState.work) (hp : h.self.repState = LcmState.call) :
    (lcmNetCallLoop h).self.lcmRole = (if h.counted > 60 then .idle else .reqer) ∧
      (lcmNetCallLoop h).self.lcmState = (if h.counted > 60 then .work else h.self.lcmState) ∧
      Published h (lcmNetCallLoop h) (some (PushKind.reqWork.regs h.self.slave h.self.regs)) := by
  have hgp : (reqerWait h).self.repState = LcmState.call := by
    rw [reqerWait_eq]
    exact hp
  have hcall : lcmNetCallLoop h = (lcmNetPush (reqerWait h) (reqerWait h).self.slave
      (reqerWait h).self.repAddr LcmState.work.toUInt8 (reqerWait h).self.repState.toUInt8 0 []).usleep
      (250 * 1000) := by
    unfold lcmNetCallLoop
    rw [hr]
    dsimp only
    rw [if_pos hw, if_neg hq, if_pos hgp]
  have hpub := push_published (reqerWait h) (reqerWait h).self.slave (reqerWait h).self.repAddr
    LcmState.work.toUInt8 (reqerWait h).self.repState.toUInt8 0 []
  rw [hcall]
  refine ⟨?_, ?_, ?_⟩
  · show (reqerWait h).self.lcmRole = _
    rw [reqerWait_eq, ← hr]
  · show (reqerWait h).self.lcmState = _
    rw [reqerWait_eq]
  · have hwaited := reqerWait_waited h
    have hregs : (⟨(reqerWait h).self.slave, (reqerWait h).self.repAddr, LcmState.work.toUInt8.toInt8,
        (reqerWait h).self.repState.toUInt8.toInt8⟩ : Regs) =
        PushKind.reqWork.regs h.self.slave h.self.regs := by
      rw [reqerWait_eq]
      rfl
    rw [hregs] at hpub
    exact Published.of_start (congrArg published hwaited.log) hwaited.frame.ident hpub

theorem silentExit_iff (h : Host) : SilentExit h ↔ ¬ h.LateAnswer := by
  constructor
  · rintro hsilent ⟨hr, hw, hq, hp, hover⟩
    obtain ⟨hrole, hstate, msg, hmsg, -, -⟩ := callLoop_answered hr hw hq hp
    rw [if_pos hover] at hrole hstate
    have hsame := hsilent (by rw [hr]; simp) hrole hstate
    rw [hmsg] at hsame
    exact absurd hsame (by simp)
  · intro hlate hrole hgone _
    by_cases hw : h.self.waitData = true
    · by_cases hq : h.self.reqState = LcmState.work
      · -- whoever goes to work keeps its role
        exact absurd ((callLoop_work_role hq).symm.trans hgone) hrole
      · cases hr : h.self.lcmRole with
        | idle => exact absurd hr hrole
        | null =>
            have hsame : lcmNetCallLoop h = h := by
              unfold lcmNetCallLoop
              rw [hr]
            rw [hsame]
        | reper => rw [callLoop_reperWait hr hw hq, (reperWait_waited h).log]
        | reqer =>
            by_cases hp : h.self.repState = LcmState.call
            · have hover : ¬ h.counted > 60 := fun hc => hlate ⟨hr, hw, hq, hp, hc⟩
              rw [(callLoop_answered hr hw hq hp).1, if_neg hover] at hgone
              exact absurd hgone (by simp)
            · rw [callLoop_reqerWait hr hw hq hp, (reqerWait_waited h).log]
    · rw [callLoop_wait hw]

/-! ## Over whole runs -/

variable {ι : Type} [DecidableEq ι] {cfg : Config ι} {acts : List (LcmAct ι)} {n : LcmSys ι}

/-- **A slave that moves `req_state` to `STATE_WORK` is still the requester** after the step in which it
    publishes the message. -/
def MovesAsReqer (cfg : Config ι) (n : LcmSys ι) (act : LcmAct ι) (n' : LcmSys ι) : Prop :=
  ∀ i, act.mover = some i → i ≠ cfg.m → ∀ p ∈ published (n'.dev i).log,
    p.2.reqState = LcmState.work → (n.dev i).self.reqState ≠ LcmState.work →
    (n'.dev i).self.lcmRole = .reqer

/-- No slave's counter passes its limit while an answer is there. -/
def InTime (cfg : Config ι) (n : LcmSys ι) : LcmAct ι → Prop
  | .own i .loop => i ≠ cfg.m → (n.dev i).self.lcmState = .call → ¬ (n.dev i).LateAnswer
  | _ => True

instance instDecidableInTime (n : LcmSys ι) : (act : LcmAct ι) → Decidable (InTime cfg n act)
  | .own _ .loop => inferInstanceAs (Decidable (_ → _ → _))
  | .own _ (.tick _) => inferInstanceAs (Decidable True)
  | .own _ (.button _) => inferInstanceAs (Decidable True)
  | .own _ .sync => inferInstanceAs (Decidable True)
  | .deliver _ _ _ _ => inferInstanceAs (Decidable True)
  | .lose _ _ _ => inferInstanceAs (Decidable True)

/-- The only push of the state machine that moves `req_state` to `STATE_WORK` is the requester's. -/
theorem PushKind.eq_reqWork {self : LcmNet} {k : PushKind} (hg : k.Guard self)
    (hwork : (k.regs self.slave self.regs).reqState = LcmState.work)
    (hq : self.reqState ≠ LcmState.work) : k = .reqWork := by
  cases k with
  | reqWork => rfl
  | answer | repWork => exact absurd hwork hq
  | request | clear => exact absurd hwork (by simp [PushKind.regs, Regs.cleared])

/-- A slave's step that publishes such a message is `lcm_net_call_loop` of a requester with an answer. -/
theorem moves_cases {i : ι} {o : Op} {h h' : Host} (hid : h.self.ident = cfg.ident i) (hi : i ≠ cfg.m)
    (ho : lcmNode.own h o = some h') {p : String × ExlcmLcmJyt} (hp : p ∈ published h'.log)
    (hwork : p.2.reqState = LcmState.work) (hq : h.self.reqState ≠ LcmState.work) :
    o = .loop ∧ h.self.waitData = true ∧ PushKind.reqWork.Guard h.self := by
  rcases h.pushes_cases ((node_published ho).of_log hp) with ⟨rfl, k, hk, hregs⟩ | ⟨_, hdue, _⟩
  · obtain ⟨hw, hg⟩ := LcmNet.due_guard hk
    have hkwork : (k.regs h.self.slave h.self.regs).reqState = LcmState.work := by
      rw [← hregs]
      exact hwork
    obtain rfl := PushKind.eq_reqWork hg hkwork hq
    exact ⟨rfl, hw, hg⟩
  · exact absurd ((isMaster_iff hid).mp hdue.1) hi

/-- In `STATE_CALL` a step of the state machine is one of `lcm_net_call_loop`. -/
theorem node_callLoop {h h' : Host} (hs : h.self.lcmState = .call) (ho : lcmNode.own h .loop = some h') :
    h' = lcmNetCallLoop h.fresh := by
  have hloop : lcmNetStateLoop h.fresh = some h' := ho
  unfold lcmNetStateLoop at hloop
  rw [show h.fresh.self.lcmState = .call from hs] at hloop
  exact (Option.some.inj hloop).symm

theorem moves_inTime (hid : ∀ i, (n.dev i).self.ident = cfg.ident i) {act : LcmAct ι} {n' : LcmSys ι}
    (hok : InTime cfg n act) (hs : n.step lcmNode act = some n') : MovesAsReqer cfg n act n' := by
  intro i hmover hi p hp hwork hq
  cases act with
  | lose => exact absurd hmover (by simp [Act.mover])
  | deliver src dst k keep =>
      obtain rfl := Option.some.inj hmover
      obtain ⟨msg, h, -, hr, rfl⟩ := Net.step_deliver.mp hs
      rw [Net.post_dev_self] at hp
      -- a slave does not relay
      exact absurd (relays_master (hid dst) ((node_relays hr).of_log hp)) hi
  | own j o =>
      obtain rfl := Option.some.inj hmover
      obtain ⟨h, ho, rfl⟩ := Net.step_own.mp hs
      rw [Net.post_dev_self] at hp ⊢
      obtain ⟨rfl, hw, hro, hst, -, hans⟩ := moves_cases (hid j) hi ho hp hwork hq
      obtain rfl := node_callLoop hst ho
      have hover : ¬ (n.dev j).fresh.counted > 60 := fun hc => hok hi hst ⟨hro, hw, hq, hans, hc⟩
      rw [(callLoop_answered (h := (n.dev j).fresh) hro hw hq hans).1, if_neg hover]

theorem not_moves_late {act : LcmAct ι} {n' : LcmSys ι} (hlate : ¬ InTime cfg n act)
    (hs : n.step lcmNode act = some n') : ¬ MovesAsReqer cfg n act n' := by
  intro hmoves
  apply hlate
  cases act with
  | lose | deliver => exact trivial
  | own i o =>
      cases o with
      | tick | button | sync => exact trivial
      | loop =>
          rintro hi hst ⟨hro, hw, hq, hans, hover⟩
          obtain ⟨h, ho, rfl⟩ := Net.step_own.mp hs
          obtain rfl := node_callLoop hst ho
          obtain ⟨hrole, -, msg, hmsg, -, hregs⟩ :=
            callLoop_answered (h := (n.dev i).fresh) hro hw hq hans
          rw [if_pos (show (n.dev i).fresh.counted > 60 from hover)] at hrole
          have hreqer := hmoves i rfl hi ((n.dev i).fresh.self.pool, msg) (by
            rw [Net.post_dev_self, hmsg]
            simp) (congrArg Regs.reqState hregs) hq
          rw [Net.post_dev_self, hrole] at hreqer
          exact absurd hreqer (by simp)

/-- **When giving up is silent.** The step of `lcm_net_call_loop` by which a device gives up publishes nothing
    if and only if it is not a requester whose counter passes its limit in a step in which the answer is
    there; and in every run, whoever moves `req_state` to `STATE_WORK` is still the requester after it, if
    and only if no slave ever takes such a step. -/
theorem giving_up_silent_iff (hr : cfg.Run (fun _ _ => True) acts n) :
    (∀ h : Host, SilentExit h ↔ ¬ h.LateAnswer) ∧
      (Lts.Steps (Net.step lcmNode) (MovesAsReqer cfg) cfg.start acts ↔ cfg.Run (InTime cfg) acts n) := by
  refine ⟨silentExit_iff, ?_⟩
  refine hr.steps_iff (I := fun n => ∀ i, (n.dev i).self.ident = cfg.ident i) (boot_ident cfg) ?_ ?_
  · intro m act m' hid hok hs
    exact ⟨ident_step hid hs, moves_inTime hid hok hs⟩
  · intro m act m' _ hlate hs
    exact not_moves_late hlate hs

set_option maxRecDepth 10000 in
/-- A whole call set-up, well within time. -/
theorem giving_up_silent_wlan :
    Lts.Steps (Net.step lcmNode) (MovesAsReqer wlanConfig) wlanConfig.start Wlan.connected := by
  obtain ⟨n, hr, -⟩ := wlanConfig.run_of_exec (InTime wlanConfig) Wlan.connected (fun _ => True) (by decide)
  exact (giving_up_silent_iff (hr.mono fun _ _ _ => trivial)).2.mpr hr

/-- Board 1 waits `k` times two seconds. -/
def Wlan.waits : Nat → List (LcmAct (Fin 4))
  | 0 => []
  | k + 1 => Wlan.waits k ++ [.own 1 (.tick (1559098680000000 + 2000000 * (k + 1))), loop 1]

/-- Board 2 answers when board 1 has counted to 60, and board 1 looks at its clock again two seconds after
    that. -/
def Wlan.answeredLate : List (LcmAct (Fin 4)) :=
  requested ++ [hear 1, loop 1] ++ Wlan.waits 60 ++ [press 2 .tryReper, hear 2, hear 2, loop 2, tell 2,
    hear 1, .own 1 (.tick 1559098802000000)]

set_option maxRecDepth 10000 in
/-- **The board that gives up moves the call on**: it ends in `ROLE_IDLE` and `STATE_WORK`, and has published
    `STATE_WORK` in the same step. -/
theorem gives_up_aloud :
    ∃ n n', wlanConfig.Run (fun _ act => wlanConfig.orderly act = true) Wlan.answeredLate n ∧
      n.step lcmNode (loop 1) = some n' ∧ (n.dev 1).self.reqState = LcmState.call ∧
      (n'.dev 1).self.lcmRole = .idle ∧ (n'.dev 1).self.lcmState = .work ∧
      ∃ p ∈ published (n'.dev 1).log, p.2.reqState = LcmState.work := by
  obtain ⟨n, hr, n', hs, hrest⟩ := wlanConfig.run_of_exec (fun _ act => wlanConfig.orderly act = true)
    Wlan.answeredLate
    (fun n => ∃ n' : LcmSys (Fin 4), n' ∈ n.step lcmNode (loop 1) ∧ (n.dev 1).self.reqState = LcmState.call ∧
      (n'.dev 1).self.lcmRole = .idle ∧ (n'.dev 1).self.lcmState = .work ∧
      ∃ p ∈ published (n'.dev 1).log, p.2.reqState = LcmState.work) (by decide)
  exact ⟨n, n', hr, hs, hrest⟩

end DlsSdk
