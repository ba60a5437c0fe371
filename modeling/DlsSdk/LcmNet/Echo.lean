import DlsSdk.LcmNet.Coherence
import DlsSdk.LcmNet.Relay

/-!
# `LcmNet.Echo` — the clears of one hang-up

Whoever is in (`ROLE_IDLE`, `STATE_WORK`) pushes the cleared quadruple, and repeats it with every step
until its own copy of the registers is clear; the other participants of the call, seeing its end, do the
same. A clear names no session, so one that arrives after the next request erases the next session
(`next_session_erased`).

`Config.Standing` is a session that no clear threatens: none is on its way to the master and nobody is
about to push one. A request that is applied after the last echo sets it up (`standing_request`), and only
`lcm_net_try_exit` ends it (`standing_step`).
-/

namespace DlsSdk

open Network Wlan

variable {ι : Type} [DecidableEq ι] {cfg : Config ι} {acts : List (LcmAct ι)} {n n' : LcmSys ι}

/-- The device is on its way out of a call: every step of it pushes a clear. -/
def LcmNet.Leaving (self : LcmNet) : Prop := self.lcmRole = .idle ∧ self.lcmState = .work

instance (self : LcmNet) : Decidable self.Leaving := inferInstanceAs (Decidable (_ ∧ _))

/-- The step executes `lcm_net_try_exit`: the button, or the timeout of `lcm_net_call_loop`, which is the
    only way from `STATE_CALL` to (`ROLE_IDLE`, `STATE_WORK`). -/
def Exits (n : LcmSys ι) : LcmAct ι → Prop
  | .own _ (.button .tryExit) => True
  | .own i .loop => (n.dev i).self.lcmState = .call ∧
      ∃ h ∈ lcmNetStateLoop (n.dev i).fresh, h.self.Leaving
  | _ => False

instance : (a : LcmAct ι) → Decidable (Exits n a)
  | .own _ .loop => inferInstanceAs (Decidable (_ ∧ ∃ h ∈ _, _))
  | .own _ (.tick _) => inferInstanceAs (Decidable False)
  | .own _ (.button .tryExit) => inferInstanceAs (Decidable True)
  | .own _ (.button .tryInit) => inferInstanceAs (Decidable False)
  | .own _ (.button .tryReqer) => inferInstanceAs (Decidable False)
  | .own _ (.button .tryReper) => inferInstanceAs (Decidable False)
  | .own _ .sync => inferInstanceAs (Decidable False)
  | .deliver _ _ _ _ => inferInstanceAs (Decidable False)
  | .lose _ _ _ => inferInstanceAs (Decidable False)

/-- The step does not let a clear of the old session meet the next one: a request is applied only when no
    clear is in flight to the master and no device is on its way out, and a participant that sees the end
    of its call starts its own way out only while the master's registers are clear. -/
def Config.HangUpOver (cfg : Config ι) (n : LcmSys ι) : LcmAct ι → Prop
  | .own i .loop => (n.dev i).self.waitData = true → (n.dev i).self.lcmState = .work →
      (n.dev i).self.Over (n.dev i).self.lcmRole → cfg.board n = Regs.cleared
  | .deliver src dst k _ => dst = cfg.m → ∀ msg ∈ (n.link src dst)[k]?,
      msg.repState = LcmState.null →
        cfg.Inbox (fun r => r ≠ Regs.cleared) n ∧ ∀ i, ¬ (n.dev i).self.Leaving
  | _ => True

instance (self : LcmNet) : (role : LcmRole) → Decidable (self.Over role)
  | .reqer => inferInstanceAs (Decidable (_ = _))
  | .reper => inferInstanceAs (Decidable (_ = _))
  | .null => inferInstanceAs (Decidable False)
  | .idle => inferInstanceAs (Decidable False)

instance [Fintype ι] : (a : LcmAct ι) → Decidable (cfg.HangUpOver n a)
  | .own _ .loop => inferInstanceAs (Decidable (_ → _ → _ → _))
  | .own _ (.tick _) => inferInstanceAs (Decidable True)
  | .own _ (.button _) => inferInstanceAs (Decidable True)
  | .own _ .sync => inferInstanceAs (Decidable True)
  | .deliver _ _ _ _ => inferInstanceAs (Decidable (_ → ∀ msg ∈ _, _ → _ ∧ _))
  | .lose _ _ _ => inferInstanceAs (Decidable True)

/-- A session that nobody hangs up: the master's registers are not clear, no clear is on its way to them,
    and no device is on its way out. -/
structure Config.Standing (cfg : Config ι) (n : LcmSys ι) : Prop where
  board : cfg.board n ≠ Regs.cleared
  inbox : cfg.Inbox (fun r => r ≠ Regs.cleared) n
  staying : ∀ i, ¬ (n.dev i).self.Leaving

/-- Only a device on its way out pushes a clear. -/
theorem PushKind.Guard.regs_ne_cleared {self : LcmNet} {k : PushKind} (hg : k.Guard self)
    (hl : ¬ self.Leaving) : k.regs self.slave self.regs ≠ Regs.cleared := by
  intro hc
  have hq := congrArg Regs.reqState hc
  cases k with
  | request => simp [PushKind.regs, Regs.cleared] at hq
  | answer =>
      rw [show (PushKind.answer.regs self.slave self.regs).reqState = LcmState.call from hg.2.2.1] at hq
      simp [Regs.cleared] at hq
  | reqWork => simp [PushKind.regs, Regs.cleared] at hq
  | repWork =>
      rw [show (PushKind.repWork.regs self.slave self.regs).reqState = LcmState.work from hg.2.2] at hq
      simp [Regs.cleared] at hq
  | clear => exact hl hg

/-- In `STATE_WORK` a button other than `lcm_net_try_exit` and `lcm_net_try_init` does nothing. -/
theorem Pressed.work {h h' : Host} {b : Button} (hp : Pressed h b h') (hb : b ≠ .tryExit)
    (hs : h'.self.lcmState = .work) : h' = h := by
  cases hp with
  | tryExit => exact absurd rfl hb
  | tryInit => simp at hs
  | tryReqer hi | tryReper hi => simp [hi] at hs
  | ignored => rfl

omit [DecidableEq ι] in
/-- **Nobody starts to leave** a standing session without `lcm_net_try_exit`. -/
theorem staying_own {i : ι} {o : Op} {h : Host} (hn : cfg.Standing n)
    (hok : cfg.HangUpOver n (.own i o)) (hex : ¬ Exits n (.own i o))
    (ho : lcmNode.own (n.dev i) o = some h) : ¬ h.self.Leaving := by
  intro hleave
  have hbefore := hn.staying i
  cases node_own ho with
  | kept hr hs => exact hbefore ⟨hr.symm.trans hleave.1, hs.symm.trans hleave.2⟩
  | @button b hp =>
      have hb : b ≠ .tryExit := by
        rintro rfl
        exact hex trivial
      rw [hp.work hb hleave.2] at hleave
      exact hbefore hleave
  | loop hk =>
      have ht := hk.trans
      obtain ⟨hrole, hstate⟩ := hleave
      generalize hro : h.self.lcmRole = role at ht hrole
      generalize hst : h.self.lcmState = state at ht hstate
      cases ht with
      | stay => exact hbefore ⟨hrole, hstate⟩
      | push => exact hbefore ⟨hrole, hstate⟩
      | timeout _ _ hs =>
          -- the wait ends in `lcm_net_try_exit`
          exact hex ⟨hs, h, ho, hro, hst⟩
      | hangUp _ hr hs => exact hbefore ⟨hr, hs⟩
      | hungUp _ hr hs => exact hbefore ⟨hr, hs⟩
      | ended hw hr hs he =>
          -- the guard allows this on clear registers only
          exact hn.board (hok hw hs (hr ▸ he))
      | join | enter | launchReqer | launchReper => simp at hrole hstate

theorem standing_own {i : ι} {o : Op} (hid : ∀ i, (n.dev i).self.ident = cfg.ident i)
    (hn : cfg.Standing n) (hok : cfg.HangUpOver n (.own i o)) (hex : ¬ Exits n (.own i o))
    (hs : n.step lcmNode (.own i o) = some n') : cfg.Standing n' := by
  constructor
  · rw [board_own hs]
    exact hn.board
  · refine hn.inbox.step hid ?_ (by simp) hs
    rintro i' o' ha r hp
    obtain ⟨rfl, rfl⟩ := Act.own.inj ha
    rcases (n.dev i).pushes_cases hp with ⟨rfl, k, hk, rfl⟩ | ⟨rfl, _, _⟩
    · exact (LcmNet.due_guard hk).2.regs_ne_cleared (hn.staying i)
    · rw [pushes_sync (hid i) hp]
      exact hn.board
  · intro j
    rcases Net.step_dev hs j with he | ⟨o', ha, ho⟩ | ⟨_, _, _, _, ha, _⟩
    · rw [he]
      exact hn.staying j
    · obtain ⟨rfl, rfl⟩ := Act.own.inj ha
      exact staying_own hn hok hex ho
    · exact absurd ha (by simp)

/-- A pull changes neither role nor state, so nobody starts to leave. -/
theorem staying_deliver {src dst : ι} {k : Nat} {keep : Bool}
    (hn : ∀ i, ¬ (n.dev i).self.Leaving)
    (hs : n.step lcmNode (.deliver src dst k keep) = some n') : ∀ i, ¬ (n'.dev i).self.Leaving := by
  intro j hleave
  rcases Net.step_dev hs j with he | ⟨_, ha, _⟩ | ⟨_, _, _, _, _, _, hr⟩
  · rw [he] at hleave
    exact hn j hleave
  · exact absurd ha (by simp)
  · obtain ⟨hro, hst, _⟩ := node_recv_mode hr
    exact hn j ⟨hro.symm.trans hleave.1, hst.symm.trans hleave.2⟩

/-- A message other than a clear does not clear the registers. -/
theorem Admissible.merge_ne_cleared {r m : Regs} (hm : Admissible m) (hne : m ≠ Regs.cleared) :
    r.merge m ≠ Regs.cleared := by
  rcases hm with hc | hreq
  · rw [r.merge_full hc.reqNotNull hc.repNotNull]
    exact hne
  · -- a request leaves `req_state` at `STATE_CALL`
    intro hcl
    have hq := congrArg Regs.reqState hcl
    rw [r.merge_reqState_of_ne (by rw [hreq.call]; simp), hreq.call] at hq
    simp [Regs.cleared] at hq

theorem standing_deliver {src dst : ι} {k : Nat} {keep : Bool}
    (hid : ∀ i, (n.dev i).self.ident = cfg.ident i) (hco : CoherentSys cfg n) (hn : cfg.Standing n)
    (hs : n.step lcmNode (.deliver src dst k keep) = some n') : cfg.Standing n' := by
  have hboard : cfg.board n' ≠ Regs.cleared := by
    by_cases hd : dst = cfg.m
    · subst hd
      obtain ⟨msg, _, hget, _, _⟩ := Net.step_deliver.mp hs
      have hmem := List.mem_of_getElem? hget
      rw [board_deliver hget hs]
      exact (hco.link src cfg.m msg hmem).merge_ne_cleared (hn.inbox src msg hmem)
    · rw [board_deliver_ne hd hs]
      exact hn.board
  constructor
  · exact hboard
  · exact hn.inbox.step hid (by simp) (fun _ _ _ _ => hboard) hs
  · exact staying_deliver hn.staying hs

theorem standing_step {a : LcmAct ι} (hid : ∀ i, (n.dev i).self.ident = cfg.ident i)
    (hco : CoherentSys cfg n) (hn : cfg.Standing n) (hok : cfg.HangUpOver n a) (hex : ¬ Exits n a)
    (hs : n.step lcmNode a = some n') : cfg.Standing n' := by
  cases a with
  | own i o => exact standing_own hid hn hok hex hs
  | deliver src dst k keep => exact standing_deliver hid hco hn hs
  | lose src dst k =>
      have hinbox := hn.inbox.step hid (by simp) (by simp) hs
      obtain ⟨_, rfl⟩ := Net.step_lose.mp hs
      exact ⟨hn.board, hinbox, hn.staying⟩

/-- A request that is applied when the old session is over sets up a standing one. -/
theorem standing_request {src : ι} {k : Nat} {keep : Bool} {msg : ExlcmLcmJyt}
    (hid : ∀ i, (n.dev i).self.ident = cfg.ident i) (hget : (n.link src cfg.m)[k]? = some msg)
    (hreq : msg.reqState = LcmState.call ∧ msg.repState = LcmState.null)
    (hok : cfg.HangUpOver n (.deliver src cfg.m k keep))
    (hs : n.step lcmNode (.deliver src cfg.m k keep) = some n') : cfg.Standing n' := by
  obtain ⟨hinbox, hstay⟩ := hok rfl msg hget hreq.2
  have hboard : cfg.board n' ≠ Regs.cleared := by
    rw [board_deliver hget hs]
    intro hcl
    have hq := congrArg Regs.reqState hcl
    have hcall : msg.regs.reqState = LcmState.call := hreq.1
    rw [Regs.merge_reqState_of_ne _ (by rw [hcall]; simp), hcall] at hq
    simp [Regs.cleared] at hq
  constructor
  · exact hboard
  · exact hinbox.step hid (by simp) (fun _ _ _ _ => hboard) hs
  · exact staying_deliver hstay hs

/-- The steps of a run in which the old session is over before the next one begins. -/
abbrev Config.NoEcho (cfg : Config ι) (n : LcmSys ι) (a : LcmAct ι) : Prop :=
  cfg.pureRelay a = true ∧ cfg.HangUpOver n a

/-- **A hang-up ends only the session it was meant for.** Once the master has applied a request, its
    registers are not cleared again without a `lcm_net_try_exit`, if no clear of the old session is on
    its way or still to come when the request is applied, or is sent on an outdated view later. -/
theorem hang_up_ends_own_session (hne : ∀ i, cfg.addr i ≠ "") {n₁ n₂ : LcmSys ι}
    (hr : cfg.Run cfg.NoEcho acts n₁) {src : ι} {k : Nat} {keep : Bool} {msg : ExlcmLcmJyt}
    (hget : (n₁.link src cfg.m)[k]? = some msg)
    (hreq : msg.reqState = LcmState.call ∧ msg.repState = LcmState.null)
    (hok : cfg.NoEcho n₁ (.deliver src cfg.m k keep))
    (hs : n₁.step lcmNode (.deliver src cfg.m k keep) = some n₂) {acts' : List (LcmAct ι)}
    (hr' : Lts.Run (Net.step lcmNode) (fun n a => cfg.NoEcho n a ∧ ¬ Exits n a) n₂ acts' n) :
    cfg.board n ≠ Regs.cleared := by
  have hr₂ : cfg.Run cfg.NoEcho (acts ++ [.deliver src cfg.m k keep]) n₂ := .snoc hr hok hs
  have hstart : cfg.Standing n₂ := standing_request (ident_run hr) hget hreq hok.2 hs
  -- the run after the request: what is known of all reachable states may be used at every step
  have hstand : cfg.Standing n := by
    refine hr'.invariant_since
      (J := fun n => (∀ i, (n.dev i).self.ident = cfg.ident i) ∧ CoherentSys cfg n) hstart ?_ ?_
    · intro acts' n hr'
      have hrn := hr₂.append (Lts.Run.mono (fun _ _ h => h.1) hr')
      exact ⟨ident_run hrn, coherent_run hne hrn⟩
    · rintro n a n' ⟨hid, hco⟩ hn ⟨ha, hex⟩ hs
      exact standing_step hid hco hn ha.2 hex hs
  exact hstand.board

/-- Board 1 requests and hangs up, and its way out is over; then board 2 pushes a request. -/
def Wlan.redial : List (LcmAct (Fin 4)) :=
  requested ++ [hear 1, loop 1, press 1 .tryExit, loop 1, tell 1, hear 1, loop 1, tell 1,
    press 2 .tryReqer, hear 2, hear 2, hear 2, hear 2, loop 2]

set_option maxRecDepth 10000 in
/-- The request of board 2 stands. -/
theorem hang_up_ends_own_session_wlan : ∃ n₁ n₂ n, wlanConfig.Run wlanConfig.NoEcho redial n₁ ∧
    n₁.step lcmNode (tell 2) = some n₂ ∧
    Lts.Run (Net.step lcmNode) (fun n a => wlanConfig.NoEcho n a ∧ ¬ Exits n a) n₂
      [hear 2, loop 2] n ∧ wlanConfig.board n₁ = Regs.cleared ∧
    wlanConfig.board n ≠ Regs.cleared := by
  obtain ⟨n₁, hr₁, ⟨hclear, hok⟩, ⟨msg, hget, hreq⟩, n₂, hs, hnext⟩ :=
    wlanConfig.run_of_exec wlanConfig.NoEcho redial
    (fun n => (wlanConfig.board n = Regs.cleared ∧ wlanConfig.NoEcho n (tell 2)) ∧
      (∃ msg : ExlcmLcmJyt, msg ∈ (n.link 2 0)[0]? ∧
        msg.reqState = LcmState.call ∧ msg.repState = LcmState.null) ∧
      ∃ n₂ : LcmSys (Fin 4), n₂ ∈ n.step lcmNode (tell 2) ∧
        (Lts.exec (Net.step lcmNode) (fun n a => decide (wlanConfig.NoEcho n a ∧ ¬ Exits n a)) n₂
          [hear 2, loop 2]).isSome) (by decide)
  obtain ⟨n, hex⟩ := Option.isSome_iff_exists.mp hnext
  have hr₂ := Lts.run_of_exec (fun _ _ h => of_decide_eq_true h) _ n₂ n hex
  have hne : ∀ i, wlanConfig.addr i ≠ "" := by decide
  exact ⟨n₁, n₂, n, hr₁, hs, hr₂, hclear,
    hang_up_ends_own_session hne hr₁ hget hreq hok hs hr₂⟩

/-- Board 1 requests, enters `STATE_CALL` and hangs up; a broadcast from before makes it push its clear
    twice. The first clear is applied, and board 2, which sees it, pushes a request. -/
def Wlan.clearedTwice : List (LcmAct (Fin 4)) :=
  requested ++ [beat, hear 1, loop 1, press 1 .tryExit, loop 1, hear 1, loop 1, tell 1,
    press 2 .tryReqer, hear 2, hear 2, hear 2, hear 2, loop 2]

set_option maxRecDepth 10000 in
/-- **The next session erased.** The master applies the request of board 2 on clear registers, and the
    second clear of board 1 erases it. -/
theorem next_session_erased :
    Function.Injective wlanConfig.addr ∧ (∀ i, wlanConfig.addr i ≠ "") ∧
      ∃ n₁ n₂ n₃, wlanConfig.Run (fun _ a => wlanConfig.orderly a = true) clearedTwice n₁ ∧
        wlanConfig.board n₁ = Regs.cleared ∧ n₁.step lcmNode (tell 2) = some n₂ ∧
        wlanConfig.board n₂ = ⟨wlanConfig.addr 2, "", LcmState.call, LcmState.idle⟩ ∧
        n₂.step lcmNode (tell 1) = some n₃ ∧ ¬ Exits n₂ (tell 1) ∧
        wlanConfig.board n₃ = Regs.cleared := by
  obtain ⟨n₁, hr, hclear, n₂, hs₂, hasked, n₃, hs₃, herased⟩ := wlanConfig.run_of_exec
    (fun _ a => wlanConfig.orderly a = true) clearedTwice
    (fun n₁ => wlanConfig.board n₁ = Regs.cleared ∧
      ∃ n₂ : LcmSys (Fin 4), n₂ ∈ n₁.step lcmNode (tell 2) ∧
        wlanConfig.board n₂ = ⟨wlanConfig.addr 2, "", LcmState.call, LcmState.idle⟩ ∧
        ∃ n₃ : LcmSys (Fin 4), n₃ ∈ n₂.step lcmNode (tell 1) ∧
          wlanConfig.board n₃ = Regs.cleared) (by decide)
  exact ⟨by decide, by decide, n₁, n₂, n₃, hr, hclear, hs₂, hasked, hs₃, fun h => h.elim, herased⟩

end DlsSdk
