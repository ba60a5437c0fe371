import DlsSdk.LcmNet.Relay

/-!
# `LcmNet.Master` — what a push of the master does to the master

The master runs the state machine of its slaves, and its buttons may be pressed. But it publishes on the
`ifname` channel and listens on the `master` channel, so what it pushes never comes back to it, and
registers change only in `lcm_net_pull`. Until it publishes again its registers stay as they were
(`board_quiet`), and then its periodic broadcast sends the slaves the old values (`master_push_reverted`).

`settled_iff` lists the pushes whose values are the registers already; `master_push_applied_iff` says that
these are the only ones that the master's own registers ever agree with.
-/

namespace DlsSdk

open Network Wlan

/-- The push changes nothing: a clear of clear registers, or the replier's move to `STATE_WORK` when the
    registers have it at work already. -/
def PushKind.Settled (self : LcmNet) (k : PushKind) : Prop :=
  (k = .clear ∧ self.regs = Regs.cleared) ∨
    (k = .repWork ∧ self.repAddr = self.slave ∧ self.repState = LcmState.work)

instance (self : LcmNet) (k : PushKind) : Decidable (k.Settled self) :=
  inferInstanceAs (Decidable ((_ ∧ _) ∨ (_ ∧ _ ∧ _)))

/-- **A push that is due agrees with the registers exactly if it is settled.** The guards of the other
    pushes ask for a state that the push replaces. -/
theorem settled_iff {self : LcmNet} {k : PushKind} (hg : k.Guard self) :
    self.regs = self.regs.merge (k.regs self.slave self.regs) ↔ k.Settled self := by
  constructor
  · intro he
    have hq := congrArg Regs.reqState he
    have hp := congrArg Regs.repState he
    have ha := congrArg Regs.repAddr he
    cases k with
    | request =>
        rw [Regs.merge_reqState_of_ne _ (by simp [PushKind.regs])] at hq
        rw [show self.regs.reqState = LcmState.idle from hg.2.2.1] at hq
        simp [PushKind.regs] at hq
    | answer =>
        rw [Regs.merge_repState_of_ne _ (by simp [PushKind.regs])] at hp
        rw [show self.regs.repState = LcmState.idle from hg.2.2.2] at hp
        simp [PushKind.regs] at hp
    | reqWork =>
        rw [Regs.merge_reqState_of_ne _ (by simp [PushKind.regs])] at hq
        exact absurd hq hg.2.2.1
    | repWork =>
        -- its guard says nothing about the reply half
        rw [Regs.merge_repState_of_ne _ (by simp [PushKind.regs])] at hp
        exact .inr ⟨rfl, ha, hp⟩
    | clear => exact .inl ⟨rfl, he⟩
  · rintro (⟨rfl, hc⟩ | ⟨rfl, ha, hp⟩)
    · rw [hc]
      rfl
    · have hq : self.regs.reqState = LcmState.work := hg.2.2
      have hpush : PushKind.repWork.regs self.slave self.regs = self.regs := by
        rw [← ha, PushKind.regs, ← hp]
        rfl
      rw [hpush, Regs.merge_full _ (by rw [hq]; simp)
        (by rw [show self.regs.repState = LcmState.work from hp]; simp)]

variable {ι : Type} [DecidableEq ι] {cfg : Config ι} {ok : LcmSys ι → LcmAct ι → Prop}
  {acts acts' : List (LcmAct ι)} {n n₁ n₂ : LcmSys ι}

/-- The master publishes nothing in the step. -/
def Config.MasterQuiet (cfg : Config ι) (n : LcmSys ι) : LcmAct ι → Prop
  | .own i o => i = cfg.m → (n.dev i).pushes o = none
  | .deliver src dst k _ => dst = cfg.m → ∀ msg ∈ (n.link src dst)[k]?, (n.dev dst).relays msg = none
  | .lose _ _ _ => True

instance (a : LcmAct ι) : Decidable (cfg.MasterQuiet n a) :=
  match a with
  | .own _ _ => inferInstanceAs (Decidable (_ → _))
  | .deliver _ _ _ _ => inferInstanceAs (Decidable (_ → ∀ msg ∈ _, _))
  | .lose _ _ _ => inferInstanceAs (Decidable True)

/-- **While the master is quiet its registers do not change**: every message it applies, it relays. -/
theorem board_quiet {a : LcmAct ι} (hw : Wired cfg n) (hq : cfg.MasterQuiet n a)
    (hs : n.step lcmNode a = some n₁) : cfg.board n₁ = cfg.board n := by
  cases a with
  | own i o => exact board_own hs
  | deliver src dst k keep =>
      by_cases hd : dst = cfg.m
      · subst hd
        obtain ⟨msg, _, hget, _, _⟩ := Net.step_deliver.mp hs
        have hnone := hq rfl msg hget
        rw [relays_of_wired hw (List.mem_of_getElem? hget)] at hnone
        simp at hnone
      · exact board_deliver_ne hd hs
  | lose src dst k =>
      obtain ⟨_, rfl⟩ := Net.step_lose.mp hs
      rfl

theorem board_quiet_run (hch : cfg.ifname ≠ cfg.host) (hr : cfg.Run ok acts n)
    (hr' : Lts.Run (Net.step lcmNode) (fun n a => ok n a ∧ cfg.MasterQuiet n a) n acts' n₂) :
    cfg.board n₂ = cfg.board n := by
  refine hr'.invariant_since (J := Wired cfg) (I := fun n' => cfg.board n' = cfg.board n) rfl ?_ ?_
  · intro bs t ht
    exact wired_run hch (hr.append (Lts.Run.mono (fun _ _ h => h.1) ht))
  · rintro t a u hw ht ⟨_, hq⟩ hs
    exact (board_quiet hw hq hs).trans ht

/-- **The master's own push.** From the push until the master publishes again, its registers agree with
    what it has pushed if and only if they did so before the push; and a periodic broadcast in that state
    carries the registers from before the push. -/
theorem master_push_applied_iff (hch : cfg.ifname ≠ cfg.host) (hr : cfg.Run ok acts n)
    {k : PushKind} (hk : (n.dev cfg.m).self.due = some k) (hok : ok n (.own cfg.m .loop))
    (hs : n.step lcmNode (.own cfg.m .loop) = some n₁)
    (hr' : Lts.Run (Net.step lcmNode) (fun n a => ok n a ∧ cfg.MasterQuiet n a) n₁ acts' n₂) :
    (cfg.board n₂ = (cfg.board n).merge (k.regs (n.dev cfg.m).self.slave (cfg.board n)) ↔
      k.Settled (n.dev cfg.m).self) ∧
    ∀ r, (n₂.dev cfg.m).pushes .sync = some r → r = cfg.board n := by
  have hr₁ : cfg.Run ok (acts ++ [.own cfg.m .loop]) n₁ := .snoc hr hok hs
  -- neither the push nor what follows reaches the master's registers
  have hsame : cfg.board n₂ = cfg.board n := by
    rw [board_quiet_run hch hr₁ hr']
    exact board_own hs
  constructor
  · rw [hsame]
    exact settled_iff (LcmNet.due_guard hk).2
  · intro r hp
    rw [← hsame]
    exact pushes_sync (ident_run (hr₁.append (Lts.Run.mono (fun _ _ h => h.1) hr')) cfg.m) hp

set_option maxRecDepth 10000 in
/-- The master hangs up on clear registers: its clear is settled. -/
theorem master_push_applied_wlan : ∃ n n₁, wlanConfig.Run (fun _ _ => True)
      [press 0 .tryExit, beat] n ∧ n.step lcmNode (loop 0) = some n₁ ∧
    wlanConfig.board n₁ = (wlanConfig.board n).merge Regs.cleared := by
  obtain ⟨n, hr, ⟨hk, hsettled⟩, hstep⟩ := wlanConfig.run_of_exec (fun _ _ => True)
    [press 0 .tryExit, beat]
    (fun n => ((n.dev 0).self.due = some .clear ∧ PushKind.clear.Settled (n.dev 0).self) ∧
      (n.step lcmNode (loop 0)).isSome) (by decide)
  obtain ⟨n₁, hs⟩ := Option.isSome_iff_exists.mp hstep
  have hch : wlanConfig.ifname ≠ wlanConfig.host := by decide
  exact ⟨n, n₁, hr, hs, (master_push_applied_iff hch hr hk trivial hs .nil).1.mpr hsettled⟩

/-- The master requests a call, and its request reaches board 1; a moment later its broadcast is due. -/
def Wlan.masterRequests : List (LcmAct (Fin 4)) :=
  [press 0 .tryReqer, beat, loop 0, hear 1, hear 1, .own 0 (.tick 1559098680300000)]

set_option maxRecDepth 10000 in
/-- **A push of the master reverted.** Board 1 has taken over the master's request, the master's own
    registers are still clear, no slave has pushed, and the broadcast clears board 1 again. -/
theorem master_push_reverted :
    wlanConfig.ifname ≠ wlanConfig.host ∧
      ∃ n n', wlanConfig.Run (fun _ a => a.inOrder = true ∧ a.once = true ∧ a.lossless = true)
          masterRequests n ∧
        (n.dev 1).self.regs = ⟨wlanConfig.addr 0, "", LcmState.call, LcmState.idle⟩ ∧
        wlanConfig.board n = Regs.cleared ∧
        Lts.Run (Net.step lcmNode) (fun _ _ => True) n [beat, hear 1] n' ∧
        (n'.dev 1).self.regs = Regs.cleared := by
  obtain ⟨n, hr, htaken, hclear, n₁, hs₁, n', hs₂, hback⟩ := wlanConfig.run_of_exec
    (fun _ a => a.inOrder = true ∧ a.once = true ∧ a.lossless = true) masterRequests
    (fun n => (n.dev 1).self.regs = ⟨wlanConfig.addr 0, "", LcmState.call, LcmState.idle⟩ ∧
      wlanConfig.board n = Regs.cleared ∧
      ∃ n₁ : LcmSys (Fin 4), n₁ ∈ n.step lcmNode beat ∧
        ∃ n' : LcmSys (Fin 4), n' ∈ n₁.step lcmNode (hear 1) ∧
          (n'.dev 1).self.regs = Regs.cleared) (by decide)
  have hr' : Lts.Run (Net.step lcmNode) (fun _ _ => True) n [beat, hear 1] n' :=
    (Lts.Run.single trivial hs₁).append (.single trivial hs₂)
  exact ⟨by decide, n, n', hr, htaken, hclear, hr', hback⟩

end DlsSdk
