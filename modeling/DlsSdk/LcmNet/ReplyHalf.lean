import DlsSdk.LcmNet.Endpoint

/-!
# `LcmNet.ReplyHalf` — the replier's address and state

`rep_addr` and `rep_state` say the same: nobody has answered, or somebody has (`Paired`). Every push and
every relay carries a pair that fits, with the exception of the request: it says nothing about `rep_state`
and yet carries the requester's copy of `rep_addr`, which is empty (`ReplyHalf`). A pull that keeps the state
and takes the address over leaves the pair alone if nobody has answered, and breaks it if somebody has.

So the pair fits in all states of a run exactly when no request is applied against an answer
(`reply_half_coherent_iff`).
-/

namespace DlsSdk

open Network Wlan

variable {ι : Type} [DecidableEq ι] {cfg : Config ι} {acts : List (LcmAct ι)} {n : LcmSys ι}

/-- **The pair fits**: there is a replier's address exactly if there is a reply. -/
def Paired (r : Regs) : Prop := r.repAddr = "" ↔ r.repState = LcmState.idle

instance instDecidablePaired (r : Regs) : Decidable (Paired r) := inferInstanceAs (Decidable (_ ↔ _))

/-- What a message says of the reply half: a pair that fits, or nothing but an empty address. -/
def ReplyHalf (r : Regs) : Prop :=
  (r.repState ≠ LcmState.null ∧ Paired r) ∨ (r.repState = LcmState.null ∧ r.repAddr = "")

/-- The step leaves the reply half of the device that takes a request alone. -/
def KeepsReply (n : LcmSys ι) (act : LcmAct ι) (n' : LcmSys ι) : Prop :=
  match act with
  | .deliver src dst k _ => ∀ msg ∈ (n.link src dst)[k]?, msg.repState = LcmState.null →
      (n'.dev dst).self.repAddr = (n.dev dst).self.repAddr ∧
        (n'.dev dst).self.repState = (n.dev dst).self.repState
  | _ => True

/-- **The reply half is coherent** after the step, at every device, and a request has not changed it. -/
def ReplyCoherent (n : LcmSys ι) (act : LcmAct ι) (n' : LcmSys ι) : Prop :=
  (∀ i, Paired (n'.dev i).self.regs) ∧ KeepsReply n act n'

/-! ## Merging and pushing -/

theorem Paired.cleared : Paired Regs.cleared := ⟨fun _ => rfl, fun _ => rfl⟩

/-- An answer has an address. -/
theorem Paired.of_answer {r : Regs} (ha : r.repAddr ≠ "") (hp : r.repState ≠ LcmState.idle) : Paired r :=
  ⟨fun h => absurd h ha, fun h => absurd h hp⟩

/-- **A message is merged into a pair that fits**, if no request meets an answer. -/
theorem Paired.merge {r m : Regs} (hm : ReplyHalf m)
    (hfresh : m.repState = LcmState.null → r.repState = LcmState.idle) : Paired (r.merge m) := by
  rcases hm with ⟨hnull, hpair⟩ | ⟨hnull, haddr⟩
  · rw [Paired, r.merge_repState_of_ne hnull]
    exact hpair
  · rw [Paired, r.merge_repState_of_null hnull]
    exact ⟨fun _ => hfresh hnull, fun _ => haddr⟩

theorem repState_merge_ne {r m : Regs} (hr : r.repState ≠ LcmState.null) :
    (r.merge m).repState ≠ LcmState.null := by
  by_cases hm : m.repState = LcmState.null
  · rw [r.merge_repState_of_null hm]
    exact hr
  · rw [r.merge_repState_of_ne hm]
    exact hm

/-- The pushes of a device whose pair fits. -/
theorem Paired.push {self : LcmNet} {k : PushKind} (hr : Paired self.regs) (hne : self.slave ≠ "")
    (hg : k.Guard self) : ReplyHalf (k.regs self.slave self.regs) := by
  cases k with
  | request =>
      -- it is pushed while nobody has answered, so the address it takes along is empty
      obtain ⟨_, _, _, hp⟩ := hg
      exact .inr ⟨rfl, hr.mpr hp⟩
  | answer => exact .inl ⟨by simp [PushKind.regs], .of_answer hne (by simp [PushKind.regs])⟩
  | reqWork =>
      obtain ⟨_, _, _, hp⟩ := hg
      left
      constructor
      · show self.repState ≠ LcmState.null
        rw [hp]
        simp
      · exact hr
  | repWork => exact .inl ⟨by simp [PushKind.regs], .of_answer hne (by simp [PushKind.regs])⟩
  | clear => exact .inl ⟨by simp [PushKind.regs, Regs.cleared], .cleared⟩

/-! ## The network -/

/-- Every device's pair fits and every message carries a proper reply half. -/
abbrev ReplySys (cfg : Config ι) (n : LcmSys ι) : Prop :=
  LocalInv (fun i (h : Host) => h.self.ident = cfg.ident i ∧ h.self.repState ≠ LcmState.null ∧
      Paired h.self.regs)
    (fun _ _ (msg : ExlcmLcmJyt) => ReplyHalf msg.regs) n

theorem reply_start : ReplySys cfg cfg.start where
  dev i := by
    have hregs : (cfg.boot i).self.regs = Regs.cleared := boot_regs cfg i
    refine ⟨boot_ident cfg i, ?_, ?_⟩
    · rw [show (cfg.start.dev i).self.repState = LcmState.idle from congrArg Regs.repState hregs]
      simp
    · rw [show (cfg.start.dev i).self.regs = Regs.cleared from hregs]
      exact .cleared
  link _ _ _ hm := absurd hm List.not_mem_nil

theorem reply_step (hne : ∀ i, cfg.addr i ≠ "") {act : LcmAct ι} {n' : LcmSys ι} (hn : ReplySys cfg n)
    (hfresh : RequestsFresh n act) (hs : n.step lcmNode act = some n') : ReplySys cfg n' := by
  refine hn.step ?_ ?_ hs
  · rintro i o h rfl ho
    obtain ⟨hid, hnull, hpair⟩ := hn.dev i
    have hf := node_frame ho
    refine ⟨⟨hf.ident.trans hid, ?_, by rw [hf.regs]; exact hpair⟩, ?_⟩
    · rw [show h.self.repState = (n.dev i).self.repState from congrArg Regs.repState hf.regs]
      exact hnull
    · intro dst msg hm
      rcases (n.dev i).pushes_cases ((node_published ho).of_routed hm).1 with
        ⟨_, k, hk, hregs⟩ | ⟨_, _, hregs⟩
      · have hsl : (n.dev i).self.slave ≠ "" := by
          rw [show (n.dev i).self.slave = cfg.addr i from congrArg Ident.slave hid]
          exact hne i
        rw [hregs]
        exact hpair.push hsl (LcmNet.due_guard hk).2
      · rw [hregs]
        exact .inl ⟨hnull, hpair⟩
  · rintro src dst k keep msg h rfl hget hmsg hr
    obtain ⟨hid, hnull, _⟩ := hn.dev dst
    have hmerge : Paired ((n.dev dst).self.regs.merge msg.regs) := .merge hmsg (hfresh msg hget)
    have hstate : ((n.dev dst).self.regs.merge msg.regs).repState ≠ LcmState.null :=
      repState_merge_ne hnull
    have hregs := node_merge hr
    refine ⟨⟨(node_recv_ident hr).trans hid, ?_, by rw [hregs]; exact hmerge⟩, ?_⟩
    · rw [← LcmNet.regs_repState, hregs]
      exact hstate
    · intro d msg' hm
      rw [relays_eq_some ((node_relays hr).of_routed hm).1]
      exact .inl ⟨hstate, hmerge⟩

/-- A request that nobody has answered leaves the reply half alone. -/
theorem keepsReply_of_fresh {act : LcmAct ι} {n' : LcmSys ι} (hn : ReplySys cfg n)
    (hfresh : RequestsFresh n act) (hs : n.step lcmNode act = some n') : KeepsReply n act n' := by
  cases act with
  | own i o => exact trivial
  | lose src dst k => exact trivial
  | deliver src dst k keep =>
      intro msg hget hnull
      obtain ⟨msg', h, hget', hr, rfl⟩ := Net.step_deliver.mp hs
      obtain rfl := Option.some.inj (hget'.symm.trans hget)
      have hidle := hfresh msg' hget hnull
      have haddr : msg'.repAddr = "" := by
        rcases hn.link src dst msg' (List.mem_of_getElem? hget') with ⟨hne, _⟩ | ⟨_, ha⟩
        · exact absurd hnull hne
        · exact ha
      have hregs := node_merge hr
      rw [Net.post_dev_self]
      constructor
      · rw [← LcmNet.regs_repAddr, hregs]
        exact haddr.trans ((hn.dev dst).2.2.mpr hidle).symm
      · rw [← LcmNet.regs_repState, hregs]
        exact Regs.merge_repState_of_null _ hnull

/-- A request applied against an answer erases the address and leaves the state. -/
theorem not_paired_of_stale {act : LcmAct ι} {n' : LcmSys ι} (hn : ReplySys cfg n)
    (hstale : ¬ RequestsFresh n act) (hs : n.step lcmNode act = some n') :
    ∃ i, ¬ Paired (n'.dev i).self.regs := by
  cases act with
  | own i o => exact absurd trivial hstale
  | lose src dst k => exact absurd trivial hstale
  | deliver src dst k keep =>
      obtain ⟨msg, h, hget, hr, rfl⟩ := Net.step_deliver.mp hs
      have hmet : msg.repState = LcmState.null ∧ (n.dev dst).self.repState ≠ LcmState.idle := by
        by_contra hc
        apply hstale
        intro msg' hget' hnull
        obtain rfl := Option.some.inj (hget.symm.trans hget')
        by_contra hidle
        exact hc ⟨hnull, hidle⟩
      have haddr : msg.repAddr = "" := by
        rcases hn.link src dst msg (List.mem_of_getElem? hget) with ⟨hne, _⟩ | ⟨_, ha⟩
        · exact absurd hmet.1 hne
        · exact ha
      refine ⟨dst, ?_⟩
      rw [Net.post_dev_self, node_merge hr, Paired, Regs.merge_repState_of_null _ hmet.1]
      intro hpair
      exact hmet.2 (hpair.mp haddr)

/-- **When the reply half is coherent.** With own addresses that are not empty, in every run: the pair fits at
    every device after every step, and no request has changed it, if and only if every request is applied
    while the receiver's `rep_state` is `STATE_IDLE`. -/
theorem reply_half_coherent_iff (hne : ∀ i, cfg.addr i ≠ "") (hr : cfg.Run (fun _ _ => True) acts n) :
    ((∀ i, Paired (cfg.start.dev i).self.regs) ∧
        Lts.Steps (Net.step lcmNode) ReplyCoherent cfg.start acts) ↔ cfg.Run RequestsFresh acts n := by
  have hiff : Lts.Steps (Net.step lcmNode) ReplyCoherent cfg.start acts ↔ cfg.Run RequestsFresh acts n := by
    refine hr.steps_iff (I := ReplySys cfg) reply_start ?_ ?_
    · intro m act m' hm hfresh hs
      have hm' := reply_step hne hm hfresh hs
      exact ⟨hm', fun i => (hm'.dev i).2.2, keepsReply_of_fresh hm hfresh hs⟩
    · rintro m act m' hm hstale hs ⟨hpaired, -⟩
      obtain ⟨i, hi⟩ := not_paired_of_stale hm hstale hs
      exact hi (hpaired i)
  constructor
  · rintro ⟨-, hsteps⟩
    exact hiff.mp hsteps
  · intro hfresh
    exact ⟨fun i => (reply_start.dev i).2.2, hiff.mpr hfresh⟩

set_option maxRecDepth 10000 in
/-- A whole call set-up, in which no request meets an answer. -/
theorem reply_half_coherent_wlan :
    Lts.Steps (Net.step lcmNode) ReplyCoherent wlanConfig.start Wlan.connected := by
  obtain ⟨n, hr, -⟩ := wlanConfig.run_of_exec RequestsFresh Wlan.connected (fun _ => True) (by decide)
  exact ((reply_half_coherent_iff (by decide) (hr.mono fun _ _ _ => trivial)).mpr hr).2

set_option maxRecDepth 10000 in
/-- **Erased at the master.** Board 1's second request arrives after board 2's answer: an answer without an
    address, on an orderly network. -/
theorem reply_address_erased :
    (∀ i, wlanConfig.addr i ≠ "") ∧
      ∃ n, wlanConfig.Run (fun _ act => wlanConfig.orderly act = true) (Wlan.askedTwice.take 18) n ∧
        ((n.dev 0).self.repAddr = "" ∧ (n.dev 0).self.repState = LcmState.call) := by
  obtain ⟨n, hr, hbroken⟩ := wlanConfig.run_of_exec (fun _ act => wlanConfig.orderly act = true)
    (Wlan.askedTwice.take 18)
    (fun n => (n.dev 0).self.repAddr = "" ∧ (n.dev 0).self.repState = LcmState.call) (by decide)
  exact ⟨by decide, n, hr, hbroken⟩

end DlsSdk
