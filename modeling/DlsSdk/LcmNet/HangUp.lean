import DlsSdk.LcmNet.Coherence
import DlsSdk.LcmNet.Relay

/-!
# `LcmNet.HangUp` — what a hang-up leaves on its way to the master

A hang-up clears the registers. No message says which session it belongs to, so an answer or a move to
`STATE_WORK` that was computed before the clear and arrives after it brings the session back
(`session_brought_back`).

The law is about the master's inbox. While its registers are free only requests and clears may be on
their way (`Config.Final`); `HangUpFinal` is the condition on the steps that keeps it so.
-/

namespace DlsSdk

open Network Wlan

variable {ι : Type} [DecidableEq ι] {cfg : Config ι} {ok : LcmSys ι → LcmAct ι → Prop}
  {acts : List (LcmAct ι)} {n n' : LcmSys ι}

/-- Registers of a session that is going on, as an answer or a move to `STATE_WORK` carries them: neither
    a request nor a clear. -/
def Late (r : Regs) : Prop := r.reqState ≠ LcmState.idle ∧ r.repState ≠ LcmState.null

instance (r : Regs) : Decidable (Late r) := inferInstanceAs (Decidable (_ ∧ _))

/-- The step does not lead to a push of a finished session: no answer and no move to `STATE_WORK` is
    pushed while the master's registers are free, and none is in flight when the master frees them. -/
def Config.HangUpFinal (cfg : Config ι) (n : LcmSys ι) : LcmAct ι → Prop
  | .own i .loop => (cfg.board n).reqState = LcmState.idle →
      ∀ k ∈ (n.dev i).self.due, k = .request ∨ k = .clear
  | .deliver src dst k _ => dst = cfg.m → ∀ msg ∈ (n.link src dst)[k]?,
      msg.reqState = LcmState.idle → cfg.Inbox (fun r => ¬ Late r) n
  | _ => True

instance [Fintype ι] : (a : LcmAct ι) → Decidable (cfg.HangUpFinal n a)
  | .own _ .loop => inferInstanceAs (Decidable (_ → ∀ k ∈ _, _))
  | .own _ (.tick _) => inferInstanceAs (Decidable True)
  | .own _ (.button _) => inferInstanceAs (Decidable True)
  | .own _ .sync => inferInstanceAs (Decidable True)
  | .deliver _ _ _ _ => inferInstanceAs (Decidable (_ → ∀ msg ∈ _, _ → _))
  | .lose _ _ _ => inferInstanceAs (Decidable True)

/-- While the master's registers are free, only requests and clears are on their way to it. -/
def Config.Final (cfg : Config ι) (n : LcmSys ι) : Prop :=
  (cfg.board n).reqState = LcmState.idle → cfg.Inbox (fun r => ¬ Late r) n

/-- Neither a request nor a clear is late. -/
theorem not_late_push {k : PushKind} {slave : String} {r : Regs} (hk : k = .request ∨ k = .clear) :
    ¬ Late (k.regs slave r) := by
  rcases hk with rfl | rfl
  · rintro ⟨_, hp⟩
    exact hp rfl
  · rintro ⟨hq, _⟩
    exact hq rfl

theorem final_own {i : ι} {o : Op} (hid : ∀ i, (n.dev i).self.ident = cfg.ident i)
    (hn : cfg.Final n) (hok : cfg.HangUpFinal n (.own i o))
    (hs : n.step lcmNode (.own i o) = some n') : cfg.Final n' := by
  intro hidle
  rw [board_own hs] at hidle
  refine (hn hidle).step hid ?_ (by simp) hs
  rintro i' o' ha r hp
  obtain ⟨rfl, rfl⟩ := Act.own.inj ha
  rcases (n.dev i).pushes_cases hp with ⟨rfl, k, hk, rfl⟩ | ⟨rfl, _, _⟩
  · exact not_late_push (hok hidle k hk)
  · -- the master's own registers are free
    rw [pushes_sync (hid i) hp]
    rintro ⟨hq, _⟩
    exact hq hidle

theorem final_deliver {src dst : ι} {k : Nat} {keep : Bool}
    (hid : ∀ i, (n.dev i).self.ident = cfg.ident i) (hnull : NoNullSys n) (hn : cfg.Final n)
    (hok : cfg.HangUpFinal n (.deliver src dst k keep))
    (hs : n.step lcmNode (.deliver src dst k keep) = some n') : cfg.Final n' := by
  intro hidle
  -- a relay can only come back to the master with its own, free, registers
  have hrelay : ¬ Late (cfg.board n') := by
    rintro ⟨hq, _⟩
    exact hq hidle
  refine Config.Inbox.step hid ?_ (by simp) (fun _ _ _ _ => hrelay) hs
  by_cases hd : dst = cfg.m
  · subst hd
    -- the master's registers are free after the message, so the message was a clear
    obtain ⟨msg, _, hget, _, _⟩ := Net.step_deliver.mp hs
    have hmsg := hnull.link src cfg.m msg (List.mem_of_getElem? hget)
    rw [board_deliver hget hs, Regs.merge_reqState_of_ne _ hmsg] at hidle
    exact hok rfl msg hget hidle
  · rw [board_deliver_ne hd hs] at hidle
    exact hn hidle

theorem final_step {a : LcmAct ι} (hid : ∀ i, (n.dev i).self.ident = cfg.ident i)
    (hnull : NoNullSys n) (hn : cfg.Final n) (hok : cfg.HangUpFinal n a)
    (hs : n.step lcmNode a = some n') : cfg.Final n' := by
  cases a with
  | own i o => exact final_own hid hn hok hs
  | deliver src dst k keep => exact final_deliver hid hnull hn hok hs
  | lose src dst k =>
      intro hidle
      have hboard : cfg.board n' = cfg.board n := by
        obtain ⟨_, rfl⟩ := Net.step_lose.mp hs
        rfl
      rw [hboard] at hidle
      exact (hn hidle).step hid (by simp) (by simp) hs

theorem final_run (hok : ∀ n a, ok n a → cfg.HangUpFinal n a) (hr : cfg.Run ok acts n) :
    cfg.Final n := by
  refine hr.invariant_since (J := fun n => (∀ i, (n.dev i).self.ident = cfg.ident i) ∧ NoNullSys n) ?_
    (fun _ _ h => ⟨ident_run h, noNull_run h⟩) ?_
  · intro _ src msg hm
    exact absurd hm List.not_mem_nil
  · rintro n a n' ⟨hid, hnull⟩ hn ha hs
    exact final_step hid hnull hn (hok n a ha) hs

/-- **A hang-up is final.** If no push of a session is on its way when the session is cleared, or computed
    after it, then only a fresh request takes the master's registers out of the free state. -/
theorem hang_up_final (hne : ∀ i, cfg.addr i ≠ "")
    (hr : cfg.Run (fun n a => cfg.pureRelay a = true ∧ cfg.HangUpFinal n a) acts n)
    {src : ι} {k : Nat} {keep : Bool} {msg : ExlcmLcmJyt}
    (hfree : (n.dev cfg.m).self.reqState = LcmState.idle ∧ (n.dev cfg.m).self.repState = LcmState.idle)
    (hget : (n.link src cfg.m)[k]? = some msg)
    (hs : n.step lcmNode (.deliver src cfg.m k keep) = some n')
    (hbusy : ¬ ((n'.dev cfg.m).self.reqState = LcmState.idle ∧
      (n'.dev cfg.m).self.repState = LcmState.idle)) :
    msg.reqState = LcmState.call ∧ msg.repState = LcmState.null := by
  have hmem := List.mem_of_getElem? hget
  have hnot : ¬ Late msg.regs := final_run (fun _ _ h => h.2) hr hfree.1 src msg hmem
  rcases (coherent_run hne hr).link src cfg.m msg hmem with hc | hreq
  · -- a coherent message that is not late is the clear, and the clear changes nothing
    have hidle : msg.regs.reqState = LcmState.idle := by
      by_contra hq
      exact hnot ⟨hq, hc.repNotNull⟩
    have hboard : cfg.board n' = Regs.cleared := by
      rw [board_deliver hget hs, Regs.merge_full _ hc.reqNotNull hc.repNotNull]
      exact hc.eq_cleared hidle
    exact absurd ⟨congrArg Regs.reqState hboard, congrArg Regs.repState hboard⟩ hbusy
  · exact ⟨hreq.call, hreq.null⟩

set_option maxRecDepth 10000 in
/-- The first request of board 1, on free registers. -/
theorem hang_up_final_wlan : ∃ (n : LcmSys (Fin 4)) (msg : ExlcmLcmJyt), wlanConfig.Run
      (fun n a => wlanConfig.pureRelay a = true ∧ wlanConfig.HangUpFinal n a)
      [press 1 .tryReqer, beat, hear 1, loop 1] n ∧
    (n.link 1 0)[0]? = some msg ∧ msg.reqState = LcmState.call ∧ msg.repState = LcmState.null := by
  obtain ⟨n, hr, hfree, n', hs, hbusy⟩ := wlanConfig.run_of_exec
    (fun n a => wlanConfig.pureRelay a = true ∧ wlanConfig.HangUpFinal n a)
    [press 1 .tryReqer, beat, hear 1, loop 1]
    (fun n => ((n.dev 0).self.reqState = LcmState.idle ∧ (n.dev 0).self.repState = LcmState.idle) ∧
      ∃ n' : LcmSys (Fin 4), n' ∈ n.step lcmNode (tell 1) ∧
        ¬ ((n'.dev 0).self.reqState = LcmState.idle ∧ (n'.dev 0).self.repState = LcmState.idle))
    (by decide)
  obtain ⟨msg, _, hget, _, _⟩ := Net.step_deliver.mp hs
  have hne : ∀ i, wlanConfig.addr i ≠ "" := by decide
  exact ⟨n, msg, hr, hget, hang_up_final hne hr hfree hget hs hbusy⟩

/-- Board 1 requests and enters `STATE_CALL`; board 2's answer is on its way while board 1 hangs up, and
    the master clears its registers. -/
def Wlan.answerDelayed : List (LcmAct (Fin 4)) :=
  requested ++ [hear 1, loop 1, press 2 .tryReper, hear 2, hear 2, loop 2,
    press 1 .tryExit, loop 1, tell 1]

set_option maxRecDepth 10000 in
/-- **A session brought back.** The master's registers are clear, and the answer of board 2 sets them to
    (`STATE_CALL`, `STATE_CALL`) again, with both addresses. -/
theorem session_brought_back :
    Function.Injective wlanConfig.addr ∧ (∀ i, wlanConfig.addr i ≠ "") ∧
      ∃ (n n' : LcmSys (Fin 4)) (msg : ExlcmLcmJyt),
        wlanConfig.Run (fun _ a => wlanConfig.orderly a = true) Wlan.answerDelayed n ∧
        wlanConfig.board n = Regs.cleared ∧ (n.link 2 0)[0]? = some msg ∧
        msg.repState ≠ LcmState.null ∧ n.step lcmNode (tell 2) = some n' ∧
        wlanConfig.board n' =
          ⟨wlanConfig.addr 1, wlanConfig.addr 2, LcmState.call, LcmState.call⟩ := by
  obtain ⟨n, hr, hclear, ⟨msg, hget, hanswer⟩, n', hs, hback⟩ := wlanConfig.run_of_exec
    (fun _ a => wlanConfig.orderly a = true) Wlan.answerDelayed
    (fun n => wlanConfig.board n = Regs.cleared ∧
      (∃ msg : ExlcmLcmJyt, msg ∈ (n.link 2 0)[0]? ∧ msg.repState ≠ LcmState.null) ∧
      ∃ n' : LcmSys (Fin 4), n' ∈ n.step lcmNode (tell 2) ∧ wlanConfig.board n' =
        ⟨wlanConfig.addr 1, wlanConfig.addr 2, LcmState.call, LcmState.call⟩) (by decide)
  exact ⟨by decide, by decide, n, n', msg, hr, hclear, hget, hanswer, hs, hback⟩

end DlsSdk
