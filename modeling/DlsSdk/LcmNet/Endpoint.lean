import DlsSdk.LcmNet.System

/-!
# `LcmNet.Endpoint` — both ends of an uncontended call connect to the same pair

One device `a` only ever requests, one device `b` only ever replies, nobody else takes part. The registers
then go through the stages of one call (`CallOf`), in which both addresses are right as soon as there is
an answer; every push is computed from such a stage and leads to one (`CallOf.push`).

The exception is the request: it carries no reply half, so a pull keeps the receiver's `rep_state` but
takes over the request's empty `rep_addr`. Applied after the answer, it erases the answer's address and
leaves its state (`endpoint_erased`). `endpoints_agree` is the law under the condition that this does not
happen, for any delay, reordering, duplication and loss.
-/

namespace DlsSdk

open Network Wlan

/-! ## The stages of a call -/

/-- The registers in a call of the device at the address `A` with the one at `B`. -/
inductive CallOf (A B : String) : Regs → Prop where
  | free : CallOf A B Regs.cleared
  | asked : CallOf A B ⟨A, "", LcmState.call, LcmState.idle⟩
  | answered {req rep : LcmState} (hq : req = .call ∨ req = .work) (hp : rep = .call ∨ rep = .work) :
      CallOf A B ⟨A, B, req, rep⟩

/-- The request of the device at the address `A`. -/
def requestOf (A : String) : Regs := ⟨A, "", LcmState.call, LcmState.null⟩

variable {A B : String} {r m : Regs}

/-- A stage replaces whatever registers it is merged into. -/
theorem CallOf.merge (hm : CallOf A B m) : r.merge m = m := by
  apply r.merge_full
  · cases hm with
    | free => simp [Regs.cleared]
    | asked => simp
    | answered hq _ => rcases hq with rfl | rfl <;> simp
  · cases hm with
    | free => simp [Regs.cleared]
    | asked => simp
    | answered _ hp => rcases hp with rfl | rfl <;> simp

/-- A request, applied before there is an answer. -/
theorem CallOf.merge_request (hp : r.repState = LcmState.idle) :
    CallOf A B (r.merge (requestOf A)) := by
  have he : r.merge (requestOf A) = ⟨A, "", LcmState.call, LcmState.idle⟩ := by
    rw [← hp]
    rfl
  rw [he]
  exact .asked

/-- Nobody is named while nobody has asked. -/
theorem CallOf.repAddr_of_idle (h : CallOf A B r) (hq : r.reqState = LcmState.idle) :
    r.repAddr = "" := by
  cases h with
  | free => rfl
  | asked => rfl
  | answered hq' _ => rcases hq' with rfl | rfl <;> simp at hq

/-- Once somebody has asked, the requester's address is right. -/
theorem CallOf.reqAddr_of_call (h : CallOf A B r) (hq : r.reqState = LcmState.call) :
    r.reqAddr = A := by
  cases h with
  | free => simp [Regs.cleared] at hq
  | asked => rfl
  | answered => rfl

/-- Once there is an answer, both addresses are right. -/
theorem CallOf.addr_of_answer (h : CallOf A B r) (hp : r.repState = LcmState.call) :
    r.reqAddr = A ∧ r.repAddr = B := by
  cases h with
  | free => simp [Regs.cleared] at hp
  | asked => simp at hp
  | answered => exact ⟨rfl, rfl⟩

/-- When the requester is at work, both addresses are right. -/
theorem CallOf.addr_of_work (h : CallOf A B r) (hq : r.reqState = LcmState.work) :
    r.reqAddr = A ∧ r.repAddr = B := by
  cases h with
  | free => simp [Regs.cleared] at hq
  | asked => simp at hq
  | answered => exact ⟨rfl, rfl⟩

/-- **Every push leads to a stage of the call, or is the request**, if the requester's pushes come from
    the device at `A` and the replier's from the one at `B`. -/
theorem CallOf.push {self : LcmNet} {k : PushKind} (hr : CallOf A B self.regs) (hg : k.Guard self)
    (hreq : self.lcmRole = .reqer → self.slave = A) (hrep : self.lcmRole = .reper → self.slave = B) :
    CallOf A B (k.regs self.slave self.regs) ∨ k.regs self.slave self.regs = requestOf A := by
  cases k with
  | request =>
      obtain ⟨hro, _, hq, _⟩ := hg
      right
      -- it is pushed on free registers, so the replier's address it carries is empty
      simp only [PushKind.regs, hreq hro, hr.repAddr_of_idle hq, requestOf]
  | answer =>
      obtain ⟨hro, _, hq, _⟩ := hg
      left
      simp only [PushKind.regs, hrep hro, hr.reqAddr_of_call hq]
      rw [show self.regs.reqState = LcmState.call from hq]
      exact .answered (.inl rfl) (.inl rfl)
  | reqWork =>
      obtain ⟨hro, _, _, hp⟩ := hg
      left
      simp only [PushKind.regs, hreq hro, (hr.addr_of_answer hp).2]
      rw [show self.regs.repState = LcmState.call from hp]
      exact .answered (.inr rfl) (.inl rfl)
  | repWork =>
      obtain ⟨hro, _, hq⟩ := hg
      left
      simp only [PushKind.regs, hrep hro, (hr.addr_of_work hq).1]
      rw [show self.regs.reqState = LcmState.work from hq]
      exact .answered (.inr rfl) (.inr rfl)
  | clear => exact .inl .free

/-! ## The network -/

variable {ι : Type} [DecidableEq ι] {cfg : Config ι} {ok : LcmSys ι → LcmAct ι → Prop}
  {acts : List (LcmAct ι)} {n : LcmSys ι} {a b : ι}

/-- The only buttons pressed are the requester's of `a` and the replier's of `b`. -/
def uncontended (a b : ι) : LcmAct ι → Bool
  | .own i (.button .tryReqer) => decide (i = a)
  | .own i (.button .tryReper) => decide (i = b)
  | .own _ (.button _) => false
  | _ => true

/-- A request is applied only while the receiver's `rep_state` is `STATE_IDLE`. -/
def RequestsFresh (n : LcmSys ι) : LcmAct ι → Prop
  | .deliver src dst k _ => ∀ msg ∈ (n.link src dst)[k]?, msg.repState = LcmState.null →
      (n.dev dst).self.repState = LcmState.idle
  | _ => True

instance : (act : LcmAct ι) → Decidable (RequestsFresh n act)
  | .deliver _ _ _ _ => inferInstanceAs (Decidable (∀ msg ∈ _, _ → _))
  | .own _ _ => inferInstanceAs (Decidable True)
  | .lose _ _ _ => inferInstanceAs (Decidable True)

/-- Only `a` requests and only `b` replies. -/
def CastRole (a b i : ι) (role : LcmRole) : Prop := (role = .reqer → i = a) ∧ (role = .reper → i = b)

/-- The whole system is at some stage of the call of `a` with `b`. -/
abbrev Endpoints (cfg : Config ι) (a b : ι) (n : LcmSys ι) : Prop :=
  LocalInv (fun i h => h.self.ident = cfg.ident i ∧ CastRole a b i h.self.lcmRole ∧
      CallOf (cfg.addr a) (cfg.addr b) h.self.regs)
    (fun _ _ (msg : ExlcmLcmJyt) => CallOf (cfg.addr a) (cfg.addr b) msg.regs ∨
      msg.regs = requestOf (cfg.addr a)) n

theorem endpoints_start : Endpoints cfg a b cfg.start where
  dev i := by
    refine ⟨boot_ident cfg i, ?_, ?_⟩
    · rw [CastRole, show (cfg.start.dev i).self.lcmRole = .null from (boot_mode cfg i).1]
      simp
    · rw [show cfg.start.dev i = cfg.boot i from rfl, boot_regs]
      exact .free
  link _ _ _ hm := absurd hm List.not_mem_nil

omit [DecidableEq ι] in
/-- Giving up a role is always in the cast. -/
theorem CastRole.giveUp {i : ι} {role role' : LcmRole} (h : CastRole a b i role)
    (he : role' = role ∨ role' = .idle) : CastRole a b i role' := by
  rcases he with rfl | rfl
  · exact h
  · exact ⟨by simp, by simp⟩

/-- The operations of the cast: the buttons give the two roles to `a` and `b` only. -/
theorem castRole_own {i : ι} {o : Op} {h h' : Host} (hc : CastRole a b i h.self.lcmRole)
    (hok : uncontended a b (.own i o) = true) (ho : lcmNode.own h o = some h') :
    CastRole a b i h'.self.lcmRole := by
  cases node_own ho with
  | kept hr =>
      rw [hr]
      exact hc
  | loop hk => exact hc.giveUp hk.trans.role_eq
  | button hp =>
      cases hp with
      | tryInit | tryExit => simp [uncontended] at hok
      | tryReqer => exact ⟨fun _ => of_decide_eq_true hok, by simp⟩
      | tryReper => exact ⟨by simp, fun _ => of_decide_eq_true hok⟩
      | ignored => exact hc

omit [DecidableEq ι] in
/-- What a device of the cast publishes is a stage of the call or the request. -/
theorem castRole_pushes {i : ι} {h : Host} {o : Op} (hid : h.self.slave = cfg.addr i)
    (hc : CastRole a b i h.self.lcmRole) (hr : CallOf (cfg.addr a) (cfg.addr b) h.self.regs)
    (hp : h.pushes o = some r) :
    CallOf (cfg.addr a) (cfg.addr b) r ∨ r = requestOf (cfg.addr a) := by
  rcases h.pushes_cases hp with ⟨_, k, hk, rfl⟩ | ⟨_, _, rfl⟩
  · have hreq : h.self.lcmRole = .reqer → h.self.slave = cfg.addr a := by
      intro hro
      rw [hid, hc.1 hro]
    have hrep : h.self.lcmRole = .reper → h.self.slave = cfg.addr b := by
      intro hro
      rw [hid, hc.2 hro]
    exact hr.push (LcmNet.due_guard hk).2 hreq hrep
  · exact .inl hr

theorem endpoints_step {n' : LcmSys ι} {act : LcmAct ι} (hn : Endpoints cfg a b n)
    (hok : uncontended a b act = true) (hfresh : RequestsFresh n act)
    (hs : n.step lcmNode act = some n') : Endpoints cfg a b n' := by
  refine hn.step ?_ ?_ hs
  · rintro i o h rfl ho
    obtain ⟨hid, hc, hr⟩ := hn.dev i
    have hf := node_frame ho
    refine ⟨⟨hf.ident.trans hid, castRole_own hc hok ho, by rw [hf.regs]; exact hr⟩, ?_⟩
    intro dst msg hm
    exact castRole_pushes (congrArg Ident.slave hid) hc hr ((node_published ho).of_routed hm).1
  · rintro src dst k keep msg h rfl hget hmsg hrc
    obtain ⟨hid, hc, hr⟩ := hn.dev dst
    have hmerge : CallOf (cfg.addr a) (cfg.addr b) ((n.dev dst).self.regs.merge msg.regs) := by
      rcases hmsg with hm | hm
      · rw [hm.merge]
        exact hm
      · -- the only message with `STATE_NULL`: the guard says there is no answer yet
        have hnull : msg.repState = LcmState.null := congrArg Regs.repState hm
        rw [hm]
        exact .merge_request (hfresh msg hget hnull)
    refine ⟨⟨(node_recv_ident hrc).trans hid, ?_, by rw [node_merge hrc]; exact hmerge⟩, ?_⟩
    · rw [(node_recv_mode hrc).1]
      exact hc
    · intro d msg' hm
      left
      rw [relays_eq_some ((node_relays hrc).of_routed hm).1]
      exact hmerge

theorem endpoints_run (hok : ∀ n act, ok n act → uncontended a b act = true ∧ RequestsFresh n act)
    (hr : cfg.Run ok acts n) : Endpoints cfg a b n := by
  refine hr.invariant (I := Endpoints cfg a b) endpoints_start ?_
  intro n act n' hn ha hs
  obtain ⟨hcast, hfresh⟩ := hok n act ha
  exact endpoints_step hn hcast hfresh hs

/-- **Endpoint agreement of an uncontended call.** If no request is applied after the answer, then
    whoever launches is `a` or `b`, and its command connects `a`'s address with `b`'s. -/
theorem endpoints_agree
    (hr : cfg.Run (fun n act => uncontended a b act = true ∧ RequestsFresh n act) acts n) {i : ι}
    {n' : LcmSys ι} (hs : n.step lcmNode (.own i .loop) = some n') {e : Event}
    (he : e ∈ (n'.dev i).log) (hl : e.isLaunch = true) :
    ((n.dev i).self.reqAddr = cfg.addr a ∧ (n.dev i).self.repAddr = cfg.addr b) ∧
      ((i = a ∧ e = .sampleNng (cfg.addr b) (cfg.addr b) (cfg.addr a) (cfg.addr a)) ∨
        (i = b ∧ e = .sampleNng (cfg.addr a) (cfg.addr a) (cfg.addr b) (cfg.addr b))) := by
  obtain ⟨_, hc, hregs⟩ := (endpoints_run (fun _ _ h => h) hr).dev i
  obtain ⟨h, ho, rfl⟩ := Net.step_own.mp hs
  -- a launch needs a requester at work, and then both addresses are right
  rw [Net.post_dev_self] at he
  have hla := node_launch ho hl he
  obtain ⟨hreq, hrep⟩ := hregs.addr_of_work hla.work
  rw [LcmNet.regs_reqAddr] at hreq
  rw [LcmNet.regs_repAddr] at hrep
  refine ⟨⟨hreq, hrep⟩, ?_⟩
  have hline := hla.line
  rw [hreq, hrep] at hline
  rcases hline with ⟨hro, hev⟩ | ⟨hro, hev⟩
  · exact .inl ⟨hc.1 hro, hev⟩
  · exact .inr ⟨hc.2 hro, hev⟩

set_option maxRecDepth 10000 in
/-- An uncontended call of board 1 with board 2, up to the launch of board 1. -/
theorem endpoints_agree_wlan : ∃ n n' e, wlanConfig.Run
      (fun n act => uncontended 1 2 act = true ∧ RequestsFresh n act) (connected ++ [hear 1]) n ∧
    n.step lcmNode (loop 1) = some n' ∧ e ∈ (n'.dev 1).log ∧ e.isLaunch = true ∧
    (n.dev 1).self.reqAddr = wlanConfig.addr 1 ∧ (n.dev 1).self.repAddr = wlanConfig.addr 2 := by
  obtain ⟨n, hr, n', hs, e, he, hl⟩ := wlanConfig.run_of_exec
    (fun n act => uncontended 1 2 act = true ∧ RequestsFresh n act) (connected ++ [hear 1])
    (fun n => ∃ n' : LcmSys (Fin 4), n' ∈ n.step lcmNode (loop 1) ∧
      ∃ e ∈ (n'.dev 1).log, e.isLaunch = true) (by decide)
  exact ⟨n, n', e, hr, hs, he, hl, (endpoints_agree hr hs he hl).1⟩

/-- Board 1 pushes its request a second time, because an older broadcast counts as the answer to the
    first. The first request is applied and answered, both boards enter `STATE_CALL`; then the second
    request arrives and erases board 2's address. -/
def Wlan.askedTwice : List (LcmAct (Fin 4)) :=
  [press 1 .tryReqer, press 2 .tryReper, beat, hear 1, loop 1,
    .own 0 (.tick 1559098680300000), beat, hear 1, loop 1,
    tell 1, hear 2, hear 2, hear 2, loop 2, tell 2, hear 2, loop 2,
    tell 1, hear 1, hear 1, hear 1, loop 1, loop 1, tell 1, hear 2, hear 2]

set_option maxRecDepth 10000 in
/-- **An erased endpoint.** Board 2 launches with an empty address for its own end. -/
theorem endpoint_erased :
    Function.Injective wlanConfig.addr ∧ (∀ i, wlanConfig.addr i ≠ "") ∧
      ∃ n n', wlanConfig.Run (fun _ act => wlanConfig.orderly act = true ∧
          uncontended 1 2 act = true) Wlan.askedTwice n ∧
        n.step lcmNode (loop 2) = some n' ∧
        Event.sampleNng (wlanConfig.addr 1) (wlanConfig.addr 1) "" "" ∈ (n'.dev 2).log := by
  obtain ⟨n, hr, n', hs, hlaunch⟩ := wlanConfig.run_of_exec
    (fun _ act => wlanConfig.orderly act = true ∧ uncontended 1 2 act = true) Wlan.askedTwice
    (fun n => ∃ n' : LcmSys (Fin 4), n' ∈ n.step lcmNode (loop 2) ∧
      Event.sampleNng (wlanConfig.addr 1) (wlanConfig.addr 1) "" "" ∈ (n'.dev 2).log) (by decide)
  exact ⟨by decide, by decide, n, n', hr, hs, hlaunch⟩

end DlsSdk
