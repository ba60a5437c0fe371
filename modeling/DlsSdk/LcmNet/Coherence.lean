import DlsSdk.LcmNet.System

/-!
# `LcmNet.Coherence` — what the registers can look like

The joint invariant of the shared registers, at every device and in every message in flight, whoever
pushes and however messages are delayed, reordered, duplicated or lost.

A message is either itself coherent or a request (`STATE_CALL` with `STATE_NULL` for the reply half), so
a pull either replaces the registers or sets the request half to `STATE_CALL`; both keep a coherent
quadruple coherent (`Coherent.merge`). The five pushes are of this kind when computed from coherent
registers (`Coherent.push`). The network adds nothing: `coherent_step` is the frame rule.
-/

namespace DlsSdk

open Network

variable {ι : Type} [DecidableEq ι] {cfg : Config ι} {ok : LcmSys ι → LcmAct ι → Prop}
  {acts : List (LcmAct ι)} {n : LcmSys ι}

/-! ## No `STATE_NULL` in the registers -/

/-- No state register is `STATE_NULL`. -/
structure NoNull (r : Regs) : Prop where
  req : r.reqState ≠ LcmState.null
  rep : r.repState ≠ LcmState.null

theorem NoNull.merge {r m : Regs} (hr : NoNull r) (hm : m.reqState ≠ LcmState.null) :
    NoNull (r.merge m) where
  req := by rw [r.merge_reqState_of_ne hm]; exact hm
  rep := by
    by_cases hp : m.repState = LcmState.null
    · rw [r.merge_repState_of_null hp]; exact hr.rep
    · rw [r.merge_repState_of_ne hp]; exact hp

/-- No push has `STATE_NULL` in the request half. -/
theorem NoNull.push {self : LcmNet} (hr : NoNull self.regs) (k : PushKind) :
    (k.regs self.slave self.regs).reqState ≠ LcmState.null := by
  cases k with
  | answer | repWork => exact hr.req
  | request | reqWork | clear => simp [PushKind.regs, Regs.cleared]

theorem NoNull.pushes {h : Host} {o : Op} {r : Regs} (hr : NoNull h.self.regs)
    (hp : h.pushes o = some r) : r.reqState ≠ LcmState.null := by
  rcases h.pushes_cases hp with ⟨_, k, _, rfl⟩ | ⟨_, _, rfl⟩
  · exact hr.push k
  · exact hr.req

/-- The registers of every device are free of `STATE_NULL`, the request half of every message too. -/
abbrev NoNullSys (n : LcmSys ι) : Prop :=
  LocalInv (fun _ h => NoNull h.self.regs)
    (fun _ _ (msg : ExlcmLcmJyt) => msg.regs.reqState ≠ LcmState.null) n

omit [DecidableEq ι] in
theorem noNull_start : NoNullSys cfg.start where
  dev i := by
    rw [show cfg.start.dev i = cfg.boot i from rfl, boot_regs]
    exact ⟨by simp [Regs.cleared], by simp [Regs.cleared]⟩
  link _ _ _ hm := absurd hm List.not_mem_nil

theorem noNull_step {n' : LcmSys ι} {a : LcmAct ι} (hn : NoNullSys n)
    (hs : n.step lcmNode a = some n') : NoNullSys n' := by
  refine hn.step ?_ ?_ hs
  · intro i o h _ ho
    constructor
    · rw [(node_frame ho).regs]
      exact hn.dev i
    · intro dst msg hm
      exact (hn.dev i).pushes ((node_published ho).of_routed hm).1
  · intro src dst k keep msg h _ _ hmsg hr
    have hmerge := (hn.dev dst).merge hmsg
    constructor
    · rw [node_merge hr]
      exact hmerge
    · intro d msg' hm
      rw [relays_eq_some ((node_relays hr).of_routed hm).1]
      exact hmerge.req

theorem noNull_run (hr : cfg.Run ok acts n) : NoNullSys n :=
  hr.invariant noNull_start fun _ _ _ hn _ hs => noNull_step hn hs

/-! ## Coherent registers -/

/-- The registers make sense: no `STATE_NULL`, one of the six reachable pairs of states, a requester's
    address exactly when there is a request, and no replier's address without one. -/
structure Coherent (r : Regs) : Prop where
  reqNotNull : r.reqState ≠ LcmState.null
  repNotNull : r.repState ≠ LcmState.null
  pair : (r.reqState = LcmState.idle ∧ r.repState = LcmState.idle) ∨
    (r.reqState = LcmState.call ∧ r.repState = LcmState.idle) ∨
    (r.reqState = LcmState.call ∧ r.repState = LcmState.call) ∨
    (r.reqState = LcmState.call ∧ r.repState = LcmState.work) ∨
    (r.reqState = LcmState.work ∧ r.repState = LcmState.call) ∨
    (r.reqState = LcmState.work ∧ r.repState = LcmState.work)
  addr : r.reqAddr = "" ↔ r.reqState = LcmState.idle
  free : r.reqState = LcmState.idle → r.repAddr = ""

/-- A request: the reply half is to be kept. -/
structure IsRequest (r : Regs) : Prop where
  call : r.reqState = LcmState.call
  null : r.repState = LcmState.null
  addr : r.reqAddr ≠ ""

/-- What a message may carry. -/
def Admissible (r : Regs) : Prop := Coherent r ∨ IsRequest r

/-! ## The two constructors of coherent registers -/

theorem Coherent.cleared : Coherent Regs.cleared where
  reqNotNull := by simp [Regs.cleared]
  repNotNull := by simp [Regs.cleared]
  pair := .inl ⟨rfl, rfl⟩
  addr := ⟨fun _ => rfl, fun _ => rfl⟩
  free _ := rfl

/-- A request half at `STATE_CALL` goes with any reply half. -/
theorem Coherent.of_call {r : Regs} (hq : r.reqState = LcmState.call) (ha : r.reqAddr ≠ "")
    (hp : r.repState = LcmState.idle ∨ r.repState = LcmState.call ∨ r.repState = LcmState.work) :
    Coherent r where
  reqNotNull := by rw [hq]; simp
  repNotNull := by rcases hp with hp | hp | hp <;> rw [hp] <;> simp
  pair := by
    rcases hp with hp | hp | hp
    · exact .inr (.inl ⟨hq, hp⟩)
    · exact .inr (.inr (.inl ⟨hq, hp⟩))
    · exact .inr (.inr (.inr (.inl ⟨hq, hp⟩)))
  addr := ⟨fun h => absurd h ha, fun h => by rw [hq] at h; simp at h⟩
  free h := by rw [hq] at h; simp at h

/-- A requester at work goes with an answer. -/
theorem Coherent.of_work {r : Regs} (hq : r.reqState = LcmState.work) (ha : r.reqAddr ≠ "")
    (hp : r.repState = LcmState.call ∨ r.repState = LcmState.work) : Coherent r where
  reqNotNull := by rw [hq]; simp
  repNotNull := by rcases hp with hp | hp <;> rw [hp] <;> simp
  pair := by
    rcases hp with hp | hp
    · exact .inr (.inr (.inr (.inr (.inl ⟨hq, hp⟩))))
    · exact .inr (.inr (.inr (.inr (.inr ⟨hq, hp⟩))))
  addr := ⟨fun h => absurd h ha, fun h => by rw [hq] at h; simp at h⟩
  free h := by rw [hq] at h; simp at h

/-! ## Consequences -/

/-- A free request half is the cleared quadruple. -/
theorem Coherent.eq_cleared {r : Regs} (hr : Coherent r) (hq : r.reqState = LcmState.idle) :
    r = Regs.cleared := by
  have hp : r.repState = LcmState.idle := by
    rcases hr.pair with h | h | h | h | h | h
    · exact h.2
    all_goals rw [hq] at h; simp at h
  have ha := hr.addr.mpr hq
  have hb := hr.free hq
  cases r
  simp only [Regs.cleared, Regs.mk.injEq]
  exact ⟨ha, hb, hq, hp⟩

/-- Where a request is, the requester is named. -/
theorem Coherent.reqAddr_ne {r : Regs} (hr : Coherent r) (hq : r.reqState ≠ LcmState.idle) :
    r.reqAddr ≠ "" := by
  intro ha
  exact hq (hr.addr.mp ha)

/-- Where no requester is named, nobody is. -/
theorem Coherent.eq_cleared_of_addr {r : Regs} (hr : Coherent r) (ha : r.reqAddr = "") :
    r = Regs.cleared := hr.eq_cleared (hr.addr.mp ha)

theorem Coherent.repState_cases {r : Regs} (hr : Coherent r) :
    r.repState = LcmState.idle ∨ r.repState = LcmState.call ∨ r.repState = LcmState.work := by
  rcases hr.pair with h | h | h | h | h | h
  · exact .inl h.2
  · exact .inl h.2
  · exact .inr (.inl h.2)
  · exact .inr (.inr h.2)
  · exact .inr (.inl h.2)
  · exact .inr (.inr h.2)

/-! ## Merging and pushing -/

/-- **Any admissible message keeps coherent registers coherent**, whatever it was computed from. -/
theorem Coherent.merge {r m : Regs} (hr : Coherent r) (hm : Admissible m) : Coherent (r.merge m) := by
  rcases hm with hm | hm
  · rw [r.merge_full hm.reqNotNull hm.repNotNull]
    exact hm
  · have hq : (r.merge m).reqState = LcmState.call := by
      rw [r.merge_reqState_of_ne (by rw [hm.call]; simp)]
      exact hm.call
    refine .of_call hq hm.addr ?_
    rw [r.merge_repState_of_null hm.null]
    exact hr.repState_cases

/-- **The pushes of a device with coherent registers are admissible.** -/
theorem Coherent.push {self : LcmNet} {k : PushKind} (hr : Coherent self.regs)
    (hne : self.slave ≠ "") (hg : k.Guard self) : Admissible (k.regs self.slave self.regs) := by
  cases k with
  | request => exact .inr ⟨rfl, rfl, hne⟩
  | answer =>
      obtain ⟨_, _, hq, _⟩ := hg
      exact .inl (.of_call hq (hr.reqAddr_ne (by rw [LcmNet.regs_reqState, hq]; simp)) (.inr (.inl rfl)))
  | reqWork =>
      obtain ⟨_, _, _, hp⟩ := hg
      exact .inl (.of_work rfl hne (.inl hp))
  | repWork =>
      obtain ⟨_, _, hq⟩ := hg
      exact .inl (.of_work hq (hr.reqAddr_ne (by rw [LcmNet.regs_reqState, hq]; simp)) (.inr rfl))
  | clear => exact .inl Coherent.cleared

/-- What an own operation publishes is admissible. -/
theorem Coherent.pushes {h : Host} {o : Op} {r : Regs} (hr : Coherent h.self.regs)
    (hne : h.self.slave ≠ "") (hp : h.pushes o = some r) : Admissible r := by
  rcases h.pushes_cases hp with ⟨_, k, hk, rfl⟩ | ⟨_, _, rfl⟩
  · exact hr.push hne (LcmNet.due_guard hk).2
  · exact .inl hr

/-! ## The network -/

/-- Identities are fixed, the registers of every device are coherent and every message is
    admissible. -/
abbrev CoherentSys (cfg : Config ι) (n : LcmSys ι) : Prop :=
  LocalInv (fun i h => h.self.ident = cfg.ident i ∧ Coherent h.self.regs)
    (fun _ _ (msg : ExlcmLcmJyt) => Admissible msg.regs) n

theorem coherent_start : CoherentSys cfg cfg.start where
  dev i := ⟨boot_ident cfg i, by rw [show cfg.start.dev i = cfg.boot i from rfl, boot_regs]; exact .cleared⟩
  link _ _ _ hm := absurd hm List.not_mem_nil

theorem coherent_step (hne : ∀ i, cfg.addr i ≠ "") {n' : LcmSys ι} {a : LcmAct ι}
    (hn : CoherentSys cfg n) (hs : n.step lcmNode a = some n') : CoherentSys cfg n' := by
  refine hn.step ?_ ?_ hs
  · intro i o h _ ho
    obtain ⟨hi, hc⟩ := hn.dev i
    have hsl : (n.dev i).self.slave ≠ "" := by
      rw [show (n.dev i).self.slave = cfg.addr i from congrArg Ident.slave hi]; exact hne i
    have hf := node_frame ho
    refine ⟨⟨hf.ident.trans hi, by rw [hf.regs]; exact hc⟩, ?_⟩
    intro dst msg hm
    exact hc.pushes hsl ((node_published ho).of_routed hm).1
  · intro src dst k keep msg h _ _ hmsg hr
    obtain ⟨hi, hc⟩ := hn.dev dst
    have hmerge := hc.merge hmsg
    refine ⟨⟨(node_recv_ident hr).trans hi, by rw [node_merge hr]; exact hmerge⟩, ?_⟩
    -- a relay is no request: it carries merged registers
    intro d msg' hm
    left
    rw [relays_eq_some ((node_relays hr).of_routed hm).1]
    exact hmerge

theorem coherent_run (hne : ∀ i, cfg.addr i ≠ "") (hr : cfg.Run ok acts n) : CoherentSys cfg n :=
  hr.invariant coherent_start fun _ _ _ hn _ hs => coherent_step hne hn hs

/-- The way back to `STATE_IDLE` is open only when nobody is named. -/
theorem hungUp_addr {h h' : Host} {k : Option PushKind} {sh : List Event} (hk : LoopStep h h' k sh)
    (hw : h.self.lcmState = .work) (hi : h'.self.lcmState = .idle) : h.self.reqAddr = "" := by
  have ht := hk.trans
  generalize h'.self.lcmRole = role at ht
  generalize hst : h'.self.lcmState = state at ht
  rw [hst] at hi
  cases ht with
  | stay => rw [hw] at hi; simp at hi
  | push => rw [hw] at hi; simp at hi
  | join _ _ hs => rw [hw] at hs; simp at hs
  | hungUp _ _ _ ha => exact ha.2
  | enter | launchReqer | launchReper | timeout | hangUp | ended => simp at hi

/-- **The joint invariant of the shared registers.** In every reachable state every device's registers
    are coherent, and a device that has hung up has both states at `STATE_IDLE`. -/
theorem registers_coherent (hne : ∀ i, cfg.addr i ≠ "") (hr : cfg.Run ok acts n) :
    (∀ i, Coherent (n.dev i).self.regs) ∧
      ∀ i n', n.step lcmNode (.own i .loop) = some n' → (n.dev i).self.lcmState = .work →
        (n'.dev i).self.lcmState = .idle →
        (n'.dev i).self.reqState = LcmState.idle ∧ (n'.dev i).self.repState = LcmState.idle := by
  have hn := coherent_run hne hr
  constructor
  · intro i
    exact (hn.dev i).2
  · intro i n' hs hw hi
    obtain ⟨h, hh, rfl⟩ := Net.step_own.mp hs
    rw [Net.post_dev_self] at hi ⊢
    obtain ⟨k, sh, hk⟩ := node_loop hh
    -- the test is on the addresses; that the states are free too is the invariant
    have ha := hungUp_addr hk hw hi
    have hcl : h.self.regs = Regs.cleared :=
      (node_frame hh).regs.trans ((hn.dev i).2.eq_cleared_of_addr ha)
    exact ⟨congrArg Regs.reqState hcl, congrArg Regs.repState hcl⟩

set_option maxRecDepth 10000 in
/-- The boards of `wlanConfig`, with a call set up. -/
theorem registers_coherent_wlan : ∃ n, wlanConfig.Run (fun _ a => wlanConfig.orderly a = true)
    Wlan.connected n ∧ (n.dev 0).self.reqState = LcmState.work ∧
      ∀ i, Coherent (n.dev i).self.regs := by
  obtain ⟨n, hr, hwork⟩ := wlanConfig.run_of_exec (fun _ a => wlanConfig.orderly a = true)
    Wlan.connected (fun n => (n.dev 0).self.reqState = LcmState.work) (by decide)
  have hne : ∀ i, wlanConfig.addr i ≠ "" := by decide
  exact ⟨n, hr, hwork, (registers_coherent hne hr).1⟩

end DlsSdk
