import DlsSdk.LcmNet.Coherence
import DlsSdk.LcmNet.Relay
import DlsSdk.Library.Replica

/-!
# `LcmNet.Snapshot` — the slaves' registers are copies of the master's

With a master whose buttons are not pressed, everything the master publishes is its own four registers,
without `STATE_NULL`. So a slave's pull replaces all four at once, and every slave holds a quadruple that
the master held at some moment (`snapshot_run`). The master relays every message that changes its
registers, so over lossless queues each slave is a `Replica` of the master (`synced_run`).
-/

namespace DlsSdk

open Network

variable {ι : Type} [DecidableEq ι] {cfg : Config ι} {ok : LcmSys ι → LcmAct ι → Prop}
  {acts : List (LcmAct ι)} {n : LcmSys ι}

/-! ## Every slave holds a past value of the master's registers -/

/-- The master has had the registers `r` along the run, at its end or before. -/
abbrev Config.Held (cfg : Config ι) (ok : LcmSys ι → LcmAct ι → Prop) (acts : List (LcmAct ι))
    (r : Regs) : Prop :=
  Lts.Past (Net.step lcmNode) ok cfg.start cfg.board acts r

/-- The registers of every slave, and of every message on its way to one, are a quadruple that the
    master has held. -/
abbrev Snapshots (cfg : Config ι) (ok : LcmSys ι → LcmAct ι → Prop) (acts : List (LcmAct ι))
    (n : LcmSys ι) : Prop :=
  LocalInv (fun i h => i ≠ cfg.m → cfg.Held ok acts h.self.regs)
    (fun _ dst (msg : ExlcmLcmJyt) => dst ≠ cfg.m → cfg.Held ok acts msg.regs) n

/-- What the master has held is free of `STATE_NULL`, so pulling it replaces all four registers. -/
theorem Config.Held.merge {r m : Regs} (hm : cfg.Held ok acts m) : r.merge m = m := by
  obtain ⟨pre, t, _, hr, rfl⟩ := hm
  have ht := (noNull_run hr).dev cfg.m
  exact r.merge_full ht.req ht.rep

theorem snapshot_step (hch : cfg.ifname ≠ cfg.host) {a : LcmAct ι} {n' : LcmSys ι}
    (hpr : ∀ n a, ok n a → cfg.pureRelay a = true) (hr : cfg.Run ok acts n)
    (hn : Snapshots cfg ok acts n) (hok : ok n a) (hs : n.step lcmNode a = some n') :
    Snapshots cfg ok (acts ++ [a]) n' := by
  have hw := wired_run hch hr
  have hrel := relaying_run hpr hr
  have hnow : cfg.Held ok (acts ++ [a]) (n'.dev cfg.m).self.regs :=
    (Lts.Run.snoc hr hok hs).past cfg.board
  have hold : ∀ r, cfg.Held ok acts r → cfg.Held ok (acts ++ [a]) r :=
    fun r h => h.mono (List.prefix_append acts [a])
  have hn' : Snapshots cfg ok (acts ++ [a]) n :=
    ⟨fun i hi => hold _ (hn.dev i hi), fun src dst msg hm hd => hold _ (hn.link src dst msg hm hd)⟩
  refine hn'.step ?_ ?_ hs
  · intro i o h ha ho
    constructor
    · intro hi
      rw [(node_frame ho).regs]
      exact hn'.dev i hi
    · intro dst msg hm hd
      -- only the master sends to a slave, and what it sends are its registers
      obtain rfl := (wired_routed hch hw (node_published ho) hm).2.mpr hd
      rw [hrel.pushes ((node_published ho).of_routed hm).1]
      exact hold _ (hr.past cfg.board)
  · intro src dst k keep msg h ha hget hmsg hrc
    constructor
    · intro hd
      rw [node_merge hrc, (hmsg hd).merge]
      exact hmsg hd
    · intro d msg' hm hd
      obtain rfl := (wired_routed hch hw (node_relays hrc) hm).2.mpr hd
      -- the relay carries what the master's registers have just become
      rw [relays_eq_some ((node_relays hrc).of_routed hm).1]
      have hboard : cfg.board n' = (cfg.board n).merge msg.regs := board_deliver hget (ha ▸ hs)
      exact hboard ▸ hnow

theorem snapshot_run (hch : cfg.ifname ≠ cfg.host) (hpr : ∀ n a, ok n a → cfg.pureRelay a = true)
    (hr : cfg.Run ok acts n) : Snapshots cfg ok acts n := by
  induction hr with
  | nil =>
      refine ⟨fun i _ => ⟨[], cfg.start, List.prefix_rfl, .nil, ?_⟩,
        fun _ _ _ hm => absurd hm List.not_mem_nil⟩
      show (cfg.boot cfg.m).self.regs = (cfg.boot i).self.regs
      rw [boot_regs, boot_regs]
  | snoc hr hok hs ih => exact snapshot_step hch hpr hr ih hok hs

/-! ## Over lossless queues the slaves catch up -/

/-- The registers among the messages on the way to a device are those that were published for it. -/
theorem routed_regs {h h' d : Host} {r : Option Regs} (hp : Published h.fresh h' r) :
    (routed lcmNode h' d).map ExlcmLcmJyt.regs =
      if h.self.pool = d.self.subscribed then r.toList else [] := by
  cases r with
  | none =>
      rw [show routed lcmNode h' d = [] from by
        simp only [routed, lcmNode, show published h'.log = [] from hp, List.filterMap_nil]]
      simp
  | some r =>
      obtain ⟨msg, hl, _, hr⟩ := hp
      have hout : lcmNode.out h' = [(h.self.pool, msg)] := hl
      by_cases hc : h.self.pool = d.self.subscribed
      · rw [if_pos hc, routed, hout]
        simp only [List.filterMap_cons, show h.self.pool = lcmNode.listens d from hc, if_true,
          List.filterMap_nil, List.map_cons, List.map_nil, hr, Option.toList_some]
      · rw [if_neg hc, routed, hout]
        simp only [List.filterMap_cons, if_neg (show ¬ h.self.pool = lcmNode.listens d from hc),
          List.filterMap_nil, List.map_nil]

/-- Every slave is a replica of the master behind the queue from the master. -/
def SyncedSys (cfg : Config ι) (n : LcmSys ι) : Prop :=
  ∀ i, i ≠ cfg.m → Replica.Synced (n.dev cfg.m).self.regs (n.dev i).self.regs
    ((n.link cfg.m i).map ExlcmLcmJyt.regs)

/-- Every slave listens to the master. -/
theorem master_pool (hw : Wired cfg n) {i : ι} (hi : i ≠ cfg.m) :
    (n.dev cfg.m).self.pool = (n.dev i).self.subscribed := by
  rw [pool_eq (hw.dev cfg.m), subscribed_eq (hw.dev i), if_pos rfl, if_neg hi]

theorem synced_own (hw : Wired cfg n) (hrel : Relaying (n.dev cfg.m).self) (hn : SyncedSys cfg n)
    {i : ι} {o : Op} {h : Host} (ho : lcmNode.own (n.dev i) o = some h) :
    SyncedSys cfg (n.post lcmNode i h) := by
  intro j hj
  have hregs := (node_frame ho).regs
  by_cases hi : i = cfg.m
  · -- the master may broadcast, and then it broadcasts its registers
    subst hi
    rw [Net.post_dev_self, Net.post_dev_ne hj, Net.post_link_self, hregs, List.map_append,
      routed_regs (node_published ho), if_pos (master_pool hw hj)]
    cases hp : (n.dev cfg.m).pushes o with
    | none => rw [Option.toList_none, List.append_nil]; exact hn j hj
    | some r => rw [hrel.pushes hp]; exact Replica.Synced.publish _ _ _
  · rw [Net.post_dev_ne (Ne.symm hi), Net.post_link_ne (Ne.symm hi)]
    by_cases hji : j = i
    · subst hji
      rw [Net.post_dev_self, hregs]; exact hn j hj
    · rw [Net.post_dev_ne hji]; exact hn j hj

/-- A message for the master: it changes the registers and is relayed to every slave. -/
theorem synced_deliver_master (hw : Wired cfg n) {src : ι} {k : Nat} {keep : Bool}
    {msg : ExlcmLcmJyt} {h : Host} (hget : (n.link src cfg.m)[k]? = some msg)
    (hr : lcmNode.recv (n.dev cfg.m) msg = some h) :
    SyncedSys cfg ((if keep then n else n.drop src cfg.m k).post lcmNode cfg.m h) := by
  intro j hj
  have hrelay := relays_of_wired hw (List.mem_of_getElem? hget)
  have hp := node_relays hr
  rw [hrelay] at hp
  rw [Net.post_dev_self, Net.post_dev_ne hj, Net.post_link_self, Net.taken_dev, List.map_append,
    routed_regs hp, if_pos (master_pool hw hj), node_merge hr]
  exact Replica.Synced.publish _ _ _

/-- The oldest message of a slave's queue: the slave takes over what the master sent. -/
theorem synced_deliver_slave (hw : Wired cfg n) (hsnap : Snapshots cfg ok acts n)
    (hn : SyncedSys cfg n) {src dst : ι} {keep : Bool} {msg : ExlcmLcmJyt} {h : Host}
    (hd : dst ≠ cfg.m) (hget : (n.link src dst)[0]? = some msg)
    (hr : lcmNode.recv (n.dev dst) msg = some h) :
    SyncedSys cfg ((if keep then n else n.drop src dst 0).post lcmNode dst h) := by
  intro j hj
  have hmem := List.mem_of_getElem? hget
  obtain rfl : src = cfg.m := (hw.link src dst msg hmem).2.mpr hd
  have hregs : h.self.regs = msg.regs := by
    rw [node_merge hr, (hsnap.link _ dst msg hmem hd).merge]
  rw [Net.post_dev_ne (Ne.symm hd), Net.post_link_ne (Ne.symm hd), Net.taken_dev]
  by_cases hjd : j = dst
  · subst hjd
    rw [Net.post_dev_self, hregs]
    obtain ⟨q, hq⟩ : ∃ q, n.link cfg.m j = msg :: q := by
      cases hl : n.link cfg.m j with
      | nil => rw [hl] at hget; exact absurd hget (by simp)
      | cons m q => rw [hl] at hget; exact ⟨q, by rw [← Option.some.inj hget]⟩
    have hsync := hn j hj
    rw [hq, List.map_cons] at hsync
    cases keep
    · rw [if_neg Bool.false_ne_true, Net.drop_link_self, hq, List.eraseIdx_cons_zero]
      exact hsync.deliver
    · rw [if_pos rfl, hq, List.map_cons]
      exact hsync.redeliver
  · rw [Net.post_dev_ne hjd, Net.taken_dev, Net.taken_link_ne (fun hc => hjd hc.2)]
    exact hn j hj

/-- The network keeps to queues and loses nothing. -/
def Queued : LcmAct ι → Bool := fun a => a.inOrder && a.lossless

theorem synced_step (hw : Wired cfg n) (hrel : Relaying (n.dev cfg.m).self)
    (hsnap : Snapshots cfg ok acts n) (hn : SyncedSys cfg n) {a : LcmAct ι} {n' : LcmSys ι}
    (hq : Queued a = true) (hs : n.step lcmNode a = some n') : SyncedSys cfg n' := by
  cases a with
  | own i o =>
      obtain ⟨h, ho, rfl⟩ := Net.step_own.mp hs
      exact synced_own hw hrel hn ho
  | deliver src dst k keep =>
      obtain ⟨msg, h, hget, hr, rfl⟩ := Net.step_deliver.mp hs
      obtain rfl : k = 0 := by simpa [Queued, Act.inOrder, Act.lossless] using hq
      by_cases hd : dst = cfg.m
      · subst hd; exact synced_deliver_master hw hget hr
      · exact synced_deliver_slave hw hsnap hn hd hget hr
  | lose src dst k => simp [Queued, Act.lossless] at hq

theorem synced_run (hch : cfg.ifname ≠ cfg.host) (hpr : ∀ n a, ok n a → cfg.pureRelay a = true)
    (hq : ∀ n a, ok n a → Queued a = true) (hr : cfg.Run ok acts n) : SyncedSys cfg n := by
  induction hr with
  | nil =>
      intro i _
      show Replica.Synced (cfg.boot cfg.m).self.regs (cfg.boot i).self.regs []
      rw [boot_regs, boot_regs]
      exact .refl _
  | snoc hr hok hs ih =>
      exact synced_step (wired_run hch hr) (relaying_run hpr hr) (snapshot_run hch hpr hr) ih
        (hq _ _ hok) hs

/-- **Slaves only ever see states the master really held.** With a pure-relay master and two different
    channel names, under arbitrary delay, reordering, duplication and loss, every slave's quadruple is
    one the master held at the same or an earlier moment; and over lossless queues, whenever nothing is
    in flight every slave's quadruple is the master's. -/
theorem slaves_see_master (hch : cfg.ifname ≠ cfg.host) :
    (∀ acts n, cfg.Run (fun _ a => cfg.pureRelay a = true) acts n → ∀ i, i ≠ cfg.m →
      ∃ pre n', pre <+: acts ∧ cfg.Run (fun _ a => cfg.pureRelay a = true) pre n' ∧
        (n.dev i).self.regs = (n'.dev cfg.m).self.regs) ∧
    (∀ acts n, cfg.Run (fun _ a => cfg.pureRelay a = true ∧ a.inOrder = true ∧
        a.lossless = true) acts n →
      (∀ src dst, n.link src dst = []) → ∀ i, i ≠ cfg.m →
        (n.dev i).self.regs = (n.dev cfg.m).self.regs) := by
  constructor
  · intro acts n hr i hi
    obtain ⟨pre, n', hp, hr', he⟩ := (snapshot_run hch (fun _ _ h => h) hr).dev i hi
    exact ⟨pre, n', hp, hr', he.symm⟩
  · intro acts n hr hquiet i hi
    have hq : ∀ (_ : LcmSys ι) (a : LcmAct ι), cfg.pureRelay a = true ∧ a.inOrder = true ∧
        a.lossless = true → Queued a = true := by
      rintro _ a ⟨_, h1, h2⟩
      rw [Queued, h1, h2]
      rfl
    have hsync := synced_run hch (fun _ _ h => h.1) hq hr i hi
    rw [hquiet] at hsync
    exact hsync.quiet

/-- Board 1 has requested a call and every message has arrived: board 3 holds the master's registers. -/
def Wlan.settled : List (LcmAct (Fin 4)) :=
  Wlan.requested ++ [Wlan.hear 1, Wlan.hear 2, Wlan.hear 2, Wlan.hear 3, Wlan.hear 3]

set_option maxRecDepth 10000 in
theorem slaves_see_master_wlan : ∃ n, wlanConfig.Run (fun _ a => wlanConfig.pureRelay a = true ∧
      a.inOrder = true ∧ a.lossless = true) Wlan.settled n ∧
    (n.dev 3).self.reqAddr = wlanConfig.addr 1 ∧ (n.dev 3).self.regs = (n.dev 0).self.regs := by
  obtain ⟨n, hr, hquiet, hreq⟩ := wlanConfig.run_of_exec
    (fun _ a => wlanConfig.pureRelay a = true ∧ a.inOrder = true ∧ a.lossless = true) Wlan.settled
    (fun n => (∀ src dst, n.link src dst = []) ∧ (n.dev 3).self.reqAddr = wlanConfig.addr 1)
    (by decide)
  have hch : wlanConfig.ifname ≠ wlanConfig.host := by decide
  exact ⟨n, hr, hreq, (slaves_see_master hch).2 Wlan.settled n hr hquiet 3 (by decide)⟩

end DlsSdk
