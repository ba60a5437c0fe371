import DlsSdk.LcmNet.Transition
import DlsSdk.Library.Network
import Mathlib.Algebra.GroupWithZero.Nat
import Mathlib.Data.Fintype.Basic

/-!
# `LcmNet.System` — one master and its slaves on the network

The devices of `Loop` as the nodes of a `Network`: a device is configured by `lcm_net_load`, and it is
the master exactly if its own address is the configured master string. The master publishes on the
`ifname` channel and listens on its own; everybody else does it the other way round.

* `Config.start` — every device zero-initialised and loaded, nothing in flight;
* `Host.pushes` / `own_published` — what an own operation publishes is a function of the state: the push
  that is due, or the registers (`Host.pushes_cases`);
* `Wired` / `wired_run` — the identities never change, and (with two channel names) messages travel only
  between the master and a slave, under the sender's address.
-/

namespace DlsSdk

open Network

/-- A system: the two strings every device is started with, the address `ifconfig` gives each of them,
    and the clocks they start at. Exactly one device has the configured master's address. -/
structure Config (ι : Type) where
  ifname : String
  host : String
  addr : ι → String
  clock : ι → Int
  m : ι
  addr_m : addr m = host
  only_m : ∀ i, addr i = host → i = m

/-- The device before a step: its log is empty, so that afterwards it is what the step did. -/
def Host.fresh (h : Host) : Host := { h with log := [] }

@[simp] theorem fresh_self (h : Host) : h.fresh.self = h.self := rfl
@[simp] theorem fresh_log (h : Host) : h.fresh.log = [] := rfl

/-- A device as a node. -/
def lcmNode : Node Host Op ExlcmLcmJyt String where
  own h o := h.fresh.own o
  recv h msg := some (lcmNetPull h.fresh msg)
  out h := published h.log
  listens h := h.self.subscribed

abbrev LcmSys (ι : Type) := Net ι Host ExlcmLcmJyt

abbrev LcmAct (ι : Type) := Act ι Op

variable {ι : Type} [DecidableEq ι] {cfg : Config ι}

def Config.boot (cfg : Config ι) (i : ι) : Host :=
  Host.boot cfg.ifname cfg.host (cfg.addr i) (cfg.clock i)

def Config.start (cfg : Config ι) : LcmSys ι where
  dev := cfg.boot
  link _ _ := []

/-- A run of the system along `acts` whose steps meet the guard `ok`. -/
abbrev Config.Run (cfg : Config ι) (ok : LcmSys ι → LcmAct ι → Prop) (acts : List (LcmAct ι))
    (n : LcmSys ι) : Prop :=
  Lts.Run (Net.step lcmNode) ok cfg.start acts n

/-- The master is a pure relay: none of its buttons is pressed. -/
def Config.pureRelay (cfg : Config ι) : LcmAct ι → Bool
  | .own i (.button _) => decide (i ≠ cfg.m)
  | _ => true

/-- The registers of the master: what the slaves share. -/
def Config.board (cfg : Config ι) (n : LcmSys ι) : Regs := (n.dev cfg.m).self.regs

def Config.ident (cfg : Config ι) (i : ι) : Ident :=
  ⟨cfg.addr i, decide (i = cfg.m), cfg.ifname, cfg.host⟩

omit [DecidableEq ι] in
theorem Config.host_eq_addr {i : ι} : cfg.host = cfg.addr i ↔ i = cfg.m := by
  constructor
  · intro h; exact cfg.only_m i h.symm
  · rintro rfl; exact cfg.addr_m.symm

omit [DecidableEq ι] in
theorem boot_regs (cfg : Config ι) (i : ι) : (cfg.boot i).self.regs = Regs.cleared :=
  load_regs cfg.ifname cfg.host (cfg.addr i) (cfg.clock i)

omit [DecidableEq ι] in
theorem boot_mode (cfg : Config ι) (i : ι) :
    (cfg.boot i).self.lcmRole = .null ∧ (cfg.boot i).self.lcmState = .idle :=
  load_mode cfg.ifname cfg.host (cfg.addr i) (cfg.clock i)

theorem boot_ident (cfg : Config ι) (i : ι) : (cfg.boot i).self.ident = cfg.ident i := by
  simp only [Config.boot, Host.boot, lcmNetLoad, LcmNet.ident, Config.ident, cfg.host_eq_addr]
  by_cases hi : i = cfg.m
  · rw [if_pos hi, decide_eq_true hi]
  · rw [if_neg hi, decide_eq_false hi]
    rfl

/-- There is a board `0`: the numerals of `Fin 4` below share this fact. -/
instance Wlan.neZero : NeZero 4 := ⟨by decide⟩

/-- The network of the comment over `main`: the master's address is the third string of the
    configuration, and three more boards on the same interface. -/
def wlanConfig : Config (Fin 4) where
  ifname := "wlan0"
  host := "192.168.137.192"
  addr
    | 0 => "192.168.137.192"
    | 1 => "192.168.137.101"
    | 2 => "192.168.137.102"
    | 3 => "192.168.137.103"
  clock _ := 1559098680000000
  m := 0
  addr_m := rfl
  only_m := by decide

/-- A concrete run of the system is a computation. -/
theorem Config.run_of_exec (cfg : Config ι) (ok : LcmSys ι → LcmAct ι → Prop)
    [∀ n a, Decidable (ok n a)] (acts : List (LcmAct ι)) (p : LcmSys ι → Prop) [DecidablePred p]
    (h : ∃ n, n ∈ Lts.exec (Net.step lcmNode) (fun n a => decide (ok n a)) cfg.start acts ∧ p n) :
    ∃ n, cfg.Run ok acts n ∧ p n :=
  Lts.Run.of_exec h

/-- The network is at its best and the master is a pure relay: every link is a queue, nothing is lost
    and nothing arrives twice. -/
def Config.orderly (cfg : Config ι) (a : LcmAct ι) : Bool :=
  cfg.pureRelay a && a.inOrder && a.once && a.lossless

namespace Wlan

/-- The master's periodic broadcast. -/
def beat : LcmAct (Fin 4) := .own 0 .sync

/-- Board `i` gets the oldest message of the master. -/
def hear (i : Fin 4) : LcmAct (Fin 4) := .deliver 0 i 0 false

/-- The master gets the oldest message of board `i`. -/
def tell (i : Fin 4) : LcmAct (Fin 4) := .deliver i 0 0 false

def loop (i : Fin 4) : LcmAct (Fin 4) := .own i .loop

def press (i : Fin 4) (b : Button) : LcmAct (Fin 4) := .own i (.button b)

/-- Board 1 requests a call and the master relays the request. -/
def requested : List (LcmAct (Fin 4)) :=
  [press 1 .tryReqer, beat, hear 1, loop 1, tell 1]

/-- Board 2 answers. -/
def answered : List (LcmAct (Fin 4)) :=
  requested ++ [press 2 .tryReper, hear 2, hear 2, loop 2, tell 2]

/-- Both boards have entered `STATE_CALL` and the requester has moved on to `STATE_WORK`. -/
def connected : List (LcmAct (Fin 4)) :=
  answered ++ [hear 1, hear 1, loop 1, hear 2, loop 2, loop 1, tell 1]

end Wlan

/-! ## What an own operation publishes -/

/-- The registers an own operation publishes, if any: the push that is due, or the periodic
    broadcast. -/
def Host.pushes (h : Host) : Op → Option Regs
  | .loop => h.self.due.map (PushKind.regs h.self.slave h.self.regs)
  | .sync => if h.SyncDue then some h.self.regs else none
  | _ => none

/-- What is published is the push that is due or, by the periodic broadcast, the registers. -/
theorem Host.pushes_cases {h : Host} {o : Op} {r : Regs} (hp : h.pushes o = some r) :
    (o = .loop ∧ ∃ k, h.self.due = some k ∧ r = k.regs h.self.slave h.self.regs) ∨
      (o = .sync ∧ h.SyncDue ∧ r = h.self.regs) := by
  cases o with
  | loop =>
      obtain ⟨k, hk, rfl⟩ := Option.map_eq_some_iff.mp hp
      exact .inl ⟨rfl, k, hk, rfl⟩
  | sync =>
      by_cases hd : h.SyncDue
      · rw [Host.pushes, if_pos hd] at hp
        exact .inr ⟨rfl, hd, (Option.some.inj hp).symm⟩
      · rw [Host.pushes, if_neg hd] at hp
        exact absurd hp (by simp)
  | tick clock => exact absurd hp (by simp [Host.pushes])
  | button b => exact absurd hp (by simp [Host.pushes])

theorem own_published {h h' : Host} {o : Op} (ho : h.own o = some h') :
    Published h h' (h.pushes o) := by
  cases o with
  | tick clock => obtain rfl := Option.some.inj ho; exact rfl
  | button b =>
      obtain rfl := Option.some.inj ho
      exact congrArg published (press_log h b)
  | loop =>
      obtain ⟨k, sh, hk⟩ := stateLoop_step ho
      have hp := hk.published
      rw [hk.trans.push_eq] at hp
      exact hp
  | sync => obtain rfl := Option.some.inj ho; exact sync_published h

/-- A message in the log of a step carries what the step published. -/
theorem Published.of_log {h h' : Host} {r : Option Regs} {p : String × ExlcmLcmJyt}
    (hp : Published h.fresh h' r) (hm : p ∈ published h'.log) : r = some p.2.regs := by
  cases r with
  | none =>
      rw [show published h'.log = [] from hp] at hm
      exact absurd hm List.not_mem_nil
  | some r =>
      obtain ⟨msg, hl, -, hr⟩ := hp
      rw [hl] at hm
      obtain rfl : p = (h.self.pool, msg) := by simpa using hm
      exact congrArg some hr.symm

/-- A message that a step puts on a link carries what the step published, under the sender's address;
    the receiver listens on the sender's channel. -/
theorem Published.of_routed {h h' d : Host} {r : Option Regs} {msg : ExlcmLcmJyt}
    (hp : Published h.fresh h' r) (hm : msg ∈ routed lcmNode h' d) :
    r = some msg.regs ∧ msg.srcAddr = h.self.slave ∧ h.self.pool = d.self.subscribed := by
  have hout : (d.self.subscribed, msg) ∈ published h'.log := mem_routed.mp hm
  cases r with
  | none =>
      rw [show published h'.log = [] from hp] at hout
      exact absurd hout List.not_mem_nil
  | some r =>
      obtain ⟨msg', hl, hsrc, hr⟩ := hp
      rw [hl] at hout
      obtain ⟨hc, rfl⟩ : d.self.subscribed = h.self.pool ∧ msg = msg' := by simpa using hout
      exact ⟨congrArg some hr.symm, hsrc, hc.symm⟩

/-! ## The steps of a node -/

theorem node_frame {h h' : Host} {o : Op} (ho : lcmNode.own h o = some h') :
    SameFrame h.self h'.self := own_frame (h := h.fresh) ho

theorem node_published {h h' : Host} {o : Op} (ho : lcmNode.own h o = some h') :
    Published h.fresh h' (h.pushes o) := own_published (h := h.fresh) ho

theorem node_own {h h' : Host} {o : Op} (ho : lcmNode.own h o = some h') : OwnStep h.fresh h' o :=
  own_step (h := h.fresh) ho

theorem node_loop {h h' : Host} (ho : lcmNode.own h .loop = some h') :
    ∃ k sh, LoopStep h.fresh h' k sh := stateLoop_step ho

/-- A node launches only out of `STATE_CALL`, with the addresses of its registers. -/
theorem node_launch {h h' : Host} (ho : lcmNode.own h .loop = some h') {e : Event}
    (he : e.isLaunch = true) (hm : e ∈ h'.log) : h.self.Launches e := by
  obtain ⟨k, sh, hk⟩ := node_loop ho
  exact hk.launches rfl he hm

/-- `STATE_CALL` is entered only by `lcm_net_idle_loop`, when the registers name the device. -/
theorem node_call {h h' : Host} {o : Op} (ho : lcmNode.own h o = some h')
    (hs : h'.self.lcmState = .call) :
    (h.self.lcmState = .call ∧ h'.self.lcmRole = h.self.lcmRole) ∨
      (o = .loop ∧ h.self.Enters h'.self.lcmRole) := by
  cases node_own ho with
  | kept hr hs' => exact .inl ⟨hs'.symm.trans hs, hr⟩
  | button hp => exact .inl (hp.call hs)
  | loop hk =>
      have ht := hk.trans
      generalize h'.self.lcmRole = role at ht ⊢
      generalize h'.self.lcmState = state at ht hs
      -- of the lines that change the state only `enter` leads into `STATE_CALL`
      cases ht with
      | stay => exact .inl ⟨hs, rfl⟩
      | push => exact .inl ⟨hs, rfl⟩
      | enter hw hr hi hn => exact .inr ⟨rfl, hw, hr, hi, hn⟩
      | join | launchReqer | launchReper | timeout | hangUp | hungUp | ended => simp at hs

theorem node_recv {h h' : Host} {msg : ExlcmLcmJyt} (hr : lcmNode.recv h msg = some h') :
    h' = lcmNetPull h.fresh msg := (Option.some.inj hr).symm

/-- What a pull publishes: the master's relay. -/
def Host.relays (h : Host) (msg : ExlcmLcmJyt) : Option Regs :=
  if h.self.isMaster ∧ msg.srcAddr ≠ h.self.slave then some (h.self.regs.merge msg.regs) else none

theorem node_relays {h h' : Host} {msg : ExlcmLcmJyt} (hr : lcmNode.recv h msg = some h') :
    Published h.fresh h' (h.relays msg) := by
  rw [node_recv hr]
  exact pull_published h.fresh msg

theorem relays_eq_some {h : Host} {msg : ExlcmLcmJyt} {r : Regs} (hr : h.relays msg = some r) :
    r = h.self.regs.merge msg.regs := by
  unfold Host.relays at hr
  split at hr
  · exact (Option.some.inj hr).symm
  · exact absurd hr (by simp)

theorem node_merge {h h' : Host} {msg : ExlcmLcmJyt} (hr : lcmNode.recv h msg = some h') :
    h'.self.regs = h.self.regs.merge msg.regs := by
  rw [node_recv hr]
  exact pull_regs h.fresh msg

theorem node_recv_ident {h h' : Host} {msg : ExlcmLcmJyt} (hr : lcmNode.recv h msg = some h') :
    h'.self.ident = h.self.ident := by
  rw [node_recv hr]
  exact pull_ident h.fresh msg

theorem node_recv_mode {h h' : Host} {msg : ExlcmLcmJyt} (hr : lcmNode.recv h msg = some h') :
    h'.self.lcmRole = h.self.lcmRole ∧ h'.self.lcmState = h.self.lcmState ∧
      h'.self.waitData = true := by
  rw [node_recv hr]
  exact pull_mode h.fresh msg

/-! ## Identities and routes -/

theorem isMaster_iff {self : LcmNet} {i : ι} (hi : self.ident = cfg.ident i) :
    self.isMaster = true ↔ i = cfg.m := by
  rw [show self.isMaster = decide (i = cfg.m) from congrArg Ident.isMaster hi, decide_eq_true_iff]

theorem pool_eq {self : LcmNet} {i : ι} (hi : self.ident = cfg.ident i) :
    self.pool = if i = cfg.m then cfg.ifname else cfg.host := by
  have hm : self.isMaster = decide (i = cfg.m) := congrArg Ident.isMaster hi
  have hf : self.ifname = cfg.ifname := congrArg Ident.ifname hi
  have hh : self.master = cfg.host := congrArg Ident.master hi
  rw [LcmNet.pool, hm, hf, hh]
  by_cases h : i = cfg.m <;> simp [h]

theorem subscribed_eq {self : LcmNet} {i : ι} (hi : self.ident = cfg.ident i) :
    self.subscribed = if i = cfg.m then cfg.host else cfg.ifname := by
  have hm : self.isMaster = decide (i = cfg.m) := congrArg Ident.isMaster hi
  have hf : self.ifname = cfg.ifname := congrArg Ident.ifname hi
  have hh : self.master = cfg.host := congrArg Ident.master hi
  rw [LcmNet.subscribed, hm, hf, hh]
  by_cases h : i = cfg.m <;> simp [h]

/-- With two different channel names a message can only go from the master to a slave or back. -/
theorem route_of_pool (hch : cfg.ifname ≠ cfg.host) {a b : LcmNet} {i j : ι}
    (ha : a.ident = cfg.ident i) (hb : b.ident = cfg.ident j) (h : a.pool = b.subscribed) :
    i = cfg.m ↔ j ≠ cfg.m := by
  rw [pool_eq ha, subscribed_eq hb] at h
  by_cases hi : i = cfg.m <;> by_cases hj : j = cfg.m
  · rw [if_pos hi, if_pos hj] at h; exact absurd h hch
  · simp [hi, hj]
  · simp [hi, hj]
  · rw [if_neg hi, if_neg hj] at h; exact absurd h.symm hch

/-- Identities never change, whatever the channels. -/
theorem ident_step {n n' : LcmSys ι} {a : LcmAct ι} (hn : ∀ i, (n.dev i).self.ident = cfg.ident i)
    (hs : n.step lcmNode a = some n') (i : ι) : (n'.dev i).self.ident = cfg.ident i := by
  rcases Net.step_dev hs i with he | ⟨_, _, ho⟩ | ⟨_, _, _, _, _, _, hr⟩
  · rw [he]
    exact hn i
  · exact (node_frame ho).ident.trans (hn i)
  · exact (node_recv_ident hr).trans (hn i)

theorem ident_run {ok : LcmSys ι → LcmAct ι → Prop} {acts : List (LcmAct ι)} {n : LcmSys ι}
    (hr : cfg.Run ok acts n) (i : ι) : (n.dev i).self.ident = cfg.ident i :=
  hr.invariant (I := fun n => ∀ i, (n.dev i).self.ident = cfg.ident i) (boot_ident cfg)
    (fun _ _ _ hn _ hs => ident_step hn hs) i

theorem device_slave {ok : LcmSys ι → LcmAct ι → Prop} {acts : List (LcmAct ι)} {n : LcmSys ι}
    (hr : cfg.Run ok acts n) (i : ι) : (n.dev i).self.slave = cfg.addr i :=
  congrArg Ident.slave (ident_run hr i)

/-- Identities are fixed; on the links, messages carry their sender's address and go between the master
    and a slave. -/
abbrev Wired (cfg : Config ι) (n : LcmSys ι) : Prop :=
  LocalInv (fun i h => h.self.ident = cfg.ident i)
    (fun src dst (msg : ExlcmLcmJyt) => msg.srcAddr = cfg.addr src ∧ (src = cfg.m ↔ dst ≠ cfg.m)) n

theorem wired_start : Wired cfg cfg.start where
  dev i := boot_ident cfg i
  link _ _ _ hm := absurd hm List.not_mem_nil

/-- A published message leaves a wired device on a proper route. -/
theorem wired_routed (hch : cfg.ifname ≠ cfg.host) {n : LcmSys ι} (hn : Wired cfg n) {i dst : ι}
    {h' : Host} {r : Option Regs} (hp : Published (n.dev i).fresh h' r)
    {msg : ExlcmLcmJyt} (hm : msg ∈ routed lcmNode h' (n.dev dst)) :
    msg.srcAddr = cfg.addr i ∧ (i = cfg.m ↔ dst ≠ cfg.m) := by
  obtain ⟨_, hsrc, hpool⟩ := hp.of_routed hm
  exact ⟨hsrc.trans (congrArg Ident.slave (hn.dev i)),
    route_of_pool hch (hn.dev i) (hn.dev dst) hpool⟩

theorem wired_step (hch : cfg.ifname ≠ cfg.host) {n n' : LcmSys ι} {a : LcmAct ι}
    (hn : Wired cfg n) (hs : n.step lcmNode a = some n') : Wired cfg n' := by
  refine hn.step ?_ ?_ hs
  · intro i o h _ ho
    exact ⟨(node_frame ho).ident.trans (hn.dev i), fun dst msg hm =>
      wired_routed hch hn (node_published ho) hm⟩
  · intro src dst k keep msg h _ _ _ hr
    exact ⟨(node_recv_ident hr).trans (hn.dev dst), fun d msg' hm =>
      wired_routed hch hn (node_relays hr) hm⟩

/-- **Wiring.** In every reachable state, under every delivery discipline. -/
theorem wired_run (hch : cfg.ifname ≠ cfg.host) {ok : LcmSys ι → LcmAct ι → Prop}
    {acts : List (LcmAct ι)} {n : LcmSys ι} (hr : cfg.Run ok acts n) : Wired cfg n :=
  hr.invariant wired_start fun _ _ _ hn _ hs => wired_step hch hn hs

end DlsSdk
