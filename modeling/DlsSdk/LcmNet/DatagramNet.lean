import DlsSdk.Library.Transport
import DlsSdk.LcmNet.Datagrams
import DlsSdk.LcmNet.System

/-!
# `LcmNet.DatagramNet` — the network over datagrams

The devices of `System` publish messages and pull them. What they really hand to LCM and get from it are bytes,
and neither encoding nor decoding has to succeed. Two results say that they do.

* `datagrams_refine` — if every address fits the buffer it is read into, the system over datagrams has the runs
  of the system over messages, encoded: what is proved of the one holds of the other.
* `hostile_run` — whatever datagrams arrive, a device never publishes what cannot be encoded.

Both rest on what a device says (`WellSpoken`): its address and its registers, which are C strings of bounded
length, and no extension bytes.
-/

namespace DlsSdk

open Network ByteBuffer ByteString

/-! ## Pushes carry no extension -/

/-- The messages among the events carry no extension bytes. -/
def Bare (log : List Event) : Prop := ∀ p ∈ published log, p.2.numExts = 0 ∧ p.2.exts = []

theorem bare_nil : Bare [] := fun _ h => absurd h List.not_mem_nil

theorem bare_emit {h : Host} {e : Event} (hb : Bare h.log) (he : Bare [e]) : Bare (h.emit e).log := by
  intro p hp
  rw [emit_log, published_append] at hp
  exact (List.mem_append.mp hp).elim (hb p) (he p)

theorem bare_push {h : Host} (hb : Bare h.log) (reqAddr repAddr : String) (reqState repState : UInt8) :
    Bare (lcmNetPush h reqAddr repAddr reqState repState 0 []).log := by
  refine bare_emit hb ?_
  intro p hp
  obtain rfl := List.mem_singleton.mp hp
  exact ⟨rfl, rfl⟩

theorem bare_sampleNng (a b c d : String) : Bare [.sampleNng a b c d] := bare_nil

theorem bare_killall : Bare [.killall] := bare_nil

theorem bare_idleLoop {h : Host} (hb : Bare h.log) : Bare (lcmNetIdleLoop h).log := by
  unfold lcmNetIdleLoop
  cases h.self.lcmRole with
  | null | idle =>
      dsimp only
      repeat' split
      all_goals exact hb
  | reqer =>
      dsimp only
      repeat' split
      all_goals first | exact hb | exact bare_push hb _ _ _ _
  | reper =>
      dsimp only
      repeat' split
      all_goals first | exact hb | exact bare_push hb _ _ _ _

theorem bare_callLoop {h : Host} (hb : Bare h.log) : Bare (lcmNetCallLoop h).log := by
  unfold lcmNetCallLoop
  cases h.self.lcmRole with
  | null | idle => exact hb
  | reqer =>
      have hwait : Bare (reqerWait h).log := by
        rw [(reqerWait_waited h).log]
        exact hb
      dsimp only
      repeat' split
      · exact bare_emit hb (bare_sampleNng _ _ _ _)
      · exact bare_push hwait _ _ _ _
      · exact hwait
      · exact hb
  | reper =>
      dsimp only
      repeat' split
      · exact bare_emit (bare_push hb _ _ _ _) (bare_sampleNng _ _ _ _)
      · rw [(reperWait_waited h).log]
        exact hb
      · exact hb

theorem bare_workLoop {h : Host} (hb : Bare h.log) : Bare (lcmNetWorkLoop h).log := by
  unfold lcmNetWorkLoop
  cases h.self.lcmRole with
  | null => exact hb
  | idle =>
      dsimp only
      repeat' split
      · exact bare_emit (bare_push hb _ _ _ _) bare_killall
      · exact bare_emit (bare_push hb _ _ _ _) bare_killall
      · exact hb
  | reqer | reper =>
      dsimp only
      repeat' split
      all_goals exact hb

theorem bare_own {h h' : Host} {o : Op} (hb : Bare h.log) (ho : h.own o = some h') : Bare h'.log := by
  cases o with
  | tick clock =>
      obtain rfl := Option.some.inj ho
      exact hb
  | button b =>
      obtain rfl := Option.some.inj ho
      rw [press_log]
      exact hb
  | loop =>
      change lcmNetStateLoop h = some h' at ho
      unfold lcmNetStateLoop at ho
      split at ho
      · exact Option.some.inj ho ▸ bare_idleLoop hb
      · exact Option.some.inj ho ▸ bare_callLoop hb
      · exact Option.some.inj ho ▸ bare_workLoop hb
      · exact absurd ho (by simp)
  | sync =>
      obtain rfl := Option.some.inj ho
      simp only [lcmNetSync]
      repeat' split
      · exact bare_push hb _ _ _ _
      all_goals exact hb

theorem bare_pull {h : Host} (hb : Bare h.log) (msg : ExlcmLcmJyt) : Bare (lcmNetPull h msg).log := by
  show Bare (pullRelay (pullClock (pullRegisters h msg) msg) msg).log
  have hlog : Bare (pullClock (pullRegisters h msg) msg).log := by
    rw [pullClock_log]
    exact hb
  generalize pullClock (pullRegisters h msg) msg = g at hlog ⊢
  unfold pullRelay
  split
  · exact bare_push hlog _ _ _ _
  · exact hlog

/-! ## What a device says -/

/-- A C string of at most `L` bytes. -/
structure Addr (L : Nat) (s : String) : Prop where
  cstring : CString s
  short : (bytes s).length ≤ L

theorem addr_empty (L : Nat) : Addr L "" := ⟨⟨by simp [Narrow], by simp [bytes]⟩, Nat.zero_le L⟩

/-- A message with three short strings and no extension. -/
structure Spoken (L : Nat) (m : ExlcmLcmJyt) : Prop where
  src : Addr L m.srcAddr
  req : Addr L m.reqAddr
  rep : Addr L m.repAddr
  bare : m.numExts = 0 ∧ m.exts = []

/-- The address and the registers are short, and so is all that has been said. -/
structure WellSpoken (L : Nat) (h : Host) : Prop where
  slave : Addr L h.self.slave
  req : Addr L h.self.reqAddr
  rep : Addr L h.self.repAddr
  said : ∀ p ∈ published h.log, Spoken L p.2

variable {L : Nat} {h h' : Host} {m : ExlcmLcmJyt}

/-- The length of a message is an `int`. -/
theorem Spoken.sendable (hm : Spoken L m) (hL : 31 + 3 * L < 2147483648) : Sendable m where
  src := hm.src.cstring
  req := hm.req.cstring
  rep := hm.rep.cstring
  exts := by
    rw [hm.bare.1, hm.bare.2]
    rfl
  size := by
    have hsrc := hm.src.short
    have hreq := hm.req.short
    have hrep := hm.rep.short
    rw [length_wire, hm.bare.2, List.length_nil]
    omega

theorem WellSpoken.bare (hh : WellSpoken L h) : Bare h.log := fun p hp => (hh.said p hp).bare

theorem WellSpoken.fresh (hh : WellSpoken L h) : WellSpoken L h.fresh :=
  ⟨hh.slave, hh.req, hh.rep, fun _ hp => absurd hp List.not_mem_nil⟩

/-- What is said next is said under the own address and carries two short addresses. -/
theorem WellSpoken.said_next (hh : WellSpoken L h) {r : Option Regs} (hp : Published h h' r) (hb : Bare h'.log)
    (hr : ∀ regs, r = some regs → Addr L regs.reqAddr ∧ Addr L regs.repAddr) :
    ∀ p ∈ published h'.log, Spoken L p.2 := by
  cases r with
  | none =>
      intro p hmem
      rw [show published h'.log = published h.log from hp] at hmem
      exact hh.said p hmem
  | some regs =>
      obtain ⟨msg, hlog, hsrc, rfl⟩ := hp
      intro p hmem
      have hbare := hb p hmem
      rw [hlog] at hmem
      obtain hold | hnew := List.mem_append.mp hmem
      · exact hh.said p hold
      · obtain rfl := List.mem_singleton.mp hnew
        obtain ⟨hreq, hrep⟩ := hr _ rfl
        exact ⟨by rw [hsrc]; exact hh.slave, hreq, hrep, hbare⟩

/-- The addresses of a push are the own one, a register's, or empty. -/
theorem WellSpoken.pushes (hh : WellSpoken L h) {o : Op} {r : Regs} (hr : h.pushes o = some r) :
    Addr L r.reqAddr ∧ Addr L r.repAddr := by
  obtain ⟨-, k, -, rfl⟩ | ⟨-, -, rfl⟩ := Host.pushes_cases hr
  · cases k with
    | request | reqWork => exact ⟨hh.slave, hh.rep⟩
    | answer | repWork => exact ⟨hh.req, hh.slave⟩
    | clear => exact ⟨addr_empty L, addr_empty L⟩
  · exact ⟨hh.req, hh.rep⟩

theorem WellSpoken.own (hh : WellSpoken L h) {o : Op} (ho : h.own o = some h') : WellSpoken L h' := by
  have hf := own_frame ho
  have hreq : h'.self.reqAddr = h.self.reqAddr := congrArg Regs.reqAddr hf.regs
  have hrep : h'.self.repAddr = h.self.repAddr := congrArg Regs.repAddr hf.regs
  have hslave : h'.self.slave = h.self.slave := congrArg Ident.slave hf.ident
  exact ⟨by rw [hslave]; exact hh.slave, by rw [hreq]; exact hh.req, by rw [hrep]; exact hh.rep,
    hh.said_next (own_published ho) (bare_own hh.bare ho) fun _ => hh.pushes⟩

/-- A pull takes over the two addresses of the message, and the master says them again. -/
theorem WellSpoken.pull (hh : WellSpoken L h) {msg : ExlcmLcmJyt} (hreq : Addr L msg.reqAddr)
    (hrep : Addr L msg.repAddr) : WellSpoken L (lcmNetPull h msg) := by
  have hr := pull_regs h msg
  have hreqAddr : (lcmNetPull h msg).self.reqAddr = msg.reqAddr := congrArg Regs.reqAddr hr
  have hrepAddr : (lcmNetPull h msg).self.repAddr = msg.repAddr := congrArg Regs.repAddr hr
  have hslave : (lcmNetPull h msg).self.slave = h.self.slave :=
    congrArg Ident.slave (pull_ident h msg)
  refine ⟨by rw [hslave]; exact hh.slave, by rw [hreqAddr]; exact hreq, by rw [hrepAddr]; exact hrep,
    hh.said_next (pull_published h msg) (bare_pull hh.bare msg) fun regs hregs => ?_⟩
  split at hregs
  · obtain rfl := Option.some.inj hregs
    exact ⟨hreq, hrep⟩
  · exact absurd hregs (by simp)

theorem wellSpoken_boot {ifname master devIp : String} {clock : Int} (hs : Addr L devIp) :
    WellSpoken L (Host.boot ifname master devIp clock) := by
  have hregs := load_regs ifname master devIp clock
  have hreq : (Host.boot ifname master devIp clock).self.reqAddr = "" := congrArg Regs.reqAddr hregs
  have hrep : (Host.boot ifname master devIp clock).self.repAddr = "" := congrArg Regs.repAddr hregs
  exact ⟨by rw [load_slave]; exact hs, by rw [hreq]; exact addr_empty L,
    by rw [hrep]; exact addr_empty L, fun _ hp => absurd hp List.not_mem_nil⟩

/-! ## The network over datagrams -/

/-- A device that publishes and receives datagrams. Those that are dropped leave it as it is, and a step that C
    does not define cannot be taken. `lcmNetDebug` says at which addresses messages are printed. -/
def datagramNode (heap : Heap) (lcmNetDebug : String → Bool) : Node Host Op (List UInt8) String where
  own h o := h.fresh.own o
  recv h data := match jytHandlerStub (lcmNetDebug h.self.slave) h.fresh data with
    | .done h' => some h'
    | .failed _ => some h.fresh
    | .undefined => none
  out h := (published h.log).filterMap fun p => match jytPublish heap p.2 with
    | .done data => some (p.1, data)
    | _ => none
  listens h := h.self.subscribed

variable {heap : Heap} {lcmNetDebug : String → Bool}

theorem datagramNode_encodes (hL : 31 + 3 * L < 2147483648) :
    Encodes ExlcmLcmJyt.wire (WellSpoken L) (Spoken L) lcmNode (datagramNode heap lcmNetDebug) where
  own _ _ _ := rfl
  recv h m _ hm := by
    have hstub := handlerStub_wire (hm.sendable hL) (lcmNetDebug h.self.slave) h.fresh []
    rw [List.append_nil] at hstub
    show (match jytHandlerStub _ _ _ with
      | .done h' => some h'
      | .failed _ => some h.fresh
      | .undefined => none : Option Host) = _
    rw [hstub]
    rfl
  out h hh := by
    show (published h.log).filterMap _ = (published h.log).map _
    rw [← List.filterMap_eq_map]
    refine List.filterMap_congr fun p hp => ?_
    rw [publish_eq ((hh.said p hp).sendable hL)]
    rfl
  listens _ := rfl
  own_mem _ _ _ hh ho := hh.fresh.own ho
  recv_mem _ _ _ hh hm hr := by
    rw [node_recv hr]
    exact hh.fresh.pull hm.req hm.rep
  out_mem _ hh := hh.said

section Net
variable {ι : Type} [DecidableEq ι] {cfg : Config ι}

omit [DecidableEq ι] in
theorem coded_start (haddr : ∀ i, Addr L (cfg.addr i)) :
    Coded (WellSpoken L) (Spoken L) cfg.start where
  dev i := wellSpoken_boot (haddr i)
  link _ _ _ hm := absurd hm List.not_mem_nil

/-- **The system over datagrams refines the system over messages**, and the other way round. Where every
    device has an address that `get_dev_ip` can read, the runs over datagrams are the runs over messages with
    everything in flight encoded, under every delivery discipline: encoding never fails, and of what the
    devices send each other nothing is dropped and nothing leaves what C defines. -/
theorem datagrams_refine (cfg : Config ι) (heap : Heap) (lcmNetDebug : String → Bool)
    (haddr : ∀ i, Addr 1023 (cfg.addr i)) {ok : Net ι Host (List UInt8) → LcmAct ι → Prop}
    {acts : List (LcmAct ι)} {w : Net ι Host (List UInt8)} :
    Lts.Run (Net.step (datagramNode heap lcmNetDebug)) ok (cfg.start.encode ExlcmLcmJyt.wire) acts w ↔
      ∃ n, cfg.Run (fun n a => ok (n.encode ExlcmLcmJyt.wire) a) acts n ∧
        w = n.encode ExlcmLcmJyt.wire :=
  (datagramNode_encodes (by decide)).run_iff (coded_start haddr)

end Net

instance (L : Nat) (s : String) : Decidable (Addr L s) :=
  decidable_of_iff (CString s ∧ (bytes s).length ≤ L) ⟨fun h => ⟨h.1, h.2⟩, fun h => ⟨h.1, h.2⟩⟩

/-- Board 2 answers board 1, over datagrams: the message-level run ends in a state whose encoding is reached. -/
theorem datagrams_refine_wlan : ∃ n, wlanConfig.Run (fun _ _ => True) Wlan.answered n ∧
    Lts.Run (Net.step (datagramNode .zeroed fun _ => false)) (fun _ _ => True)
      (wlanConfig.start.encode ExlcmLcmJyt.wire) Wlan.answered (n.encode ExlcmLcmJyt.wire) := by
  obtain ⟨n, hn, -⟩ := wlanConfig.run_of_exec (fun _ _ => True) Wlan.answered (fun _ => True)
    (by decide)
  exact ⟨n, hn, (datagrams_refine wlanConfig .zeroed (fun _ => false) (by decide +kernel)).mpr
    ⟨n, hn, rfl⟩⟩

/-! ## Hostile datagrams -/

/-- What can happen to a device in a network of others than its own kind. -/
inductive OpenAct where
  | own (o : Op)
  | datagram (data : List UInt8)

def Host.openAct (lcmNetDebug : Bool) (h : Host) : OpenAct → Option Host
  | .own o => h.own o
  | .datagram data => match jytHandlerStub lcmNetDebug h data with
    | .done h' => some h'
    | .failed _ => some h
    | .undefined => none

/-- The strings that are read out of a datagram are shorter than it. -/
theorem message_short {p : RawJyt} {rest : List UInt8} {source : Bool} (hm : p.message source = some m)
    (hlen : (p.wire ++ rest).length ≤ L) : Addr L m.reqAddr ∧ Addr L m.repAddr := by
  obtain ⟨hreq, hrep⟩ := message_addr hm
  rw [List.length_append, RawJyt.length_wire] at hlen
  obtain ⟨hcreq, junk, hjunk⟩ := cstr_eq_some.mp hreq
  obtain ⟨hcrep, junk', hjunk'⟩ := cstr_eq_some.mp hrep
  rw [hjunk, hjunk', List.length_append, List.length_append] at hlen
  exact ⟨⟨hcreq, by omega⟩, ⟨hcrep, by omega⟩⟩

/-- A datagram is handled or dropped. -/
theorem openAct_datagram {debug : Bool} {data : List UInt8} :
    h.openAct debug (.datagram data) = some h' ↔ jytHandlerStub debug h data = .done h' ∨
      ((∃ code, jytHandlerStub debug h data = .failed code) ∧ h' = h) := by
  show (match jytHandlerStub debug h data with
    | .done h' => some h'
    | .failed _ => some h
    | .undefined => none : Option Host) = some h' ↔ _
  cases jytHandlerStub debug h data <;> simp [eq_comm]

theorem wellSpoken_openAct {debug : Bool} {a : OpenAct} (hh : WellSpoken L h)
    (hdata : ∀ data, a = .datagram data → data.length ≤ L) (hs : h.openAct debug a = some h') :
    WellSpoken L h' := by
  cases a with
  | own o => exact hh.own hs
  | datagram data =>
      obtain hstub | ⟨-, rfl⟩ := openAct_datagram.mp hs
      · obtain ⟨p, rest, msg, rfl, -, hm, rfl⟩ := handlerStub_done hstub
        obtain ⟨hreq, hrep⟩ := message_short hm (hdata _ rfl)
        exact hh.pull hreq hrep
      · exact hh

theorem wellSpoken_run {debug : Bool} {as : List OpenAct} (hh : WellSpoken L h)
    (hdata : ∀ data, OpenAct.datagram data ∈ as → data.length ≤ L)
    (hr : Lts.Run (Host.openAct debug) (fun _ _ => True) h as h') : WellSpoken L h' := by
  induction hr with
  | nil => exact hh
  | @snoc as t a u _ _ hstep ih =>
      refine wellSpoken_openAct (ih fun data hmem => hdata data (by simp [hmem])) ?_ hstep
      rintro data rfl
      exact hdata data (by simp)

/-- What a well-spoken device has published is encoded. -/
theorem WellSpoken.encoded (hh : WellSpoken L h) (hL : 31 + 3 * L < 2147483648) {channel : String}
    {msg : ExlcmLcmJyt} (hmem : Event.publish channel msg ∈ h.log) (heap : Heap) :
    jytPublish heap msg = .done msg.wire := by
  have hpub : (channel, msg) ∈ published h.log := List.mem_filterMap.mpr ⟨_, hmem, rfl⟩
  exact publish_eq ((hh.said _ hpub).sendable hL) heap

/-- **Hostile datagrams.** Whatever datagrams of at most `L` bytes a device gets, and whatever else happens to
    it: everything it publishes can be encoded, so `exlcm_lcm_jyt_t_publish` hands all of it to LCM. -/
theorem hostile_run (hL : 31 + 3 * L < 2147483648) {ifname master devIp : String} {clock : Int}
    (hs : Addr L devIp) {debug : Bool} {as : List OpenAct}
    (hdata : ∀ data, OpenAct.datagram data ∈ as → data.length ≤ L)
    (hr : Lts.Run (Host.openAct debug) (fun _ _ => True) (Host.boot ifname master devIp clock) as h) :
    ∀ channel msg, Event.publish channel msg ∈ h.log → ∀ heap, jytPublish heap msg = .done msg.wire := by
  have hspoken := wellSpoken_run (wellSpoken_boot hs) hdata hr
  exact fun channel msg hmem heap => hspoken.encoded hL hmem heap

def Wlan.board0 : Host := Host.boot "wlan0" "192.168.137.192" "192.168.137.192" 1559098680000000

/-- Board 1's request, and then the relay of the master. -/
theorem hostile_run_wlan : ∃ h channel msg,
    Lts.Run (Host.openAct false) (fun _ _ => True) Wlan.board0 [.datagram Wlan.requesting.wire] h ∧
      Event.publish channel msg ∈ h.log ∧ jytPublish .zeroed msg = .done msg.wire := by
  have hstub := handlerStub_wire Wlan.requesting_sendable false Wlan.board0 []
  rw [List.append_nil] at hstub
  have hrun : Lts.Run (Host.openAct false) (fun _ _ => True) Wlan.board0
      [.datagram Wlan.requesting.wire] (lcmNetPull Wlan.board0 Wlan.requesting) :=
    .single trivial (openAct_datagram.mpr (.inl hstub))
  obtain ⟨e, he, hpub⟩ : ∃ e ∈ (lcmNetPull Wlan.board0 Wlan.requesting).log, shell [e] = [] := by decide
  have haddr : Addr 1023 "192.168.137.192" := by decide +kernel
  cases e with
  | sampleNng | killall => simp at hpub
  | publish channel msg =>
      refine ⟨_, channel, msg, hrun, he, hostile_run (by decide) haddr ?_ hrun _ _ he .zeroed⟩
      intro data hdata
      obtain rfl := OpenAct.datagram.inj (List.mem_singleton.mp hdata)
      decide +kernel

end DlsSdk
