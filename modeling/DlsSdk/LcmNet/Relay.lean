import DlsSdk.LcmNet.System

/-!
# `LcmNet.Relay` — the master as a relay

The master runs the same state machine as its slaves. As long as nobody presses its buttons it stays in
`STATE_IDLE` and takes no part in a call: all it publishes on its own are its registers (`Relaying`).

* `board_own` / `board_deliver` — its registers change exactly when it applies a message;
* `Config.Inbox` — a property of all messages in flight to it, and what can enter there (`Inbox.step`).
-/

namespace DlsSdk

open Network

variable {ι : Type} [DecidableEq ι] {cfg : Config ι} {ok : LcmSys ι → LcmAct ι → Prop}
  {acts : List (LcmAct ι)} {n n' : LcmSys ι}

/-- The state machine of a pure relay never leaves `STATE_IDLE` and takes no part in a call. -/
structure Relaying (net : LcmNet) : Prop where
  state : net.lcmState = .idle
  role : net.lcmRole = .null ∨ net.lcmRole = .idle

theorem Relaying.due {self : LcmNet} (h : Relaying self) : self.due = none := by
  rcases h.role with hr | hr
  · exact LcmNet.due_of_no_mode hr h.state (by rintro ⟨⟩ <;> simp [PushKind.mode])
  · exact LcmNet.due_of_no_mode hr h.state (by rintro ⟨⟩ <;> simp [PushKind.mode])

theorem Relaying.loop {h h' : Host} {k : Option PushKind} {sh : List Event}
    (hr : Relaying h.self) (hk : LoopStep h h' k sh) : Relaying h'.self := by
  have ht := hk.trans
  generalize hro : h'.self.lcmRole = role at ht
  generalize hst : h'.self.lcmState = state at ht
  cases ht with
  | stay => exact ⟨hst.trans hr.state, by rw [hro]; exact hr.role⟩
  | push hd => rw [hr.due] at hd; simp at hd
  | join => exact ⟨hst, .inr hro⟩
  | enter hw hrole hs hn =>
      subst hrole
      rcases hr.role with hr' | hr' <;> rw [hr'] at hn <;> exact hn.elim
  | launchReqer _ _ hs | launchReper _ _ hs | timeout _ _ hs | hangUp _ _ hs | hungUp _ _ hs
    | ended _ _ hs => rw [hr.state] at hs; simp at hs

theorem relaying_step {a : LcmAct ι} (hn : Relaying (n.dev cfg.m).self)
    (ha : cfg.pureRelay a = true) (hs : n.step lcmNode a = some n') :
    Relaying (n'.dev cfg.m).self := by
  rcases Net.step_dev hs cfg.m with he | ⟨o, rfl, ho⟩ | ⟨src, k, keep, msg, rfl, _, hr⟩
  · rw [he]
    exact hn
  · generalize n'.dev cfg.m = h' at ho ⊢
    cases node_own ho with
    | kept hr hs => exact ⟨hs.trans hn.state, by rw [hr]; exact hn.role⟩
    | button hp => simp [Config.pureRelay] at ha
    | loop hk => exact Relaying.loop (h := (n.dev cfg.m).fresh) hn hk
  · obtain ⟨hro, hst, _⟩ := node_recv_mode hr
    exact ⟨hst.trans hn.state, by rw [hro]; exact hn.role⟩

theorem relaying_run (hpr : ∀ n a, ok n a → cfg.pureRelay a = true) (hr : cfg.Run ok acts n) :
    Relaying (n.dev cfg.m).self := by
  refine hr.invariant (I := fun n => Relaying (n.dev cfg.m).self) ?_
    fun n a n' hn hok hs => relaying_step hn (hpr n a hok) hs
  obtain ⟨hro, hst⟩ := boot_mode cfg cfg.m
  exact ⟨hst, .inl hro⟩

/-- What a relaying master publishes on its own are its registers. -/
theorem Relaying.pushes {h : Host} {o : Op} {r : Regs} (hm : Relaying h.self)
    (hp : h.pushes o = some r) : r = h.self.regs := by
  rcases h.pushes_cases hp with ⟨_, k, hk, _⟩ | ⟨_, _, hr⟩
  · rw [hm.due] at hk
    exact absurd hk (by simp)
  · exact hr

/-! ## The master's registers -/

/-- The master's registers change only when it applies a message. -/
theorem board_own {i : ι} {o : Op} (hs : n.step lcmNode (.own i o) = some n') :
    cfg.board n' = cfg.board n := by
  rcases Net.step_dev hs cfg.m with he | ⟨_, _, ho⟩ | ⟨_, _, _, _, ha, _⟩
  · rw [Config.board, he]
    rfl
  · exact (node_frame ho).regs
  · exact absurd ha (by simp)

theorem board_deliver {src : ι} {k : Nat} {keep : Bool} {msg : ExlcmLcmJyt}
    (hget : (n.link src cfg.m)[k]? = some msg)
    (hs : n.step lcmNode (.deliver src cfg.m k keep) = some n') :
    cfg.board n' = (cfg.board n).merge msg.regs := by
  obtain ⟨msg', h, hget', hr, rfl⟩ := Net.step_deliver.mp hs
  obtain rfl := Option.some.inj (hget'.symm.trans hget)
  rw [Config.board, Net.post_dev_self]
  exact node_merge hr

/-- A message for somebody else leaves the master's registers alone. -/
theorem board_deliver_ne {src dst : ι} {k : Nat} {keep : Bool} (hd : dst ≠ cfg.m)
    (hs : n.step lcmNode (.deliver src dst k keep) = some n') : cfg.board n' = cfg.board n := by
  obtain ⟨msg, h, _, _, rfl⟩ := Net.step_deliver.mp hs
  rw [Config.board, Net.post_dev_ne (Ne.symm hd), Net.taken_dev]
  rfl

/-! ## The master's inbox -/

/-- Every message in flight to the master carries registers with `Q`. -/
def Config.Inbox (cfg : Config ι) (Q : Regs → Prop) (n : LcmSys ι) : Prop :=
  ∀ src, ∀ msg ∈ n.link src cfg.m, Q msg.regs

instance [Fintype ι] (Q : Regs → Prop) [DecidablePred Q] : Decidable (cfg.Inbox Q n) :=
  inferInstanceAs (Decidable (∀ src, ∀ msg ∈ n.link src cfg.m, Q msg.regs))

/-- The periodic broadcast is the master's, and carries its registers. -/
theorem pushes_sync {i : ι} {r : Regs} (hid : (n.dev i).self.ident = cfg.ident i)
    (hp : (n.dev i).pushes .sync = some r) : r = cfg.board n := by
  rcases (n.dev i).pushes_cases hp with ⟨ho, _⟩ | ⟨_, hdue, rfl⟩
  · exact absurd ho (by simp)
  · obtain rfl := (isMaster_iff hid).mp hdue.1
    rfl

/-- Only the master relays. -/
theorem relays_master {i : ι} {msg : ExlcmLcmJyt} {r : Regs}
    (hid : (n.dev i).self.ident = cfg.ident i) (hr : (n.dev i).relays msg = some r) : i = cfg.m := by
  unfold Host.relays at hr
  split at hr
  · rename_i hm
    exact (isMaster_iff hid).mp hm.1
  · exact absurd hr (by simp)

/-- **The master relays every message it gets**: with two channel names it gets only the slaves'. -/
theorem relays_of_wired (hw : Wired cfg n) {src : ι} {msg : ExlcmLcmJyt}
    (hm : msg ∈ n.link src cfg.m) :
    (n.dev cfg.m).relays msg = some ((cfg.board n).merge msg.regs) := by
  obtain ⟨hsrc, hroute⟩ := hw.link src cfg.m msg hm
  have hne : src ≠ cfg.m := fun hs => hroute.mp hs rfl
  have hmaster : (n.dev cfg.m).self.isMaster = true := (isMaster_iff (hw.dev cfg.m)).mpr rfl
  have hslave : msg.srcAddr ≠ (n.dev cfg.m).self.slave := by
    rw [hsrc, show (n.dev cfg.m).self.slave = cfg.addr cfg.m from
      congrArg Ident.slave (hw.dev cfg.m), cfg.addr_m]
    intro he
    exact hne (cfg.only_m src he)
  exact if_pos ⟨hmaster, hslave⟩

/-- **What enters the inbox**: what a device publishes on its own, and the registers the master has after
    a message (its relay, if that comes back to it). -/
theorem Config.Inbox.step {Q : Regs → Prop} {a : LcmAct ι} (hid : ∀ i, (n.dev i).self.ident = cfg.ident i)
    (hn : cfg.Inbox Q n) (hown : ∀ i o, a = .own i o → ∀ r, (n.dev i).pushes o = some r → Q r)
    (hpull : ∀ src k keep, a = .deliver src cfg.m k keep → Q (cfg.board n'))
    (hs : n.step lcmNode a = some n') : cfg.Inbox Q n' := by
  have hinv : LocalInv (fun _ _ => True)
      (fun _ dst (msg : ExlcmLcmJyt) => dst = cfg.m → Q msg.regs) n := by
    refine ⟨fun _ => trivial, ?_⟩
    rintro src _ msg hm rfl
    exact hn src msg hm
  have hinv' := hinv.step ?_ ?_ hs
  · intro src msg hm
    exact hinv'.link src cfg.m msg hm rfl
  · intro i o h ha ho
    refine ⟨trivial, ?_⟩
    intro dst msg hm _
    exact hown i o ha msg.regs ((node_published ho).of_routed hm).1
  · intro src dst k keep msg h ha hget _ hr
    refine ⟨trivial, ?_⟩
    intro d msg' hm _
    -- only the master relays, and it relays what its registers have become
    have hrel := ((node_relays hr).of_routed hm).1
    obtain rfl := relays_master (hid dst) hrel
    subst ha
    rw [relays_eq_some hrel, show (n.dev cfg.m).self.regs.merge msg.regs = cfg.board n' from
      (board_deliver hget hs).symm]
    exact hpull src k keep rfl

end DlsSdk
