import DlsSdk.LcmNet.Media
import DlsSdk.LcmNet.Timeout

/-!
# `LcmNet.Pacing` — how close the master's broadcasts come

`lcm_net_loop` broadcasts when `sync_old` is more than 250 ms ago and then sets it to the time in
milliseconds. The relay in `lcm_net_pull` sets it too, so that the broadcast waits, but to the time in
seconds.

The device runs beside its history: whether the first periodic broadcast has been made, when the registers
were last published and by which of the two. Both are read off the events, not off the code (`Host.history`).

* `paced_step` — `sync_old` is the time of the last publication, in the unit of the function that wrote it.
* `broadcasts_paced_iff` — every periodic broadcast after the first comes more than 250 ms after the last
  publication exactly if every check for one that follows a relay does.
-/

namespace DlsSdk

theorem getTimeMs_eq (h : Host) : h.getTimeMs = h.clock / 1000 := by
  unfold Host.getTimeMs Host.time Host.tvUsec
  omega

/-! ## The history -/

/-- A device and the history of its publications: whether a periodic broadcast has been made, the time (in
    milliseconds) of the last periodic broadcast or relay, and whether that was a relay. -/
structure Paced where
  host : Host
  begun : Bool
  last : Int
  relayed : Bool
  deriving DecidableEq, Repr

/-- The step from `h` to `h'` has published something. -/
def Publishes (h h' : Host) : Prop := published h'.log ≠ published h.log

instance instDecidablePublishes (h h' : Host) : Decidable (Publishes h h') :=
  inferInstanceAs (Decidable (_ ≠ _))

/-- The history after a step to `h'`. -/
def Paced.history (s : Paced) (h' : Host) : DevAct → Paced
  | .own .sync =>
      if Publishes s.host h' then ⟨h', true, h'.getTimeMs, false⟩ else { s with host := h' }
  | .pull _ =>
      if Publishes s.host h' then ⟨h', s.begun, h'.getTimeMs, true⟩ else { s with host := h' }
  | .own _ => { s with host := h' }

@[simp] theorem Paced.history_host (s : Paced) (h' : Host) (a : DevAct) : (s.history h' a).host = h' := by
  unfold Paced.history
  repeat' split
  all_goals rfl

theorem Paced.history_sync (s : Paced) (h' : Host) : s.history h' (.own .sync) =
    if Publishes s.host h' then ⟨h', true, h'.getTimeMs, false⟩ else { s with host := h' } := rfl

theorem Paced.history_pull (s : Paced) (h' : Host) (msg : ExlcmLcmJyt) : s.history h' (.pull msg) =
    if Publishes s.host h' then ⟨h', s.begun, h'.getTimeMs, true⟩ else { s with host := h' } := rfl

/-- One step that does not turn the clock back. -/
def Paced.act (s : Paced) (a : DevAct) : Option Paced :=
  (s.host.act a).bind fun h' => if s.host.clock ≤ h'.clock then some (s.history h' a) else none

/-- The master, as it boots. -/
def Paced.boot (ifname master : String) (clock : Int) : Paced where
  host := Host.boot ifname master master clock
  begun := false
  last := 0
  relayed := false

/-- The periodic broadcast, from the second on, comes more than 250 ms after the last publication. -/
def InPace (s : Paced) (a : DevAct) (s' : Paced) : Prop :=
  a = .own .sync → s.begun = true → Publishes s.host s'.host → s'.host.getTimeMs - s.last > 250

/-- A check for the periodic broadcast that follows a relay comes more than 250 ms after it, or in the first
    250 ms of the epoch. -/
def RelayFollowed (s : Paced) (a : DevAct) : Prop :=
  a = .own .sync → s.begun = true → s.relayed = true →
    s.host.getTimeMs - s.last > 250 ∨ s.host.getTimeMs ≤ 250

instance instDecidableRelayFollowed (s : Paced) (a : DevAct) : Decidable (RelayFollowed s a) :=
  inferInstanceAs (Decidable (_ → _))

/-! ## `sync_old` -/

theorem idleLoop_syncOld (h : Host) : (lcmNetIdleLoop h).self.syncOld = h.self.syncOld := by
  unfold lcmNetIdleLoop
  cases h.self.lcmRole <;> simp only <;> repeat' split
  all_goals rfl

theorem callLoop_syncOld (h : Host) : (lcmNetCallLoop h).self.syncOld = h.self.syncOld := by
  unfold lcmNetCallLoop
  cases h.self.lcmRole with
  | reqer =>
      -- launch; wait and push; wait; nothing without `wait_data`
      have hwait : (reqerWait h).self.syncOld = h.self.syncOld := by rw [reqerWait_eq]
      dsimp only
      repeat' split
      · rfl
      · exact hwait
      · exact hwait
      · rfl
  | reper =>
      have hwait : (reperWait h).self.syncOld = h.self.syncOld := by
        rw [reperWait_eq]
        rfl
      dsimp only
      repeat' split
      · rfl
      · exact hwait
      · rfl
  | null => rfl
  | idle => rfl

theorem workLoop_syncOld (h : Host) : (lcmNetWorkLoop h).self.syncOld = h.self.syncOld := by
  unfold lcmNetWorkLoop
  cases h.self.lcmRole <;> simp only <;> repeat' split
  all_goals rfl

/-- The state machine does not touch `sync_old`. -/
theorem stateLoop_syncOld {h h' : Host} (hs : lcmNetStateLoop h = some h') :
    h'.self.syncOld = h.self.syncOld := by
  unfold lcmNetStateLoop at hs
  split at hs
  · obtain rfl := Option.some.inj hs; exact idleLoop_syncOld h
  · obtain rfl := Option.some.inj hs; exact callLoop_syncOld h
  · obtain rfl := Option.some.inj hs; exact workLoop_syncOld h
  · exact absurd hs (by simp)

theorem press_syncOld (h : Host) (b : Button) : (b.press h).self.syncOld = h.self.syncOld := by
  have hp := press_pressed h b
  generalize b.press h = h' at hp ⊢
  cases hp <;> rfl

/-- The check of the master: it broadcasts and takes the time in milliseconds, or does nothing. -/
theorem sync_cases {h : Host} (hm : h.self.isMaster = true) :
    (h.SyncDue ∧ Publishes h (lcmNetSync h) ∧ (lcmNetSync h).self.syncOld = h.getTimeMs) ∨
      (¬ h.SyncDue ∧ ¬ Publishes h (lcmNetSync h) ∧ (lcmNetSync h).self.syncOld = h.self.syncOld) := by
  have hpub := sync_published h
  by_cases hdue : h.SyncDue
  · rw [if_pos hdue] at hpub
    obtain ⟨msg, hmsg, -, -⟩ := hpub
    refine .inl ⟨hdue, ?_, ?_⟩
    · unfold Publishes
      rw [hmsg]
      simp
    · simp only [lcmNetSync]
      rw [if_pos hm, if_pos hdue.2]
      rfl
  · rw [if_neg hdue] at hpub
    refine .inr ⟨hdue, fun hne => hne hpub, ?_⟩
    simp only [lcmNetSync]
    rw [if_pos hm, if_neg fun hd => hdue ⟨hm, hd⟩]

theorem sync_clock (h : Host) : (lcmNetSync h).clock = h.clock := by
  simp only [lcmNetSync]
  repeat' split
  all_goals rfl

/-- A relay takes the time in seconds. -/
theorem pullRelay_syncOld {g : Host} {msg : ExlcmLcmJyt}
    (hr : g.self.isMaster = true ∧ msg.srcAddr ≠ g.self.slave) :
    (pullRelay g msg).self.syncOld = (pullRelay g msg).time := by
  unfold pullRelay
  rw [if_pos hr]
  rfl

/-- A pull by the master: it relays and takes the time in seconds, or leaves `sync_old` alone. -/
theorem pull_cases {h : Host} (hm : h.self.isMaster = true) (msg : ExlcmLcmJyt) :
    (Publishes h (lcmNetPull h msg) ∧ (lcmNetPull h msg).self.syncOld = (lcmNetPull h msg).time) ∨
      (¬ Publishes h (lcmNetPull h msg) ∧ (lcmNetPull h msg).self.syncOld = h.self.syncOld) := by
  have hpub := pull_published h msg
  have hg : (pullClock (pullRegisters h msg) msg).self = (pullRegisters h msg).self := pullClock_self _ msg
  by_cases hown : msg.srcAddr ≠ h.self.slave
  · rw [if_pos ⟨hm, hown⟩] at hpub
    obtain ⟨m, hmsg, -, -⟩ := hpub
    left
    constructor
    · unfold Publishes
      rw [hmsg]
      simp
    · have hrelay : (pullClock (pullRegisters h msg) msg).self.isMaster = true ∧
          msg.srcAddr ≠ (pullClock (pullRegisters h msg) msg).self.slave := by
        rw [hg]
        exact ⟨hm, hown⟩
      exact pullRelay_syncOld hrelay
  · rw [if_neg fun h => hown h.2] at hpub
    refine .inr ⟨fun hne => hne hpub, ?_⟩
    show (pullRelay (pullClock (pullRegisters h msg) msg) msg).self.syncOld = h.self.syncOld
    unfold pullRelay
    rw [if_neg (show ¬ (_ ∧ _) by rw [hg]; exact fun h => hown h.2), hg]
    rfl

/-! ## The run -/

/-- **What `sync_old` is**: after the first periodic broadcast the time of the last publication, in
    milliseconds if that was a broadcast and in seconds if it was a relay. -/
structure Pacing (s : Paced) : Prop where
  master : s.host.self.isMaster = true
  last_le : s.begun = true → s.last ≤ s.host.getTimeMs
  syncOld : s.begun = true → s.host.self.syncOld = if s.relayed then s.last / 1000 else s.last

theorem pacing_boot (ifname master : String) (clock : Int) : Pacing (Paced.boot ifname master clock) where
  master := by
    show (lcmNetLoad (LcmNet.zero (clock / 1000000)) ifname master master).isMaster = true
    unfold lcmNetLoad
    rw [if_pos rfl]
  last_le h := absurd h (by simp [Paced.boot])
  syncOld h := absurd h (by simp [Paced.boot])

/-- A step that is neither a check nor a pull. -/
theorem Pacing.quiet {s : Paced} {h' : Host} (hs : Pacing s) (hm : h'.self.isMaster = true)
    (hc : s.host.clock ≤ h'.clock) (hold : h'.self.syncOld = s.host.self.syncOld) :
    Pacing { s with host := h' } where
  master := hm
  last_le hb := by
    have hle := hs.last_le hb
    rw [getTimeMs_eq] at hle ⊢
    exact Int.le_trans hle (Int.ediv_le_ediv (by decide) hc)
  syncOld hb := hold.trans (hs.syncOld hb)

/-- A periodic broadcast, at the time it sets `sync_old` to. -/
theorem Pacing.broadcast {h' : Host} (hm : h'.self.isMaster = true) (hold : h'.self.syncOld = h'.getTimeMs) :
    Pacing ⟨h', true, h'.getTimeMs, false⟩ where
  master := hm
  last_le _ := Int.le_refl _
  syncOld _ := hold

/-- A relay, at the second it sets `sync_old` to. -/
theorem Pacing.relay {h' : Host} (begun : Bool) (hm : h'.self.isMaster = true)
    (hold : h'.self.syncOld = h'.time) : Pacing ⟨h', begun, h'.getTimeMs, true⟩ where
  master := hm
  last_le _ := Int.le_refl _
  syncOld _ := by
    show h'.self.syncOld = h'.getTimeMs / 1000
    rw [hold, getTimeMs_eq]
    unfold Host.time
    omega

theorem Paced.act_eq_some {s s' : Paced} {a : DevAct} (hs : s.act a = some s') :
    ∃ h', s.host.act a = some h' ∧ s.host.clock ≤ h'.clock ∧ s' = s.history h' a := by
  obtain ⟨h', hact, hstep⟩ := Option.bind_eq_some_iff.mp hs
  by_cases hc : s.host.clock ≤ h'.clock
  · rw [if_pos hc] at hstep
    exact ⟨h', hact, hc, (Option.some.inj hstep).symm⟩
  · rw [if_neg hc] at hstep
    exact absurd hstep (by simp)

theorem paced_step {s s' : Paced} {a : DevAct} (hn : Pacing s) (hs : s.act a = some s') : Pacing s' := by
  obtain ⟨h', hact, hc, rfl⟩ := Paced.act_eq_some hs
  cases a with
  | pull msg =>
      obtain rfl := Option.some.inj hact
      have hm : (lcmNetPull s.host msg).self.isMaster = true :=
        (congrArg Ident.isMaster (pull_ident s.host msg)).trans hn.master
      rcases pull_cases hn.master msg with ⟨hpub, hold⟩ | ⟨hquiet, hold⟩
      · rw [s.history_pull, if_pos hpub]
        exact .relay s.begun hm hold
      · rw [s.history_pull, if_neg hquiet]
        exact hn.quiet hm hc hold
  | own o =>
      have hm : h'.self.isMaster = true := (congrArg Ident.isMaster (own_frame hact).ident).trans hn.master
      cases o with
      | tick clock =>
          obtain rfl := Option.some.inj hact
          exact hn.quiet hm hc rfl
      | button b =>
          obtain rfl := Option.some.inj hact
          exact hn.quiet hm hc (press_syncOld s.host b)
      | loop => exact hn.quiet hm hc (stateLoop_syncOld hact)
      | sync =>
          obtain rfl := Option.some.inj hact
          rcases sync_cases hn.master with ⟨-, hpub, hold⟩ | ⟨-, hquiet, hold⟩
          · have hnow : (lcmNetSync s.host).getTimeMs = s.host.getTimeMs := by
              rw [getTimeMs_eq, getTimeMs_eq, sync_clock]
            rw [s.history_sync, if_pos hpub]
            exact .broadcast hm (hold.trans hnow.symm)
          · rw [s.history_sync, if_neg hquiet]
            exact hn.quiet hm hc hold

/-- A check is in pace exactly if it is not due or not early. -/
theorem inPace_sync {s s' : Paced} (hn : Pacing s) (hs : s.act (.own .sync) = some s') :
    InPace s (.own .sync) s' ↔
      (s.begun = true → s.host.SyncDue → s.host.getTimeMs - s.last > 250) := by
  obtain ⟨h', hact, -, rfl⟩ := Paced.act_eq_some hs
  obtain rfl := Option.some.inj hact
  have hnow : (lcmNetSync s.host).getTimeMs = s.host.getTimeMs := by
    rw [getTimeMs_eq, getTimeMs_eq, sync_clock]
  unfold InPace
  rw [s.history_host, hnow]
  rcases sync_cases hn.master with ⟨hdue, hpub, -⟩ | ⟨hearly, hquiet, -⟩
  · exact ⟨fun h hb _ => h rfl hb hpub, fun h _ hb _ => h hb hdue⟩
  · exact ⟨fun _ _ hdue => absurd hdue hearly, fun _ _ _ hpub => absurd hpub hquiet⟩

/-- A check that is not too close to a relay makes no broadcast too early. -/
theorem inPace_of_followed {s s' : Paced} {a : DevAct} (hn : Pacing s) (hok : RelayFollowed s a)
    (hs : s.act a = some s') : InPace s a s' := by
  intro ha
  obtain rfl := ha
  refine (inPace_sync hn hs).mpr ?_ rfl
  rintro hb ⟨-, hdue⟩
  have hold := hn.syncOld hb
  have hle := hn.last_le hb
  by_cases hrelayed : s.relayed = true
  · rw [if_pos hrelayed] at hold
    rcases hok rfl hb hrelayed with hlate | hepoch
    · exact hlate
    · -- within the first quarter of a second of the epoch the relay's second is 0
      omega
  · rw [if_neg hrelayed] at hold
    omega

/-- A check too close to a relay broadcasts. -/
theorem not_inPace_of_close {s s' : Paced} {a : DevAct} (hn : Pacing s) (hbad : ¬ RelayFollowed s a)
    (hs : s.act a = some s') : ¬ InPace s a s' := by
  intro hpace
  apply hbad
  rintro rfl hb hrelayed
  have hold := hn.syncOld hb
  have hle := hn.last_le hb
  rw [if_pos hrelayed] at hold
  by_cases hdue : s.host.SyncDue
  · exact .inl ((inPace_sync hn hs).mp hpace hb hdue)
  · have hwait : ¬ s.host.getTimeMs - s.host.self.syncOld > 250 := fun hd => hdue ⟨hn.master, hd⟩
    omega

/-- **How close the broadcasts come.** In every run of the master on a clock that does not go back: every
    periodic broadcast after the first comes more than 250 ms after the last periodic broadcast or relay, if
    and only if every check for one, after the first, whose last publication is a relay, comes more than
    250 ms after that relay or in the first 250 ms of the epoch. -/
theorem broadcasts_paced_iff {ifname master : String} {clock : Int} {as : List DevAct} {s : Paced}
    (hr : Lts.Run Paced.act (fun _ _ => True) (Paced.boot ifname master clock) as s) :
    Lts.Steps Paced.act InPace (Paced.boot ifname master clock) as ↔
      Lts.Run Paced.act RelayFollowed (Paced.boot ifname master clock) as s := by
  refine hr.steps_iff (I := Pacing) (pacing_boot ifname master clock) ?_ ?_
  · intro t a u hn hok hs
    exact ⟨paced_step hn hs, inPace_of_followed hn hok hs⟩
  · intro t a u hn hbad hs
    exact not_inPace_of_close hn hbad hs

/-- A concrete sequence of operations is a computation. -/
theorem Paced.run_of_exec (s : Paced) (ok : Paced → DevAct → Prop) [∀ t a, Decidable (ok t a)]
    (as : List DevAct) (p : Paced → Prop) [DecidablePred p]
    (he : ∃ t, t ∈ Lts.exec Paced.act (fun t a => decide (ok t a)) s as ∧ p t) :
    ∃ t, Lts.Run Paced.act ok s as t ∧ p t :=
  Lts.Run.of_exec he

/-- Board 1's request arrives 100 ms after the master's first broadcast. -/
def Wlan.relays : List DevAct :=
  [.own .loop, .own .sync, .own (.tick 1559098680100000),
    .pull { Wlan.callOf .call .idle with srcAddr := "192.168.137.101" }]

def Wlan.paced : Paced := Paced.boot "wlan0" "192.168.137.192" 1559098680000000

set_option maxRecDepth 10000 in
/-- The next check comes 300 ms after the relay, and broadcasts. -/
theorem broadcasts_paced_wlan :
    Lts.Steps Paced.act InPace Wlan.paced (Wlan.relays ++ [.own (.tick 1559098680400000), .own .sync]) := by
  obtain ⟨s, hr, -⟩ := Wlan.paced.run_of_exec RelayFollowed
    (Wlan.relays ++ [.own (.tick 1559098680400000), .own .sync]) (fun _ => True) (by decide)
  exact (broadcasts_paced_iff (hr.mono fun _ _ _ => trivial)).mpr hr

set_option maxRecDepth 10000 in
/-- **The broadcast on the heels of a relay.** The check at the end of the round that relays broadcasts at
    once. -/
theorem relay_and_broadcast :
    ∃ s s', Lts.Run Paced.act (fun _ _ => True) Wlan.paced Wlan.relays s ∧
      s.act (.own .sync) = some s' ∧ s.begun = true ∧ Publishes s.host s'.host ∧
      s'.host.getTimeMs - s.last = 0 := by
  obtain ⟨s, hr, s', hs, hrest⟩ := Wlan.paced.run_of_exec (fun _ _ => True) Wlan.relays
    (fun s => ∃ s' : Paced, s' ∈ s.act (.own .sync) ∧ s.begun = true ∧ Publishes s.host s'.host ∧
      s'.host.getTimeMs - s.last = 0) (by decide)
  exact ⟨s, s', hr, hs, hrest⟩

end DlsSdk
