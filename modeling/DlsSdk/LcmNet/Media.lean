import DlsSdk.LcmNet.Transition
import DlsSdk.Library.Lts

/-!
# `LcmNet.Media` — who owns the media process

One device, driven by anything: buttons in every state, steps of the state machine, arbitrary messages.
`running` counts the `sample_nng` processes the device has started and not killed. `lcm_net_call_loop`
starts one on its way into `STATE_WORK`, and `lcm_net_work_loop` kills on its way back to `STATE_IDLE`;
`lcm_net_try_init` goes back to `STATE_IDLE` from anywhere and kills nothing.

* `owned_step` — every other operation keeps the count where it belongs;
* `media_owned_iff` — over a whole sequence of operations: exactly if every `lcm_net_try_init` comes
  while nothing is running.
-/

namespace DlsSdk

/-- What can happen to a device. -/
inductive DevAct where
  | own (o : Op)
  | pull (msg : ExlcmLcmJyt)
  deriving DecidableEq, Repr

def Host.act (h : Host) : DevAct → Option Host
  | .own o => h.own o
  | .pull msg => some (lcmNetPull h msg)

/-! ## Counting processes -/

/-- The processes running after one more event. -/
def count (c : Nat) : Event → Nat
  | .publish _ _ => c
  | .sampleNng _ _ _ _ => c + 1
  | .killall => 0

/-- The `sample_nng` launches since the last `killall sample_nng`. -/
def running (log : List Event) : Nat := log.foldl count 0

theorem running_append (l l' : List Event) : running (l ++ l') = l'.foldl count (running l) :=
  List.foldl_append ..

/-- Messages do not count. -/
theorem running_shell (log : List Event) : running (shell log) = running log := by
  unfold running shell
  generalize 0 = c
  induction log generalizing c with
  | nil => rfl
  | cons e log ih => cases e <;> exact ih _

theorem running_of_shell {l l' sh : List Event} (h : shell l' = shell l ++ sh) :
    running l' = sh.foldl count (running l) := by
  rw [← running_shell l', h, running_append, running_shell]

/-- A step that runs no command leaves the processes alone. -/
theorem running_congr {l l' : List Event} (h : shell l' = shell l) : running l' = running l := by
  rw [← running_shell l', h, running_shell]

/-! ## The count and the state -/

/-- At most one process, and none while the device is in `STATE_IDLE` or `STATE_CALL`. -/
structure Owned (h : Host) : Prop where
  one : running h.log ≤ 1
  none : h.self.lcmState = .idle ∨ h.self.lcmState = .call → running h.log = 0

instance (h : Host) : Decidable (Owned h) :=
  decidable_of_iff (running h.log ≤ 1 ∧
    (h.self.lcmState = .idle ∨ h.self.lcmState = .call → running h.log = 0))
    ⟨fun h => ⟨h.1, h.2⟩, fun h => ⟨h.one, h.none⟩⟩

/-- With nothing running any state will do. -/
theorem Owned.of_zero {h : Host} (hz : running h.log = 0) : Owned h where
  one := by omega
  none _ := hz

/-- The same count in a state that is `STATE_WORK`, or was no less free before. -/
theorem Owned.congr {h h' : Host} (hn : Owned h) (hl : running h'.log = running h.log)
    (hs : h'.self.lcmState = .idle ∨ h'.self.lcmState = .call →
      h.self.lcmState = .idle ∨ h.self.lcmState = .call) : Owned h' where
  one := by rw [hl]; exact hn.one
  none hi := by rw [hl]; exact hn.none (hs hi)

/-- A step of the state machine: a launch needs `STATE_CALL`, where nothing is running, and leads to
    `STATE_WORK`; the way back kills. -/
theorem LoopStep.owned {h h' : Host} {k : Option PushKind} {sh : List Event}
    (hk : LoopStep h h' k sh) (hn : Owned h) : Owned h' := by
  have hrun := running_of_shell hk.shell
  have ht := hk.trans
  generalize h'.self.lcmRole = role at ht
  generalize hst : h'.self.lcmState = state at ht
  cases ht with
  | stay => exact hn.congr hrun (by rw [hst]; exact id)
  | push => exact hn.congr hrun (by rw [hst]; exact id)
  | join _ _ hs => exact hn.congr hrun fun _ => .inl hs
  | enter _ _ hs => exact hn.congr hrun fun _ => .inl hs
  | launchReqer _ _ hs | launchReper _ _ hs =>
      -- in `STATE_CALL` nothing is running
      have hz : running h.log = 0 := hn.none (.inr hs)
      have hone : running h'.log = 1 := by
        rw [hrun, hz]
        rfl
      constructor
      · omega
      · rw [hst]
        simp
  | timeout _ _ hs => exact hn.congr hrun fun _ => .inr hs
  | hangUp => exact .of_zero hrun
  | hungUp => exact .of_zero hrun
  | ended => exact hn.congr hrun (by rw [hst]; simp)

/-- The device is reset. -/
abbrev reset : DevAct := .own (.button .tryInit)

/-- **Every operation but `lcm_net_try_init` keeps the process where it belongs**, and that one does
    while nothing is running. -/
theorem owned_step {h h' : Host} {a : DevAct} (hn : Owned h) (ha : a = reset → running h.log = 0)
    (hs : h.act a = some h') : Owned h' := by
  cases a with
  | pull msg =>
      obtain rfl := Option.some.inj hs
      obtain ⟨_, hst, _⟩ := pull_mode h msg
      exact hn.congr (running_congr (pull_shell h msg)) (by rw [hst]; exact id)
  | own o =>
      cases own_step hs with
      | kept _ hst hsh => exact hn.congr (running_congr hsh) (by rw [hst]; exact id)
      | loop hk => exact hk.owned hn
      | button hp =>
          cases hp with
          | tryInit => exact .of_zero (ha rfl)
          | tryExit => exact hn.congr rfl (by simp)
          | tryReqer | tryReper | ignored => exact hn.congr rfl id

/-! ## Whole sequences -/

/-- The operations `as` take the device `h` to `t`. -/
abbrev Host.Acts (h : Host) (as : List DevAct) (t : Host) : Prop :=
  Lts.Run Host.act (fun _ _ => True) h as t

/-- A concrete sequence of operations is a computation. -/
theorem Host.acts_of_exec (h : Host) (as : List DevAct) (p : Host → Prop) [DecidablePred p]
    (he : ∃ t, t ∈ Lts.exec Host.act (fun _ _ => true) h as ∧ p t) : ∃ t, h.Acts as t ∧ p t :=
  Lts.Run.of_exec he

section
variable {ifname master devIp : String} {clock : Int} {as : List DevAct}

theorem owned_boot : Owned (Host.boot ifname master devIp clock) := .of_zero rfl

/-- If every reset comes while nothing is running, the count is right after every operation. -/
theorem owned_run
    (hreset : ∀ pre t, pre ++ [reset] <+: as → (Host.boot ifname master devIp clock).Acts pre t →
      running t.log = 0) {pre : List DevAct} {t : Host}
    (hr : (Host.boot ifname master devIp clock).Acts pre t) (hp : pre <+: as) : Owned t := by
  induction hr with
  | nil => exact owned_boot
  | @snoc pre t a u hr _ hs ih =>
      -- the state before the last operation is owned by induction; a reset needs its own hypothesis
      have hpre : pre <+: as := (List.prefix_append pre [a]).trans hp
      refine owned_step (ih hpre) ?_ hs
      rintro rfl
      exact hreset pre t hp hr

/-- **Media process ownership.** Along a sequence of operations on a device, the count is at most 1, and
    0 in `STATE_IDLE` and `STATE_CALL`, after every operation, if and only if every
    `lcm_net_try_init` among them is executed while no process is running. -/
theorem media_owned_iff :
    (∀ pre t, pre <+: as → (Host.boot ifname master devIp clock).Acts pre t → Owned t) ↔
      ∀ pre t, pre ++ [reset] <+: as → (Host.boot ifname master devIp clock).Acts pre t →
        running t.log = 0 := by
  constructor
  · intro hall pre t hp hr
    -- the count is as before the reset, the state is `STATE_IDLE`
    have hn : Owned (lcmNetTryInit t) :=
      hall (pre ++ [reset]) (lcmNetTryInit t) hp (.snoc hr trivial rfl)
    exact hn.none (.inl rfl)
  · intro hreset pre t hp hr
    exact owned_run hreset hr hp

end

/-- The master's registers in a call of board 1 with board 2. -/
def Wlan.callOf (reqState repState : LcmState) : ExlcmLcmJyt where
  srcAddr := "192.168.137.192"
  reqAddr := "192.168.137.101"
  repAddr := "192.168.137.102"
  timeSs := 1559098680
  timeMs := 0
  reqState := reqState
  repState := repState
  numExts := 0
  exts := []

/-- Board 1 requests, is answered, and launches. -/
def Wlan.calls : List DevAct :=
  [.own (.button .tryReqer), .pull (Wlan.callOf .call .call), .own .loop,
    .pull (Wlan.callOf .work .call), .own .loop]

def Wlan.board1 : Host := Host.boot "wlan0" "192.168.137.192" "192.168.137.101" 1559098680000000

set_option maxRecDepth 10000 in
/-- **A media process that nobody owns.** After a reset in the middle of a call the board is in
    `STATE_IDLE` with the process still running, and its next call starts a second one. -/
theorem media_left_running :
    (∃ h, Wlan.board1.Acts (Wlan.calls ++ [reset]) h ∧
      h.self.lcmState = .idle ∧ running h.log = 1) ∧
    ∃ h, Wlan.board1.Acts (Wlan.calls ++ [reset] ++ Wlan.calls) h ∧ running h.log = 2 := by
  constructor
  · exact Wlan.board1.acts_of_exec (Wlan.calls ++ [reset])
      (fun h => h.self.lcmState = .idle ∧ running h.log = 1) (by decide)
  · exact Wlan.board1.acts_of_exec (Wlan.calls ++ [reset] ++ Wlan.calls)
      (fun h => running h.log = 2) (by decide)

end DlsSdk
