import DlsSdk.LcmNet.Registers

/-!
# `LcmNet.LoopSpec` — what each function can do, said once

One lemma per question about a function of `Loop`; the protocol proofs cite these and never unfold the
code.

* registers and identity: only `lcm_net_pull` changes the registers, and it merges (`*_regs`); nothing
  changes the address, the role of master or the channels (`*_ident`);
* messages: a pull publishes the master's relay (`pull_published`), the tail of `lcm_net_loop` the
  periodic broadcast (`sync_published`);
* role and state: a pull changes neither (`pull_mode`), a button as `Pressed` says. What the state machine
  does with them, and what it publishes, is its transition table in `Transition`.
-/

namespace DlsSdk

/-- The fields of a device that no operation changes. -/
structure Ident where
  slave : String
  isMaster : Bool
  ifname : String
  master : String
  deriving DecidableEq, Repr

def LcmNet.ident (self : LcmNet) : Ident := ⟨self.slave, self.isMaster, self.ifname, self.master⟩

/-- The channel a device publishes on. -/
def LcmNet.pool (self : LcmNet) : String := if self.isMaster then self.ifname else self.master

/-- The messages among the events, with their channels. -/
def published (log : List Event) : List (String × ExlcmLcmJyt) :=
  log.filterMap fun e => match e with
    | .publish channel msg => some (channel, msg)
    | _ => none

/-- The shell commands among the events. -/
def shell (log : List Event) : List Event :=
  log.filter fun e => match e with
    | .publish _ _ => false
    | _ => true

@[simp] theorem shell_append (l l' : List Event) : shell (l ++ l') = shell l ++ shell l' :=
  List.filter_append ..

@[simp] theorem shell_publish (channel : String) (msg : ExlcmLcmJyt) :
    shell [.publish channel msg] = [] := rfl

@[simp] theorem shell_sampleNng (a b c d : String) :
    shell [.sampleNng a b c d] = [.sampleNng a b c d] := rfl

@[simp] theorem shell_killall : shell [.killall] = [.killall] := rfl

@[simp] theorem published_nil : published [] = [] := rfl

@[simp] theorem published_append (l l' : List Event) :
    published (l ++ l') = published l ++ published l' := List.filterMap_append

@[simp] theorem published_publish (channel : String) (msg : ExlcmLcmJyt) :
    published [.publish channel msg] = [(channel, msg)] := rfl

@[simp] theorem published_sampleNng (a b c d : String) : published [.sampleNng a b c d] = [] := rfl

@[simp] theorem published_killall : published [.killall] = [] := rfl

/-- From `h` to `h'` exactly the registers `r` were published, if any, on `h`'s channel and under `h`'s
    own address. -/
def Published (h h' : Host) : Option Regs → Prop
  | none => published h'.log = published h.log
  | some r => ∃ msg : ExlcmLcmJyt, published h'.log = published h.log ++ [(h.self.pool, msg)] ∧
      msg.srcAddr = h.self.slave ∧ msg.regs = r

/-! ## `lcm_net_push` and the elementary effects -/

@[simp] theorem emit_log (h : Host) (e : Event) : (h.emit e).log = h.log ++ [e] := rfl
@[simp] theorem usleep_log (h : Host) (us : Int) : (h.usleep us).log = h.log := rfl

section Push
variable (h : Host) (reqAddr repAddr : String) (reqState repState : UInt8) (numExts : Int16)
  (exts : List Int8)

@[simp] theorem push_self : (lcmNetPush h reqAddr repAddr reqState repState numExts exts).self
    = { h.self with waitData := false } := rfl

/-- A push publishes its four arguments. -/
theorem push_published : Published h (lcmNetPush h reqAddr repAddr reqState repState numExts exts)
    (some ⟨reqAddr, repAddr, reqState.toInt8, repState.toInt8⟩) := by
  refine ⟨pushData h reqAddr repAddr reqState repState numExts exts, ?_, rfl, rfl⟩
  simp only [lcmNetPush, emit_log, published_append, published_publish, LcmNet.pool]

@[simp] theorem push_shell :
    shell (lcmNetPush h reqAddr repAddr reqState repState numExts exts).log = shell h.log := by
  simp only [lcmNetPush, emit_log, shell_append, shell_publish, List.append_nil]

end Push

/-- Steps that publish nothing may follow. -/
theorem Published.log_eq {h h' h'' : Host} {r : Option Regs} (hp : Published h h' r)
    (hl : published h''.log = published h'.log) : Published h h'' r := by
  cases r with
  | none => exact hl.trans hp
  | some r => obtain ⟨msg, hm, hr⟩ := hp; exact ⟨msg, hl.trans hm, hr⟩

/-- Steps that publish nothing and keep the identity may come before. -/
theorem Published.of_start {g h h' : Host} {r : Option Regs} (hl : published g.log = published h.log)
    (hi : g.self.ident = h.self.ident) (hp : Published g h' r) : Published h h' r := by
  have hslave : g.self.slave = h.self.slave := congrArg Ident.slave hi
  have hpool : g.self.pool = h.self.pool := by
    have hm : g.self.isMaster = h.self.isMaster := congrArg Ident.isMaster hi
    have hif : g.self.ifname = h.self.ifname := congrArg Ident.ifname hi
    have hma : g.self.master = h.self.master := congrArg Ident.master hi
    rw [LcmNet.pool, LcmNet.pool, hm, hif, hma]
  cases r with
  | none => exact (show published h'.log = published g.log from hp).trans hl
  | some r =>
      obtain ⟨msg, hm, hsrc, hr⟩ := hp
      exact ⟨msg, by rw [hm, hl, hpool], hsrc.trans hslave, hr⟩

/-! ## Registers and identity -/

/-- The registers and the identity are as before. -/
structure SameFrame (a b : LcmNet) : Prop where
  regs : b.regs = a.regs
  ident : b.ident = a.ident

theorem idleLoop_frame (h : Host) : SameFrame h.self (lcmNetIdleLoop h).self := by
  unfold lcmNetIdleLoop
  cases h.self.lcmRole <;> simp only <;> repeat' split
  all_goals exact ⟨rfl, rfl⟩

/-- What a wait does: its bookkeeping, and possibly the way out through `lcm_net_try_exit`. -/
structure Waited (h g : Host) : Prop where
  frame : SameFrame h.self g.self
  log : g.log = h.log
  waitData : g.self.waitData = h.self.waitData
  mode : (g.self.lcmRole = h.self.lcmRole ∧ g.self.lcmState = h.self.lcmState) ∨
    (g.self.lcmRole = .idle ∧ g.self.lcmState = .work)

theorem reqerWait_waited (h : Host) : Waited h (reqerWait h) := by
  simp only [reqerWait]
  split <;> split
  · exact ⟨⟨rfl, rfl⟩, rfl, rfl, .inr ⟨rfl, rfl⟩⟩
  · exact ⟨⟨rfl, rfl⟩, rfl, rfl, .inl ⟨rfl, rfl⟩⟩
  · exact ⟨⟨rfl, rfl⟩, rfl, rfl, .inr ⟨rfl, rfl⟩⟩
  · exact ⟨⟨rfl, rfl⟩, rfl, rfl, .inl ⟨rfl, rfl⟩⟩

theorem reperWait_waited (h : Host) : Waited h (reperWait h) := by
  simp only [reperWait]
  split <;> split
  · exact ⟨⟨rfl, rfl⟩, rfl, rfl, .inr ⟨rfl, rfl⟩⟩
  · exact ⟨⟨rfl, rfl⟩, rfl, rfl, .inl ⟨rfl, rfl⟩⟩
  · exact ⟨⟨rfl, rfl⟩, rfl, rfl, .inr ⟨rfl, rfl⟩⟩
  · exact ⟨⟨rfl, rfl⟩, rfl, rfl, .inl ⟨rfl, rfl⟩⟩

theorem callLoop_frame (h : Host) : SameFrame h.self (lcmNetCallLoop h).self := by
  unfold lcmNetCallLoop
  cases h.self.lcmRole with
  | reqer =>
      -- launch; wait and push; wait; nothing without `wait_data`
      have hg := (reqerWait_waited h).frame
      dsimp only
      generalize reqerWait h = g at hg ⊢
      repeat' split
      · exact ⟨rfl, rfl⟩
      · exact ⟨hg.regs, hg.ident⟩
      · exact hg
      · exact ⟨rfl, rfl⟩
  | reper =>
      dsimp only
      repeat' split
      · exact ⟨rfl, rfl⟩
      · exact (reperWait_waited h).frame
      · exact ⟨rfl, rfl⟩
  | null => exact ⟨rfl, rfl⟩
  | idle => exact ⟨rfl, rfl⟩

theorem workLoop_frame (h : Host) : SameFrame h.self (lcmNetWorkLoop h).self := by
  unfold lcmNetWorkLoop
  cases h.self.lcmRole <;> simp only <;> repeat' split
  all_goals exact ⟨rfl, rfl⟩

theorem stateLoop_frame {h h' : Host} (hs : lcmNetStateLoop h = some h') :
    SameFrame h.self h'.self := by
  unfold lcmNetStateLoop at hs
  split at hs
  · obtain rfl := Option.some.inj hs; exact idleLoop_frame h
  · obtain rfl := Option.some.inj hs; exact callLoop_frame h
  · obtain rfl := Option.some.inj hs; exact workLoop_frame h
  · exact absurd hs (by simp)

theorem sync_frame (h : Host) : SameFrame h.self (lcmNetSync h).self := by
  simp only [lcmNetSync]
  repeat' split
  all_goals exact ⟨rfl, rfl⟩

/-- What a button does to a device: the two calls are taken up in `STATE_IDLE` only, the reset and the exit
    in every state. -/
inductive Pressed (h : Host) : Button → Host → Prop where
  | tryInit : Pressed h .tryInit { h with self.lcmRole := .null, self.lcmState := .idle }
  | tryExit : Pressed h .tryExit { h with self.lcmState := .work, self.lcmRole := .idle }
  | tryReqer (hs : h.self.lcmState = .idle) : Pressed h .tryReqer { h with self.lcmRole := .reqer }
  | tryReper (hs : h.self.lcmState = .idle) : Pressed h .tryReper { h with self.lcmRole := .reper }
  | ignored {b : Button} (hb : b = .tryReqer ∨ b = .tryReper) : Pressed h b h

theorem press_pressed (h : Host) (b : Button) : Pressed h b (b.press h) := by
  cases b with
  | tryInit => exact .tryInit
  | tryExit => exact .tryExit
  | tryReqer =>
      by_cases hs : h.self.lcmState = .idle
      · rw [Button.press, lcmNetTryReqer, if_pos hs]
        exact .tryReqer hs
      · rw [Button.press, lcmNetTryReqer, if_neg hs]
        exact .ignored (.inl rfl)
  | tryReper =>
      by_cases hs : h.self.lcmState = .idle
      · rw [Button.press, lcmNetTryReper, if_pos hs]
        exact .tryReper hs
      · rw [Button.press, lcmNetTryReper, if_neg hs]
        exact .ignored (.inr rfl)

theorem press_frame (h : Host) (b : Button) : SameFrame h.self (b.press h).self := by
  have hp := press_pressed h b
  generalize b.press h = h' at hp ⊢
  cases hp <;> exact ⟨rfl, rfl⟩

theorem press_log (h : Host) (b : Button) : (b.press h).log = h.log := by
  have hp := press_pressed h b
  generalize b.press h = h' at hp ⊢
  cases hp <;> rfl

/-- No button leads into `STATE_CALL` or changes the role within it. -/
theorem Pressed.call {h h' : Host} {b : Button} (hp : Pressed h b h') (hs : h'.self.lcmState = .call) :
    h.self.lcmState = .call ∧ h'.self.lcmRole = h.self.lcmRole := by
  cases hp with
  | tryInit | tryExit => simp at hs
  | tryReqer hi | tryReper hi => simp [hi] at hs
  | ignored => exact ⟨hs, rfl⟩

theorem own_frame {h h' : Host} {o : Op} (ho : h.own o = some h') : SameFrame h.self h'.self := by
  cases o with
  | tick clock => obtain rfl := Option.some.inj ho; exact ⟨rfl, rfl⟩
  | button b => obtain rfl := Option.some.inj ho; exact press_frame h b
  | loop => exact stateLoop_frame ho
  | sync => obtain rfl := Option.some.inj ho; exact sync_frame h

theorem pullRegisters_regs (h : Host) (msg : ExlcmLcmJyt) :
    (pullRegisters h msg).self.regs = h.self.regs.merge msg.regs := rfl

@[simp] theorem pullClock_self (h : Host) (msg : ExlcmLcmJyt) : (pullClock h msg).self = h.self := by
  unfold pullClock
  split <;> rfl

@[simp] theorem pullClock_log (h : Host) (msg : ExlcmLcmJyt) : (pullClock h msg).log = h.log := by
  unfold pullClock
  split <;> rfl

theorem pullRelay_frame (h : Host) (msg : ExlcmLcmJyt) :
    SameFrame h.self (pullRelay h msg).self := by
  unfold pullRelay
  split <;> exact ⟨rfl, rfl⟩

theorem pullRelay_mode (h : Host) (msg : ExlcmLcmJyt) :
    (pullRelay h msg).self.lcmRole = h.self.lcmRole ∧
      (pullRelay h msg).self.lcmState = h.self.lcmState := by
  unfold pullRelay
  split <;> exact ⟨rfl, rfl⟩

/-- **A pull merges.** -/
theorem pull_regs (h : Host) (msg : ExlcmLcmJyt) :
    (lcmNetPull h msg).self.regs = h.self.regs.merge msg.regs := by
  show (pullRelay (pullClock (pullRegisters h msg) msg) msg).self.regs = _
  rw [(pullRelay_frame _ msg).regs, pullClock_self, pullRegisters_regs]

theorem pull_ident (h : Host) (msg : ExlcmLcmJyt) :
    (lcmNetPull h msg).self.ident = h.self.ident := by
  show (pullRelay (pullClock (pullRegisters h msg) msg) msg).self.ident = _
  rw [(pullRelay_frame _ msg).ident, pullClock_self]
  rfl

/-- A pull changes neither role nor state, and counts every earlier push as applied. -/
theorem pull_mode (h : Host) (msg : ExlcmLcmJyt) :
    (lcmNetPull h msg).self.lcmRole = h.self.lcmRole ∧
      (lcmNetPull h msg).self.lcmState = h.self.lcmState ∧
      (lcmNetPull h msg).self.waitData = true := by
  obtain ⟨hr, hs⟩ := pullRelay_mode (pullClock (pullRegisters h msg) msg) msg
  rw [pullClock_self] at hr hs
  exact ⟨hr, hs, rfl⟩

/-- The tail of `lcm_net_loop` changes neither role nor state. -/
theorem sync_mode (h : Host) : (lcmNetSync h).self.lcmRole = h.self.lcmRole ∧
    (lcmNetSync h).self.lcmState = h.self.lcmState := by
  simp only [lcmNetSync]
  repeat' split
  all_goals exact ⟨rfl, rfl⟩

/-- On a slave it does nothing. -/
theorem sync_slave {h : Host} (hm : ¬ h.self.isMaster = true) : lcmNetSync h = h := by
  unfold lcmNetSync
  rw [if_neg hm]

/-! ## The start -/

section Boot
variable (ifname master devIp : String) (clock : Int)

theorem load_slave : (Host.boot ifname master devIp clock).self.slave = devIp := by
  simp only [Host.boot, lcmNetLoad]
  split <;> rfl

theorem load_regs : (Host.boot ifname master devIp clock).self.regs = Regs.cleared := by
  simp only [Host.boot, lcmNetLoad]
  split <;> rfl

theorem load_mode : (Host.boot ifname master devIp clock).self.lcmRole = .null ∧
    (Host.boot ifname master devIp clock).self.lcmState = .idle := by
  simp only [Host.boot, lcmNetLoad]
  split <;> exact ⟨rfl, rfl⟩

end Boot

/-! ## What is published besides the state machine's pushes -/

/-- **The relay.** The master publishes its merged registers for every message that is not its own. -/
theorem pull_published (h : Host) (msg : ExlcmLcmJyt) :
    Published h (lcmNetPull h msg)
      (if h.self.isMaster ∧ msg.srcAddr ≠ h.self.slave then some (h.self.regs.merge msg.regs)
        else none) := by
  show Published h (pullRelay (pullClock (pullRegisters h msg) msg) msg) _
  have hself : (pullClock (pullRegisters h msg) msg).self = (pullRegisters h msg).self :=
    pullClock_self _ msg
  have hlog : (pullClock (pullRegisters h msg) msg).log = h.log := pullClock_log _ msg
  have hi : (pullClock (pullRegisters h msg) msg).self.ident = h.self.ident := by rw [hself]; rfl
  -- all that matters of the first two parts: the registers are merged, identity and log are as before
  generalize pullClock (pullRegisters h msg) msg = g at hself hlog hi ⊢
  have hmi : g.self.isMaster = h.self.isMaster := congrArg Ident.isMaster hi
  have hsl : g.self.slave = h.self.slave := congrArg Ident.slave hi
  unfold pullRelay
  rw [hmi, hsl]
  split
  · have hp := push_published { g with self.syncOld := g.time } g.self.reqAddr g.self.repAddr
      g.self.reqState.toUInt8 g.self.repState.toUInt8 0 []
    have hr : h.self.regs.merge msg.regs = ⟨g.self.reqAddr, g.self.repAddr,
        g.self.reqState.toUInt8.toInt8, g.self.repState.toUInt8.toInt8⟩ := by
      rw [← pullRegisters_regs h msg, ← hself]; rfl
    rw [hr]
    exact Published.of_start (congrArg published hlog) hi hp
  · exact congrArg published hlog

/-- A pull runs no command. -/
theorem pull_shell (h : Host) (msg : ExlcmLcmJyt) : shell (lcmNetPull h msg).log = shell h.log := by
  show shell (pullRelay (pullClock (pullRegisters h msg) msg) msg).log = shell h.log
  have hlog : (pullClock (pullRegisters h msg) msg).log = h.log := pullClock_log _ msg
  generalize pullClock (pullRegisters h msg) msg = g at hlog ⊢
  unfold pullRelay
  split
  · rw [push_shell, hlog]
  · rw [hlog]

/-- Neither does the tail of `lcm_net_loop`. -/
theorem sync_shell (h : Host) : shell (lcmNetSync h).log = shell h.log := by
  simp only [lcmNetSync]
  repeat' split
  · rw [push_shell]
  · rfl
  · rfl

/-- The periodic broadcast is due. -/
def Host.SyncDue (h : Host) : Prop := h.self.isMaster = true ∧ h.getTimeMs - h.self.syncOld > 250

instance (h : Host) : Decidable h.SyncDue := inferInstanceAs (Decidable (_ ∧ _))

/-- **The periodic broadcast** carries the master's registers. -/
theorem sync_published (h : Host) :
    Published h (lcmNetSync h) (if h.SyncDue then some h.self.regs else none) := by
  simp only [lcmNetSync]
  by_cases hm : h.self.isMaster = true
  · rw [if_pos hm]
    by_cases hd : h.getTimeMs - h.self.syncOld > 250
    · rw [if_pos hd, if_pos ⟨hm, hd⟩]
      have hp := push_published { h with self.syncNow := h.getTimeMs } h.self.reqAddr
        h.self.repAddr h.self.reqState.toUInt8 h.self.repState.toUInt8 0 []
      exact Published.of_start rfl rfl hp
    · rw [if_neg hd, if_neg (fun hc => hd hc.2)]
      rfl
  · rw [if_neg hm, if_neg (fun hc => hm hc.1)]
    rfl

end DlsSdk
