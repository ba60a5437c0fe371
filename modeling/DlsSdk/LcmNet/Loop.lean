import DlsSdk.LcmNet.Device

/-!
# `LcmNet.Loop` — the functions of `lcm_net.hpp`

Every function of the source that changes a device, statement by statement: a `Host` goes in, the `Host`
after the call comes out. A `break` is an `else` branch. What is printed is left out.

`get_dev_ip` asks `ifconfig`; its answer is an argument of `lcmNetLoad`. `lcm_net_loop` is taken apart: a step of
the state machine, a pull for every message that `lcm_handle_timeout` hands over, and the periodic broadcast. It is
put together in `Demo.Main`.
-/

namespace DlsSdk

/-- The `push_data` of `lcm_net_push`: the current time, the own address as the source, and the four
    register values and the extension it is given. -/
def pushData (h : Host) (reqAddr repAddr : String) (reqState repState : UInt8)
    (numExts : Int16) (exts : List Int8) : ExlcmLcmJyt where
  srcAddr := h.self.slave
  reqAddr := reqAddr
  repAddr := repAddr
  timeSs := Int32.ofInt h.time
  timeMs := Int8.ofInt (h.tvUsec / 10000)
  reqState := reqState.toInt8
  repState := repState.toInt8
  numExts := numExts.toInt8
  exts := exts

/-- `lcm_net_push`: the master publishes on the channel of the pool (`ifname`), everybody else on the
    master's channel; the push counts as not applied until a message comes back. -/
def lcmNetPush (h : Host) (reqAddr repAddr : String) (reqState repState : UInt8)
    (numExts : Int16) (exts : List Int8) : Host :=
  let h := h.emit (.publish (if h.self.isMaster then h.self.ifname else h.self.master)
    (pushData h reqAddr repAddr reqState repState numExts exts))
  { h with self.waitData := false }

/-- The first part of `lcm_net_pull`: the registers take the message's values, a state only if it is
    not `STATE_NULL`. -/
def pullRegisters (h : Host) (msg : ExlcmLcmJyt) : Host :=
  { h with
    self.timeSs := msg.timeSs
    self.timeMs := msg.timeMs * 10
    self.reqAddr := msg.reqAddr
    self.repAddr := msg.repAddr
    self.reqState := if LcmState.null ≠ msg.reqState then msg.reqState else h.self.reqState
    self.repState := if LcmState.null ≠ msg.repState then msg.repState else h.self.repState }

/-- The second part of `lcm_net_pull`: a clock more than a second away from the message's is set to
    it. -/
def pullClock (h : Host) (msg : ExlcmLcmJyt) : Host :=
  if (h.self.timeSs.toInt - h.time).natAbs > 1 then h.stime msg.timeSs.toInt else h

/-- The third part of `lcm_net_pull`: the master relays the registers, unless the message is its own. -/
def pullRelay (h : Host) (msg : ExlcmLcmJyt) : Host :=
  if h.self.isMaster ∧ msg.srcAddr ≠ h.self.slave then
    -- seconds here, milliseconds in `lcm_net_loop`: the next broadcast is due at once
    let h := { h with self.syncOld := h.time }
    lcmNetPush h h.self.reqAddr h.self.repAddr h.self.reqState.toUInt8 h.self.repState.toUInt8 0 []
  else h

/-- `lcm_net_pull` on the message `msg`. -/
def lcmNetPull (h : Host) (msg : ExlcmLcmJyt) : Host :=
  let h := pullRelay (pullClock (pullRegisters h msg) msg) msg
  { h with self.waitData := true }

/-- `lcm_net_load`, with the answer of `get_dev_ip` given. -/
def lcmNetLoad (self : LcmNet) (ifname master devIp : String) : LcmNet :=
  let self := { self with ifname := ifname, slave := devIp, master := master }
  if self.master = self.slave then { self with isMaster := true } else self

/-- A device as `main` starts it at the clock `clock`: zero-initialised and loaded. -/
def Host.boot (ifname master devIp : String) (clock : Int) : Host where
  self := lcmNetLoad (LcmNet.zero (clock / 1000000)) ifname master devIp
  clock := clock
  log := []

/-- The channel `lcm_net_load` subscribes to. -/
def LcmNet.subscribed (self : LcmNet) : String :=
  if self.isMaster then self.master else self.ifname

/-- `lcm_net_try_init` -/
def lcmNetTryInit (h : Host) : Host :=
  { h with self.lcmRole := .null, self.lcmState := .idle }

/-- `lcm_net_try_reqer` -/
def lcmNetTryReqer (h : Host) : Host :=
  if h.self.lcmState = .idle then { h with self.lcmRole := .reqer } else h

/-- `lcm_net_try_reper` -/
def lcmNetTryReper (h : Host) : Host :=
  if h.self.lcmState = .idle then { h with self.lcmRole := .reper } else h

/-- `lcm_net_try_exit` -/
def lcmNetTryExit (h : Host) : Host :=
  { h with self.lcmState := .work, self.lcmRole := .idle }

/-- `lcm_net_idle_loop` -/
def lcmNetIdleLoop (h : Host) : Host :=
  match h.self.lcmRole with
  | .null => if h.self.waitData then { h with self.lcmRole := .idle } else h
  | .idle =>
      if h.self.waitData then
        if h.self.reqState = LcmState.call ∧ h.self.repState = LcmState.idle then
          let h := { h with self.waitNow := h.time }
          if h.self.waitNow - h.self.waitOld > 1 then { h with self.waitOld := h.self.waitNow } else h
        else h
      else h
  | .reqer =>
      if h.self.waitData then
        let h :=
          if h.self.reqState = LcmState.idle ∧ h.self.repState = LcmState.idle then
            lcmNetPush h h.self.slave h.self.repAddr LcmState.call.toUInt8 LcmState.null.toUInt8 0 []
          else h
        -- no `break` after the push
        if h.self.reqAddr = h.self.slave ∧ h.self.reqState = LcmState.call then
          { h with self.waitConut := 0, self.waitOld := h.time, self.lcmState := .call }
        else h
      else h
  | .reper =>
      if h.self.waitData then
        if h.self.reqState = LcmState.call ∧ h.self.repState = LcmState.idle then
          lcmNetPush h h.self.reqAddr h.self.slave h.self.reqState.toUInt8 LcmState.call.toUInt8 0 []
        else if h.self.repAddr = h.self.slave ∧ h.self.repState = LcmState.call then
          { h with self.waitConut := 0, self.waitOld := h.time, self.lcmState := .call }
        else h
      else h

/-- The requester's wait in `lcm_net_call_loop`: the counter moves at most once every two seconds of the
    clock, and past 60 the device gives up. -/
def reqerWait (h : Host) : Host :=
  let h := { h with self.waitNow := h.time }
  let h :=
    if h.self.waitNow - h.self.waitOld > 1 then
      { h with self.waitConut := h.self.waitConut + 1, self.waitOld := h.self.waitNow }
    else h
  if h.self.waitConut > 60 then lcmNetTryExit h else h

/-- The replier's wait in `lcm_net_call_loop`; unlike the requester's it leaves `waitOld` where it is. -/
def reperWait (h : Host) : Host :=
  let h := h.usleep (500 * 1000)
  let h := { h with self.waitNow := h.time }
  let h :=
    if h.self.waitNow - h.self.waitOld > 1 then { h with self.waitConut := h.self.waitConut + 1 }
    else h
  if h.self.waitConut > 60 then lcmNetTryExit h else h

/-- `lcm_net_call_loop` -/
def lcmNetCallLoop (h : Host) : Host :=
  match h.self.lcmRole with
  | .reqer =>
      if h.self.waitData then
        if h.self.reqState = LcmState.work then
          let h := h.emit
            (.sampleNng h.self.repAddr h.self.repAddr h.self.reqAddr h.self.reqAddr)
          { h with self.lcmState := .work }
        else
          let h := reqerWait h
          -- no `break` after the timeout: the answer is still looked at
          if h.self.repState = LcmState.call then
            let h := lcmNetPush h h.self.slave h.self.repAddr LcmState.work.toUInt8
              h.self.repState.toUInt8 0 []
            h.usleep (250 * 1000)
          else h
      else h
  | .reper =>
      if h.self.waitData then
        if h.self.reqState = LcmState.work then
          let h := lcmNetPush h h.self.reqAddr h.self.slave h.self.reqState.toUInt8
            LcmState.work.toUInt8 0 []
          let h := h.emit
            (.sampleNng h.self.reqAddr h.self.reqAddr h.self.repAddr h.self.repAddr)
          { h with self.lcmState := .work }
        else reperWait h
      else h
  | _ => h

/-- `lcm_net_work_loop` -/
def lcmNetWorkLoop (h : Host) : Host :=
  match h.self.lcmRole with
  | .idle =>
      if h.self.waitData then
        let h := lcmNetPush h "" "" LcmState.idle.toUInt8 LcmState.idle.toUInt8 0 []
        let h := h.usleep (500 * 1000)
        let h := h.emit .killall
        -- the registers of before the push: nothing has been received since
        if h.self.repAddr = "" ∧ h.self.reqAddr = "" then { h with self.lcmState := .idle } else h
      else h
  | .reqer =>
      if h.self.waitData then
        if h.self.reqState = LcmState.idle then { h with self.lcmRole := .idle } else h
      else h
  | .reper =>
      if h.self.waitData then
        if h.self.repState = LcmState.idle then { h with self.lcmRole := .idle } else h
      else h
  | .null => h

/-- `lcm_net_state_loop`: the dispatch table has three entries, so `STATE_NULL` indexes past its end
    (`none`). -/
def lcmNetStateLoop (h : Host) : Option Host :=
  match h.self.lcmState with
  | .idle => some (lcmNetIdleLoop h)
  | .call => some (lcmNetCallLoop h)
  | .work => some (lcmNetWorkLoop h)
  | .null => none

/-- The master's part of `lcm_net_loop`: the periodic broadcast. -/
def lcmNetSync (h : Host) : Host :=
  if h.self.isMaster then
    let h := { h with self.syncNow := h.getTimeMs }
    if h.self.syncNow - h.self.syncOld > 250 then
      let h := lcmNetPush h h.self.reqAddr h.self.repAddr h.self.reqState.toUInt8
        h.self.repState.toUInt8 0 []
      { h with self.syncOld := h.self.syncNow, self.waitData := true }
    else h
  else h

/-- The four button operations of `main`. -/
inductive Button where
  | tryInit | tryReqer | tryReper | tryExit
  deriving DecidableEq, Repr

/-- The key dispatch of `main`: the buttons act on release (`value == 0`). -/
def Button.ofKey (code value : UInt16) : Option Button :=
  if value = 0 then
    match code with
    | 101 => some .tryReqer
    | 102 => some .tryReper
    | 104 => some .tryExit
    | 105 => some .tryInit
    | _ => none
  else none

def Button.press (h : Host) : Button → Host
  | .tryInit => lcmNetTryInit h
  | .tryReqer => lcmNetTryReqer h
  | .tryReper => lcmNetTryReper h
  | .tryExit => lcmNetTryExit h

/-- What a device does on its own between two messages. -/
inductive Op where
  | tick (clock : Int)
  | button (b : Button)
  | loop
  | sync
  deriving DecidableEq, Repr

/-- One own operation of a device. -/
def Host.own (h : Host) : Op → Option Host
  | .tick clock => some (h.tick clock)
  | .button b => some (b.press h)
  | .loop => lcmNetStateLoop h
  | .sync => some (lcmNetSync h)

end DlsSdk
