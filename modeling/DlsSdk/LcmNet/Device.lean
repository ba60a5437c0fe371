import Mathlib.Data.Int.Notation

/-!
# `LcmNet.Device` — the data of one device

`struct lcm_net` and the message `exlcm_lcm_jyt_t`, with the source's integer widths, and the `Host` a
device's code runs on: the struct, the system clock and what the code has handed to the outside.

The device reads three clocks off the one system clock: `time(NULL)` (seconds), `gettimeofday` (seconds
and microseconds) and `get_time_ms` (milliseconds). `stime` sets it, `usleep` lets it advance. Strings
are C strings throughout: the addresses come from `c_str()` and from `fgets`, so they hold no NUL.

Left out of the struct: `srv_th_ms` (the poll timeout), `url` and `lcm` (handles of the transport),
`is_update` (never read).
-/

namespace DlsSdk

/-- `enum _lcm_state_` -/
inductive LcmState where
  | idle | call | work | null
  deriving DecidableEq, Repr

/-- `enum _lcm_role_` -/
inductive LcmRole where
  | null | idle | reqer | reper
  deriving DecidableEq, Repr

/-- The value of a state constant as the `uint8_t` argument of `lcm_net_push`. -/
def LcmState.toUInt8 : LcmState → UInt8
  | .idle => 0
  | .call => 1
  | .work => 2
  | .null => 3

/-- The value of a state constant as the registers and the message hold it (`int8_t`). -/
def LcmState.toInt8 (s : LcmState) : Int8 := s.toUInt8.toInt8

instance : Coe LcmState Int8 := ⟨LcmState.toInt8⟩

@[simp] theorem LcmState.toInt8_inj {s t : LcmState} : s.toInt8 = t.toInt8 ↔ s = t := by
  cases s <;> cases t <;> decide

/-- `struct _exlcm_lcm_jyt_t` -/
structure ExlcmLcmJyt where
  srcAddr : String
  reqAddr : String
  repAddr : String
  timeSs : Int32
  timeMs : Int8
  reqState : Int8
  repState : Int8
  numExts : Int8
  exts : List Int8
  deriving DecidableEq, Repr

/-- `struct lcm_net`. `reqAddr`, `repAddr`, `reqState`, `repState` are the registers that the network
    shares; the rest is the device's own. `time_t` is unbounded here. -/
structure LcmNet where
  reqAddr : String
  repAddr : String
  timeSs : Int32
  timeMs : Int8
  reqState : Int8
  repState : Int8
  isMaster : Bool
  master : String
  ifname : String
  slave : String
  syncNow : Int
  syncOld : Int
  waitConut : UInt16
  waitData : Bool
  waitNow : Int
  waitOld : Int
  lcmState : LcmState
  lcmRole : LcmRole
  deriving DecidableEq, Repr

/-- What the code hands to the outside: a message on a channel, the `sample_nng` command line with its
    four addresses (the `%s` of `tcp://%s:1030`, `tcp://%s:2812`, `tcp://%s:1030`, `tcp://%s:2812`, in
    this order), and `killall sample_nng`. -/
inductive Event where
  | publish (channel : String) (msg : ExlcmLcmJyt)
  | sampleNng (tcp1 tcp2 tcp3 tcp4 : String)
  | killall
  deriving DecidableEq, Repr

/-- A running device: its struct, its system clock in microseconds, and its events, oldest first. -/
structure Host where
  self : LcmNet
  clock : Int
  log : List Event
  deriving DecidableEq, Repr

namespace Host

/-- `time(NULL)` -/
def time (h : Host) : Int := h.clock / 1000000

/-- The `tv_usec` of `gettimeofday`. -/
def tvUsec (h : Host) : Int := h.clock % 1000000

/-- `get_time_ms` of `dls_lib.hpp` -/
def getTimeMs (h : Host) : Int := h.time * 1000 + h.tvUsec / 1000

/-- `stime(&t)` -/
def stime (h : Host) (t : Int) : Host := { h with clock := t * 1000000 }

/-- `usleep(us)` -/
def usleep (h : Host) (us : Int) : Host := { h with clock := h.clock + us }

def emit (h : Host) (e : Event) : Host := { h with log := h.log ++ [e] }

/-- The clock is set from outside, or time passes. -/
def tick (h : Host) (clock : Int) : Host := { h with clock := clock }

end Host

/-- The global `main_data.lcm`: zero-initialised, then the member initialisers of the struct, at the
    clock the program starts at. -/
def LcmNet.zero (now : Int) : LcmNet where
  reqAddr := ""
  repAddr := ""
  timeSs := 0
  timeMs := 0
  reqState := 0
  repState := 0
  isMaster := false
  master := ""
  ifname := ""
  slave := ""
  syncNow := now
  syncOld := now
  waitConut := 0
  waitData := false
  waitNow := now
  waitOld := now
  lcmState := .idle
  lcmRole := .null

end DlsSdk
