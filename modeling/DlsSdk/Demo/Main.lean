import DlsSdk.Demo.Config
import DlsSdk.LcmNet.DatagramNet
import DlsSdk.LcmNet.DevIp
import DlsSdk.LcmNet.Machine

/-!
# `Demo.Main` — the program

`main` from its configuration to its loop, over what the outside gives it: the file, what `ifconfig` says, whether
`lcm_create` succeeds, and then for every round of the loop the datagrams that `lcm_handle_timeout` hands over, what
the keys have done, the clock, and a signal.

* `main_acts` — the device that the program runs is the one of `openAct`: its buttons are the releases of the keys
  in the order in which they were read, each obeyed once, and its datagrams are those that have arrived;
* `main_defined` — a loop that has an `lcm_t` is taken out of what C defines by a datagram alone;
* `main_publishes` — whatever the program publishes can be encoded.
-/

namespace DlsSdk

open Json ByteString

/-! ## The keys -/

/-- `struct input_event`, without its time. -/
structure InputEvent where
  type : UInt16
  code : UInt16
  value : Int32
  deriving DecidableEq, Repr

/-- What `select` says about `/dev/input/event0`. -/
inductive Select where
  | failed | idle | ready
  deriving DecidableEq, Repr

/-- `btn_key_loop`: the code and the value of the key, if there is one, and the events that are left. The device
    does not block, and gives whole events. -/
def btnKeyLoop (select : Select) : List InputEvent → Option (UInt16 × UInt16) × List InputEvent
  | [] => (none, [])
  | event :: queue =>
      if select = .ready then
        -- `EV_KEY` is 1
        if event.type = 1 ∧ (event.value = 0 ∨ event.value = 1) then
          (some (event.code, event.value.toUInt32.toUInt16), queue)
        else (none, queue)
      else (none, event :: queue)

/-- The button that is released by an event. -/
def InputEvent.button (event : InputEvent) : Option Button :=
  if event.type = 1 ∧ event.value = 0 then Button.ofKey event.code 0 else none

/-- The `switch` over the keys. -/
def dispatch (h : Host) : Option (UInt16 × UInt16) → Host
  | none => h
  | some (code, value) =>
      match Button.ofKey code value with
      | some b => b.press h
      | none => h

/-! ## The loop -/

/-- `main_data`, and the events that the device of the keys still has. -/
structure MainData where
  exit : Bool
  host : Host
  queue : List InputEvent
  deriving DecidableEq, Repr

/-- What a round of the loop finds: the clock, the datagrams with the clock at which each is handed over, the clock
    when they have been handled, what the keys have done since the last round, and whether a signal arrives. -/
structure Round where
  clock : Int
  arrivals : List (Int × List UInt8)
  handled : Int
  events : List InputEvent
  select : Select
  signal : Bool
  deriving DecidableEq, Repr

/-- The datagrams that are handed over, one after the other. -/
def handOver (lcmNetDebug : Bool) : Host → List (Int × List UInt8) → Option Host
  | h, [] => some h
  | h, (clock, data) :: arrivals => do
      let h ← (h.tick clock).openAct lcmNetDebug (.datagram data)
      handOver lcmNetDebug h arrivals

/-- `lcm_handle_timeout`, with the datagrams it hands over. `lcm` says whether there is an `lcm_t`; C does not define
    the call on the null pointer. -/
def lcmHandleTimeout (lcm lcmNetDebug : Bool) (h : Host) (arrivals : List (Int × List UInt8)) : Option Host :=
  if lcm then handOver lcmNetDebug h arrivals else none

/-- `lcm_net_loop`; `none` if it does something that C does not define. -/
def lcmNetLoop (lcm lcmNetDebug : Bool) (h : Host) (r : Round) : Option Host := do
  let h ← lcmNetStateLoop (h.tick r.clock)
  let h ← lcmHandleTimeout lcm lcmNetDebug h r.arrivals
  some (lcmNetSync (h.tick r.handled))

/-- One round of the loop of `main`. -/
def mainRound (lcm lcmNetDebug : Bool) (d : MainData) (r : Round) : Option MainData := do
  let h ← lcmNetLoop lcm lcmNetDebug d.host r
  let (key, queue) := btnKeyLoop r.select (d.queue ++ r.events)
  some ⟨d.exit || r.signal, dispatch h key, queue⟩

/-- `while (!main_self->exit)` -/
def mainLoop (lcm lcmNetDebug : Bool) : MainData → List Round → Option MainData
  | d, [] => some d
  | d, r :: rounds =>
      if d.exit then some d
      else do
        let d ← mainRound lcm lcmNetDebug d r
        mainLoop lcm lcmNetDebug d rounds

/-- The rounds that are run. -/
def executed (exit : Bool) : List Round → List Round
  | [] => []
  | r :: rounds => if exit then [] else r :: executed r.signal rounds

/-! ## The program -/

/-- What the program finds when it starts: `/tmp/demo.json`, the descriptor that `open` gives for the keys, the
    buffer of `get_dev_ip`, what its pipe says, whether `lcm_create` gives an `lcm_t`, and the clock. -/
structure World where
  file : Option String
  inputEvent0 : Int
  buf : List UInt8
  pipe : Option (List UInt8)
  lcmCreate : Bool
  clock : Int

/-- Where the program is: ended by an exception, by `abort()`, outside of what C defines, or in its loop. -/
inductive Reached where
  | thrown (e : Thrown)
  | aborted
  | undefined
  | running (d : MainData)

/-- `main`, after these rounds of its loop. -/
def demoMain (w : World) (rounds : List Round) : Reached :=
  match configure w.file with
  | none => .undefined
  | some s =>
      match s.escaped with
      | some e => .thrown e
      | none =>
          if w.inputEvent0 ≤ 0 then .aborted
          else match getDevIp w.buf w.pipe with
            | none => .undefined
            | some ip =>
                -- `lcm_net_load` returns -1 where there is no `lcm_t`, and `main` goes on
                match mainLoop w.lcmCreate s.conf.lcmNetDebug
                    ⟨false, .boot s.conf.ifname s.conf.host ip w.clock, []⟩ rounds with
                | none => .undefined
                | some d => .running d

/-! ## What the loop does to the device -/

def OpenAct.button? : OpenAct → Option Button
  | .own (.button b) => some b
  | _ => none

def OpenAct.datagram? : OpenAct → Option (List UInt8)
  | .datagram data => some data
  | _ => none

/-- A run of the device with these buttons and these datagrams, in their order. -/
def Behaves (lcmNetDebug : Bool) (h h' : Host) (buttons : List Button) (datagrams : List (List UInt8)) : Prop :=
  ∃ acts, Lts.Run (Host.openAct lcmNetDebug) (fun _ _ => True) h acts h' ∧
    acts.filterMap OpenAct.button? = buttons ∧ acts.filterMap OpenAct.datagram? = datagrams

variable {lcm debug : Bool} {h h' h'' : Host} {d d' : MainData}

theorem Behaves.refl (h : Host) : Behaves debug h h [] [] := ⟨[], .nil, rfl, rfl⟩

theorem Behaves.append {bs bs' : List Button} {ds ds' : List (List UInt8)} (hs : Behaves debug h h' bs ds)
    (hs' : Behaves debug h' h'' bs' ds') : Behaves debug h h'' (bs ++ bs') (ds ++ ds') := by
  obtain ⟨acts, hrun, rfl, rfl⟩ := hs
  obtain ⟨acts', hrun', rfl, rfl⟩ := hs'
  exact ⟨acts ++ acts', hrun.append hrun', List.filterMap_append, List.filterMap_append⟩

theorem Behaves.single {a : OpenAct} (hs : h.openAct debug a = some h') :
    Behaves debug h h' a.button?.toList a.datagram?.toList := by
  refine ⟨[a], .single trivial hs, ?_, ?_⟩
  · cases hb : a.button? <;> simp [hb]
  · cases hd : a.datagram? <;> simp [hd]

/-- The datagrams that have arrived. -/
def Round.datagrams (r : Round) : List (List UInt8) := r.arrivals.map Prod.snd

theorem handOver_behaves {arrivals : List (Int × List UInt8)}
    (hs : handOver debug h arrivals = some h') : Behaves debug h h' [] (arrivals.map Prod.snd) := by
  induction arrivals generalizing h with
  | nil =>
      obtain rfl := Option.some.inj hs
      exact .refl h
  | cons arrival arrivals ih =>
      obtain ⟨clock, data⟩ := arrival
      obtain ⟨g, hg, hrest⟩ := Option.bind_eq_some_iff.mp hs
      have htick : Behaves debug h (h.tick clock) [] [] := .single (a := .own (.tick clock)) rfl
      exact (htick.append (.single hg)).append (ih hrest)

theorem lcmHandleTimeout_some {arrivals : List (Int × List UInt8)}
    (hs : lcmHandleTimeout lcm debug h arrivals = some h') : handOver debug h arrivals = some h' := by
  cases lcm with
  | true => exact hs
  | false => cases hs

theorem dispatch_behaves (code : UInt16) (h : Host) :
    Behaves debug h (dispatch h (some (code, 0))) (Button.ofKey code 0).toList [] := by
  rw [dispatch]
  cases Button.ofKey code 0 with
  | none => exact .refl h
  | some b => exact .single (a := .own (.button b)) rfl

theorem filterMap_event (event : InputEvent) : [event].filterMap InputEvent.button = event.button.toList := by
  cases hb : event.button <;> simp [hb]

/-- **A key acts once, when it is released.** -/
theorem btnKeyLoop_behaves (select : Select) (queue : List InputEvent) (h : Host) :
    ∃ consumed, queue = consumed ++ (btnKeyLoop select queue).2 ∧
      Behaves debug h (dispatch h (btnKeyLoop select queue).1) (consumed.filterMap InputEvent.button) [] := by
  cases queue with
  | nil => exact ⟨[], rfl, .refl h⟩
  | cons event queue =>
      rw [btnKeyLoop]
      by_cases hready : select = .ready
      · rw [if_pos hready]
        by_cases hkey : event.type = 1 ∧ (event.value = 0 ∨ event.value = 1)
        · rw [if_pos hkey]
          refine ⟨[event], rfl, ?_⟩
          rw [filterMap_event, InputEvent.button]
          obtain hvalue | hvalue := hkey.2
          · rw [if_pos ⟨hkey.1, hvalue⟩, hvalue]
            exact dispatch_behaves event.code h
          · -- a key that is pressed does nothing
            rw [if_neg fun hc => absurd (hvalue.symm.trans hc.2) (by decide), hvalue]
            exact .refl h
        · rw [if_neg hkey]
          refine ⟨[event], rfl, ?_⟩
          rw [filterMap_event, InputEvent.button, if_neg fun hc => hkey ⟨hc.1, .inl hc.2⟩]
          exact .refl h
      · rw [if_neg hready]
        exact ⟨[], rfl, .refl h⟩

/-- `lcm_net_loop` is a step of the state machine, the datagrams, and the periodic broadcast. -/
theorem lcmNetLoop_behaves {r : Round} (hs : lcmNetLoop lcm debug h r = some h') :
    Behaves debug h h' [] r.datagrams := by
  obtain ⟨g, hloop, hs⟩ := Option.bind_eq_some_iff.mp hs
  obtain ⟨g', htimeout, hs⟩ := Option.bind_eq_some_iff.mp hs
  obtain rfl := Option.some.inj hs
  have htick : Behaves debug h (h.tick r.clock) [] [] := .single (a := .own (.tick r.clock)) rfl
  have hstep : Behaves debug (h.tick r.clock) g [] [] := .single (a := .own .loop) hloop
  have harrived : Behaves debug g g' [] r.datagrams := handOver_behaves (lcmHandleTimeout_some htimeout)
  have hhandled : Behaves debug g' (g'.tick r.handled) [] [] := .single (a := .own (.tick r.handled)) rfl
  have hsync : Behaves debug (g'.tick r.handled) (lcmNetSync (g'.tick r.handled)) [] [] :=
    .single (a := .own .sync) rfl
  have hround := (((htick.append hstep).append harrived).append hhandled).append hsync
  simp only [List.nil_append, List.append_nil] at hround
  exact hround

/-- A round: the events are read in their order, and what is read is obeyed. -/
theorem mainRound_behaves {r : Round} (hs : mainRound lcm debug d r = some d') :
    d'.exit = (d.exit || r.signal) ∧ ∃ consumed, d.queue ++ r.events = consumed ++ d'.queue ∧
      Behaves debug d.host d'.host (consumed.filterMap InputEvent.button) r.datagrams := by
  obtain ⟨g, hloop, hs⟩ := Option.bind_eq_some_iff.mp hs
  obtain rfl := Option.some.inj hs
  refine ⟨rfl, ?_⟩
  obtain ⟨consumed, hqueue, hkeys⟩ := @btnKeyLoop_behaves debug r.select (d.queue ++ r.events) g
  refine ⟨consumed, hqueue, ?_⟩
  have hround := (lcmNetLoop_behaves hloop).append hkeys
  rw [List.nil_append, List.append_nil] at hround
  exact hround

/-- **The loop**, over all its rounds. -/
theorem mainLoop_behaves {rounds : List Round} (hs : mainLoop lcm debug d rounds = some d') :
    ∃ consumed, d.queue ++ (executed d.exit rounds).flatMap Round.events = consumed ++ d'.queue ∧
      Behaves debug d.host d'.host (consumed.filterMap InputEvent.button)
        ((executed d.exit rounds).flatMap Round.datagrams) := by
  induction rounds generalizing d with
  | nil =>
      obtain rfl := Option.some.inj hs
      exact ⟨[], List.append_nil _, .refl _⟩
  | cons r rounds ih =>
      rw [mainLoop] at hs
      rw [executed]
      cases hexit : d.exit with
      | true =>
          rw [hexit, if_pos rfl] at hs
          obtain rfl := Option.some.inj hs
          exact ⟨[], List.append_nil _, .refl _⟩
      | false =>
          rw [hexit, if_neg (by simp)] at hs
          obtain ⟨e, hround, hrest⟩ := Option.bind_eq_some_iff.mp hs
          obtain ⟨hsignal, consumed, hqueue, hbehaves⟩ := mainRound_behaves hround
          obtain ⟨consumed', hqueue', hbehaves'⟩ := ih hrest
          rw [hsignal, hexit, Bool.false_or] at hqueue' hbehaves'
          rw [if_neg (by simp), List.flatMap_cons, List.flatMap_cons]
          refine ⟨consumed ++ consumed', ?_, ?_⟩
          · rw [← List.append_assoc, hqueue, List.append_assoc, hqueue', List.append_assoc]
          · rw [List.filterMap_append]
            exact hbehaves.append hbehaves'

/-! ## What C does not define -/

theorem hasCase_openAct {a : OpenAct} (hc : hasCase h.self.lcmRole h.self.lcmState = true)
    (hs : h.openAct debug a = some h') : hasCase h'.self.lcmRole h'.self.lcmState = true := by
  cases a with
  | own o => exact hasCase_step (a := .own o) hc hs
  | datagram data =>
      obtain hstub | ⟨-, rfl⟩ := openAct_datagram.mp hs
      · obtain ⟨p, rest, m, -, -, -, rfl⟩ := handlerStub_done hstub
        exact hasCase_step (a := .pull m) hc rfl
      · exact hc

theorem Behaves.hasCase {bs : List Button} {ds : List (List UInt8)} (hb : Behaves debug h h' bs ds)
    (hc : DlsSdk.hasCase h.self.lcmRole h.self.lcmState = true) :
    DlsSdk.hasCase h'.self.lcmRole h'.self.lcmState = true := by
  obtain ⟨acts, hrun, -, -⟩ := hb
  exact hrun.invariant (I := fun h => DlsSdk.hasCase h.self.lcmRole h.self.lcmState = true) hc
    fun _ _ _ ht _ hs => hasCase_openAct ht hs

section Program
variable {w : World} {rounds : List Round}

/-- Where nothing escapes the file is gone. -/
theorem configure_survived {file : Option String} {s : Startup} (h : configure file = some s)
    (hescaped : s.escaped = none) : configure file = some ⟨none, s.conf, none⟩ := by
  obtain ⟨escaped, conf, file'⟩ := s
  obtain rfl : escaped = none := hescaped
  obtain rfl : file' = none := by
    cases file with
    | none => exact (congrArg Startup.file (Option.some.inj h)).symm
    | some content =>
        have hends := configure_ends content
        rw [h] at hends
        cases hends with
        | survives => rfl
        | escapes htext hno hescaped => exact absurd rfl hescaped
  exact h

/-- A program that is in its loop has been configured, and runs the device that it was configured for. -/
theorem demoMain_running {d : MainData} (h : demoMain w rounds = .running d) : ∃ conf ip,
    configure w.file = some ⟨none, conf, none⟩ ∧ getDevIp w.buf w.pipe = some ip ∧
      mainLoop w.lcmCreate conf.lcmNetDebug ⟨false, .boot conf.ifname conf.host ip w.clock, []⟩ rounds = some d := by
  unfold demoMain at h
  split at h
  · cases h
  · next s hconf =>
      split at h
      · cases h
      · next hescaped =>
          split at h
          · cases h
          · split at h
            · cases h
            · next ip hip =>
                split at h
                · cases h
                · next d' hloop =>
                    obtain rfl := Reached.running.inj h
                    exact ⟨_, ip, configure_survived hconf hescaped, hip, hloop⟩

/-- **The program runs the device.** When it has come to its loop it has been configured; then, whatever arrives:
    the device does what `openAct` says, its buttons are the releases of the keys in the order of the events that
    have been read, and its datagrams are those that have been handed over. -/
theorem main_acts {d : MainData} (h : demoMain w rounds = .running d) : ∃ conf ip consumed,
    configure w.file = some ⟨none, conf, none⟩ ∧ getDevIp w.buf w.pipe = some ip ∧
      (executed false rounds).flatMap Round.events = consumed ++ d.queue ∧
      Behaves conf.lcmNetDebug (.boot conf.ifname conf.host ip w.clock) d.host
        (consumed.filterMap InputEvent.button) ((executed false rounds).flatMap Round.datagrams) := by
  obtain ⟨conf, ip, hconf, hip, hloop⟩ := demoMain_running h
  obtain ⟨consumed, hqueue, hbehaves⟩ := mainLoop_behaves hloop
  exact ⟨conf, ip, consumed, hconf, hip, hqueue, hbehaves⟩

/-- **Whatever the program publishes can be encoded**, if the datagrams that arrive are not too long. -/
theorem main_publishes {L : Nat} (hL : 31 + 3 * L < 2147483648) (haddr : 1023 ≤ L) (hpipe : w.pipe ≠ some [])
    (hdata : ∀ r ∈ executed false rounds, ∀ data ∈ r.datagrams, data.length ≤ L) {d : MainData}
    (h : demoMain w rounds = .running d) :
    ∀ channel msg, Event.publish channel msg ∈ d.host.log → ∀ heap, jytPublish heap msg = .done msg.wire := by
  obtain ⟨conf, ip, -, hip, hloop⟩ := demoMain_running h
  obtain ⟨consumed, -, acts, hrun, -, hdatagrams⟩ := mainLoop_behaves hloop
  obtain ⟨ip', hip', hdev⟩ := @getDevIp_devAddr w.buf _ hpipe
  obtain rfl := Option.some.inj (hip.symm.trans hip')
  have hspoken : WellSpoken L d.host := by
    refine wellSpoken_run (wellSpoken_boot ⟨hdev.cstring, hdev.short.trans haddr⟩) (fun data hmem => ?_) hrun
    have hin : data ∈ acts.filterMap OpenAct.datagram? := List.mem_filterMap.mpr ⟨_, hmem, rfl⟩
    rw [hdatagrams] at hin
    obtain ⟨r, hr, hdatagram⟩ := List.mem_flatMap.mp hin
    exact hdata r hr data hdatagram
  exact fun channel msg hmem heap => hspoken.encoded hL hmem heap

end Program

/-- The board that is its own master, without a file; somebody presses and releases the key of the requester, and the
    program is told to stop. -/
def Wlan.alone : World where
  file := none
  inputEvent0 := 3
  buf := []
  pipe := some (bytes "127.0.0.1\n")
  lcmCreate := true
  clock := 1559098680000000

def Wlan.pressed : List Round :=
  [⟨1559098680000000, [], 1559098680000000, [⟨1, 101, 1⟩, ⟨1, 101, 0⟩], .ready, false⟩,
    ⟨1559098680100000, [], 1559098680100000, [⟨1, 104, 1⟩], .ready, true⟩]

/-- Behind the hash a string of length -1. -/
def Wlan.negative : List Round :=
  [⟨1559098680000000, [(1559098680000000, int64Bytes jytGetHash.toUInt64 ++ [255, 255, 255, 255])],
    1559098680000000, [], .idle, false⟩]

theorem Wlan.alone_main (rounds : List Round) : demoMain Wlan.alone rounds =
    match mainLoop true false ⟨false, .boot "lo" "127.0.0.1" "127.0.0.1" 1559098680000000, []⟩ rounds with
    | none => .undefined
    | some d => .running d := by
  have hconf : configure Wlan.alone.file = some ⟨none, .default, none⟩ := rfl
  have hip : getDevIp Wlan.alone.buf Wlan.alone.pipe = some "127.0.0.1" := by decide +kernel
  unfold demoMain
  rw [hconf]
  dsimp only
  rw [hip]
  rfl

theorem Wlan.alone_running : ∃ d, demoMain Wlan.alone Wlan.pressed = .running d ∧
    d.host.self.lcmRole = .reqer ∧ published d.host.log ≠ [] := by
  have hloop : ∃ d, d ∈ mainLoop true false
        ⟨false, .boot "lo" "127.0.0.1" "127.0.0.1" 1559098680000000, []⟩ Wlan.pressed ∧
      (d.host.self.lcmRole = .reqer ∧ published d.host.log ≠ []) := by decide +kernel
  obtain ⟨d, hd, hp⟩ := hloop
  refine ⟨d, ?_, hp⟩
  rw [Wlan.alone_main, Option.mem_def.mp hd]

/-- Two of the three events have been read, and one of them is a release. -/
theorem main_acts_pressed : ∃ d, demoMain Wlan.alone Wlan.pressed = .running d ∧ d.host.self.lcmRole = .reqer ∧
    ∃ conf ip consumed,
      configure Wlan.alone.file = some ⟨none, conf, none⟩ ∧
        getDevIp Wlan.alone.buf Wlan.alone.pipe = some ip ∧
        (executed false Wlan.pressed).flatMap Round.events = consumed ++ d.queue ∧
        Behaves conf.lcmNetDebug (.boot conf.ifname conf.host ip Wlan.alone.clock) d.host
          (consumed.filterMap InputEvent.button) ((executed false Wlan.pressed).flatMap Round.datagrams) := by
  obtain ⟨d, hd, hrole, -⟩ := Wlan.alone_running
  exact ⟨d, hd, hrole, main_acts hd⟩

/-- The first broadcast of the board. -/
theorem main_publishes_pressed : ∃ d channel msg, demoMain Wlan.alone Wlan.pressed = .running d ∧
    Event.publish channel msg ∈ d.host.log ∧ jytPublish .zeroed msg = .done msg.wire := by
  obtain ⟨d, hd, -, hlog⟩ := Wlan.alone_running
  obtain ⟨p, hp⟩ := List.exists_mem_of_ne_nil _ hlog
  obtain ⟨e, he, hpub⟩ := List.mem_filterMap.mp hp
  cases e with
  | sampleNng | killall => cases hpub
  | publish channel msg =>
      refine ⟨d, channel, msg, hd, he, main_publishes (by decide) (Nat.le_refl 1023) (by decide +kernel) ?_ hd _ _ he
        .zeroed⟩
      decide +kernel

end DlsSdk
