import DlsSdk.LcmNet.LoopSpec

/-!
# `LcmNet.RoundTrip` — what a pushed message looks like to its receiver

The four register values, the time and the length of the extension cross three narrowings on their way:
`num_exts` from 16 to 8 bits and the states from unsigned to signed on the sender's side, and the
milliseconds, sent in steps of ten, back to a count of milliseconds in 8 bits on the receiver's. `narrow_iff`
says which values survive the one, `tens_iff` which the other; `push_pull_iff` puts the message together.

The codec and the transport (`Codec`) give the message back as it was handed to them, or refuse it; what they
may refuse is a message that announces more extension bytes than it has, or a negative number of them.
-/

namespace DlsSdk

/-! ## The narrowings -/

/-- **A value survives 8 signed bits** exactly if it is in their range. -/
theorem narrow_iff {n : Int} : n.bmod 256 = n ↔ -128 ≤ n ∧ n < 128 := by
  rw [Int.bmod_def]
  constructor
  · intro h
    split at h <;> omega
  · rintro ⟨hlo, hhi⟩
    split <;> omega

theorem toInt_toInt8 (b : UInt8) : b.toInt8.toInt = (b.toNat : Int).bmod 256 :=
  BitVec.toInt_eq_toNat_bmod b.toBitVec

theorem toInt8_inj {a b : UInt8} : a.toInt8 = b.toInt8 ↔ a = b := by
  constructor
  · intro h
    have hb : a.toInt8.toUInt8 = b.toInt8.toUInt8 := congrArg Int8.toUInt8 h
    exact hb
  · rintro rfl
    rfl

/-- **Microseconds survive the way through tens of milliseconds and back** up to 129 999 of them; from there
    on the receiver's product leaves its 8 bits. -/
theorem tens_iff {us : Int} (h0 : 0 ≤ us) (h1 : us < 1000000) :
    ((us / 10000 * 10).bmod 256 * 1000 ≤ us ∧ us ≤ (us / 10000 * 10).bmod 256 * 1000 + 10000) ↔
      us < 130000 := by
  rw [Int.bmod_def]
  split
  · omega
  · omega

/-! ## A push and its delivery -/

/-- The arguments of a call of `lcm_net_push`. -/
structure PushCall where
  reqAddr : String
  repAddr : String
  reqState : UInt8
  repState : UInt8
  numExts : Int16
  exts : List Int8
  deriving DecidableEq, Repr

namespace PushCall

def run (c : PushCall) (h : Host) : Host :=
  lcmNetPush h c.reqAddr c.repAddr c.reqState c.repState c.numExts c.exts

/-- The message the call hands to the transport. -/
def data (c : PushCall) (h : Host) : ExlcmLcmJyt :=
  pushData h c.reqAddr c.repAddr c.reqState c.repState c.numExts c.exts

/-- `num_exts` counts the extension. -/
def Counted (c : PushCall) : Prop := (c.exts.length : Int) = c.numExts.toInt

end PushCall

/-- The codec and the transport. -/
structure Codec where
  deliver : ExlcmLcmJyt → Option ExlcmLcmJyt
  /-- What arrives is what was handed over. -/
  same : ∀ {msg got}, deliver msg = some got → got = msg
  /-- A message with as many extension bytes as it announces is sent. -/
  accepts : ∀ {msg : ExlcmLcmJyt}, 0 ≤ msg.numExts.toInt → msg.numExts.toInt ≤ msg.exts.length →
    deliver msg = some msg

/-- A state register before and after the pull of a pushed state. -/
def StateTaken (pushed : UInt8) (before after : Int8) : Prop :=
  if pushed = LcmState.null.toUInt8 then after = before else after.toInt = pushed.toNat

/-- The time a device has been told last, in microseconds. -/
def LcmNet.told (self : LcmNet) : Int := self.timeSs.toInt * 1000000 + self.timeMs.toInt * 1000

/-- The receiver `r` has become `r'` by the message that `c` pushed on `s`: the addresses are those of the
    call, the states too unless they were `STATE_NULL`, and the time is at most 10 ms before `s`'s. -/
structure Taken (c : PushCall) (s r r' : Host) : Prop where
  reqAddr : r'.self.reqAddr = c.reqAddr
  repAddr : r'.self.repAddr = c.repAddr
  reqState : StateTaken c.reqState r.self.reqState r'.self.reqState
  repState : StateTaken c.repState r.self.repState r'.self.repState
  notAfter : r'.self.told ≤ s.clock
  within : s.clock ≤ r'.self.told + 10000

/-- Whatever the call publishes on `s` announces its extension, and is taken by `r` when it is delivered. -/
def PushCall.Survives (c : PushCall) (codec : Codec) (s r : Host) : Prop :=
  ∀ channel msg got, published (c.run s).log = published s.log ++ [(channel, msg)] →
    codec.deliver msg = some got →
      msg.numExts.toInt = c.numExts.toInt ∧ Taken c s r (lcmNetPull r got)

/-- No value of the call leaves its range on the way. -/
structure PushCall.Fits (c : PushCall) (s : Host) : Prop where
  numExts : c.numExts.toInt ≤ 127
  reqState : c.reqState.toNat < 128
  repState : c.repState.toNat < 128
  usec : s.tvUsec < 130000

/-- The message announces a negative number of bytes, and is refused. -/
def PushCall.Refused (c : PushCall) (codec : Codec) (s : Host) : Prop :=
  128 ≤ c.numExts.toInt % 256 ∧ codec.deliver (c.data s) = none

variable {c : PushCall} {codec : Codec} {s : Host}

/-- A call publishes its message, and nothing else. -/
theorem run_published (c : PushCall) (s : Host) :
    published (c.run s).log = published s.log ++ [(s.self.pool, c.data s)] := by
  simp only [PushCall.run, PushCall.data, lcmNetPush, emit_log, published_append, published_publish,
    LcmNet.pool]

/-- The length is announced right if it fits, and is negative from 128 to 255 (modulo 256). -/
theorem data_numExts (c : PushCall) (s : Host) :
    (c.data s).numExts.toInt = c.numExts.toInt.bmod 256 := Int16.toInt_toInt8 c.numExts

/-- Only a negative length can be refused. -/
theorem delivered_of_not_refused (hc : c.Counted) (hr : ¬ c.Refused codec s) :
    codec.deliver (c.data s) = some (c.data s) := by
  by_cases hneg : 128 ≤ c.numExts.toInt % 256
  · obtain ⟨got, hgot⟩ := Option.ne_none_iff_exists'.mp fun hn => hr ⟨hneg, hn⟩
    rw [hgot, codec.same hgot]
  · have hlen : (c.data s).numExts.toInt = c.numExts.toInt % 256 := by
      rw [data_numExts, Int.bmod_def, if_pos (by omega)]
      rfl
    have hexts : ((c.data s).exts.length : Int) = c.numExts.toInt := hc
    exact codec.accepts (by omega) (by omega)

/-! ## What the receiver has -/

/-- The relay leaves the time alone. -/
theorem pullRelay_time (h : Host) (msg : ExlcmLcmJyt) :
    (pullRelay h msg).self.timeSs = h.self.timeSs ∧
      (pullRelay h msg).self.timeMs = h.self.timeMs := by
  unfold pullRelay
  split <;> exact ⟨rfl, rfl⟩

/-- A pull takes the message's time over. -/
theorem pull_time (h : Host) (msg : ExlcmLcmJyt) :
    (lcmNetPull h msg).self.timeSs = msg.timeSs ∧
      (lcmNetPull h msg).self.timeMs = msg.timeMs * 10 := by
  obtain ⟨hs, hm⟩ := pullRelay_time (pullClock (pullRegisters h msg) msg) msg
  rw [pullClock_self] at hs hm
  exact ⟨hs, hm⟩

/-- What the receiver is told: the seconds exactly, the rest through the tens of milliseconds. -/
theorem pull_told (r : Host) (c : PushCall) (h0 : 0 ≤ s.time) (h1 : s.time < 2147483648) :
    (lcmNetPull r (c.data s)).self.told =
      s.time * 1000000 + (s.tvUsec / 10000 * 10).bmod 256 * 1000 := by
  obtain ⟨hs, hm⟩ := pull_time r (c.data s)
  have husec : 0 ≤ s.tvUsec ∧ s.tvUsec < 1000000 := by
    unfold Host.tvUsec
    omega
  have hss : (c.data s).timeSs.toInt = s.time := by
    show (Int32.ofInt s.time).toInt = s.time
    rw [Int32.toInt_ofInt]
    exact Int.bmod_eq_of_le (by simp [Int32.size]; omega) (by simp [Int32.size]; omega)
  -- on the sender's side nothing is lost: there are at most 99 tens of milliseconds
  have hsend : (c.data s).timeMs.toInt = s.tvUsec / 10000 := by
    show (Int8.ofInt (s.tvUsec / 10000)).toInt = s.tvUsec / 10000
    rw [Int8.toInt_ofInt]
    exact narrow_iff.mpr (by omega)
  have hms : ((c.data s).timeMs * 10).toInt = (s.tvUsec / 10000 * 10).bmod 256 := by
    rw [Int8.toInt_mul, hsend]
    rfl
  rw [LcmNet.told, hs, hm, hss, hms]

/-- The time is kept exactly while the microseconds are. -/
theorem told_iff (r : Host) (c : PushCall) (h0 : 0 ≤ s.time) (h1 : s.time < 2147483648) :
    ((lcmNetPull r (c.data s)).self.told ≤ s.clock ∧
      s.clock ≤ (lcmNetPull r (c.data s)).self.told + 10000) ↔ s.tvUsec < 130000 := by
  have husec : 0 ≤ s.tvUsec ∧ s.tvUsec < 1000000 := by
    unfold Host.tvUsec
    omega
  have hclock : s.clock = s.time * 1000000 + s.tvUsec := by
    unfold Host.time Host.tvUsec
    omega
  have htens := tens_iff husec.1 husec.2
  rw [pull_told r c h0 h1, hclock]
  omega

/-- A merged state register holds the pushed state exactly if 8 signed bits do, or it was `STATE_NULL`. -/
theorem stateTaken_iff {pushed : UInt8} {before after : Int8}
    (hm : after = if LcmState.null ≠ pushed.toInt8 then pushed.toInt8 else before) :
    StateTaken pushed before after ↔ pushed.toNat < 128 := by
  have hnull : LcmState.null.toInt8 = LcmState.null.toUInt8.toInt8 := rfl
  unfold StateTaken
  by_cases hn : pushed = LcmState.null.toUInt8
  · rw [if_neg (fun hne => hne (by rw [hnull, hn]))] at hm
    rw [if_pos hn, hn]
    exact ⟨fun _ => by decide, fun _ => hm⟩
  · have hne : LcmState.null.toInt8 ≠ pushed.toInt8 := by
      rw [hnull]
      exact fun he => hn (toInt8_inj.mp he).symm
    rw [if_pos hne] at hm
    rw [if_neg hn, hm, toInt_toInt8, narrow_iff]
    omega

/-- **The receiver's half**: the addresses always survive, the states and the time as far as they fit. -/
theorem taken_iff (r : Host) (c : PushCall) (h0 : 0 ≤ s.time) (h1 : s.time < 2147483648) :
    Taken c s r (lcmNetPull r (c.data s)) ↔
      c.reqState.toNat < 128 ∧ c.repState.toNat < 128 ∧ s.tvUsec < 130000 := by
  have hregs := pull_regs r (c.data s)
  have hreq : StateTaken c.reqState _ _ ↔ c.reqState.toNat < 128 :=
    stateTaken_iff (congrArg Regs.reqState hregs)
  have hrep : StateTaken c.repState _ _ ↔ c.repState.toNat < 128 :=
    stateTaken_iff (congrArg Regs.repState hregs)
  have htold := told_iff r c h0 h1
  constructor
  · intro ht
    exact ⟨hreq.mp ht.reqState, hrep.mp ht.repState, htold.mp ⟨ht.notAfter, ht.within⟩⟩
  · rintro ⟨hq, hp, hu⟩
    obtain ⟨hafter, hwithin⟩ := htold.mpr hu
    exact ⟨congrArg Regs.reqAddr hregs, congrArg Regs.repAddr hregs, hreq.mpr hq, hrep.mpr hp, hafter,
      hwithin⟩

/-- **Push, then pull.** What a call publishes announces the extension it was given, and gives its receiver
    the addresses, the states and the time of the sender, exactly if every value of the call fits, or the
    message is refused for a negative length. -/
theorem push_pull_iff (codec : Codec) (c : PushCall) (s r : Host) (hc : c.Counted)
    (h0 : 0 ≤ s.time) (h1 : s.time < 2147483648) :
    c.Survives codec s r ↔ c.Fits s ∨ c.Refused codec s := by
  have htaken := taken_iff r c h0 h1
  constructor
  · intro hs
    by_cases hr : c.Refused codec s
    · exact .inr hr
    · obtain ⟨hn, ht⟩ := hs _ _ _ (run_published c s) (delivered_of_not_refused hc hr)
      obtain ⟨hq, hp, hu⟩ := htaken.mp ht
      rw [data_numExts, narrow_iff] at hn
      exact .inl ⟨by omega, hq, hp, hu⟩
  · intro hfit channel msg got hpub hgot
    rw [run_published] at hpub
    obtain ⟨-, rfl⟩ := Prod.mk.inj (List.singleton_inj.mp (List.append_cancel_left hpub))
    obtain hfit | ⟨-, hnone⟩ := hfit
    · obtain rfl := codec.same hgot
      have hn : (c.data s).numExts.toInt = c.numExts.toInt := by
        have hpos : (c.exts.length : Int) = c.numExts.toInt := hc
        have hle := hfit.numExts
        rw [data_numExts, narrow_iff]
        omega
      exact ⟨hn, htaken.mpr ⟨hfit.reqState, hfit.repState, hfit.usec⟩⟩
    · rw [hnone] at hgot
      exact absurd hgot (by simp)

/-- A transport that loses nothing. -/
def Codec.direct : Codec where
  deliver := some
  same h := (Option.some.inj h).symm
  accepts _ _ := rfl

/-- A clear, as `lcm_net_work_loop` pushes it. -/
def PushCall.hangUp : PushCall := ⟨"", "", 0, 0, 0, []⟩

/-- A device at 130 ms past a second. -/
def Wlan.late : Host := Host.boot "wlan0" "192.168.137.192" "192.168.137.101" 1559098680130000

/-- At 120 ms past the second the message survives, the 120 ms included. -/
theorem push_pull_on_time :
    PushCall.hangUp.Survives .direct { Wlan.late with clock := 1559098680120000 } Wlan.late :=
  (push_pull_iff .direct .hangUp { Wlan.late with clock := 1559098680120000 } Wlan.late rfl (by decide)
    (by decide)).mpr (.inl ⟨by decide, by decide, by decide, by decide⟩)

/-- A call with an extension of 300 bytes. -/
def PushCall.long : PushCall := ⟨"", "", 0, 0, 300, List.replicate 300 0⟩

/-- **A time 256 ms off, and an extension cut.** At 130 ms past the second the receiver of the same call is
    told -126, as 130 does not fit into `time_ms`. And 300 bytes are announced as 44. -/
theorem push_pull_wraps :
    PushCall.hangUp.Counted ∧ ¬ PushCall.hangUp.Survives .direct Wlan.late Wlan.late ∧
      (lcmNetPull Wlan.late (PushCall.hangUp.data Wlan.late)).self.timeMs = -126 ∧
      (PushCall.long.data Wlan.late).numExts = 44 := by
  refine ⟨rfl, fun hs => ?_, by decide, by decide⟩
  obtain ⟨-, ht⟩ := hs _ _ _ (run_published PushCall.hangUp Wlan.late) rfl
  exact absurd ht.within (by decide)

end DlsSdk
