import DlsSdk.Lcm.Message
import DlsSdk.LcmNet.Media

/-!
# `LcmNet.Datagrams` — messages as the datagrams they travel in

`exlcm_lcm_jyt_t_publish` encodes a message for `lcm_publish`, and `exlcm_lcm_jyt_t_handler_stub` decodes what
LCM hands over and calls `lcm_net_pull` on it. The pull makes `std::string`s of the two addresses, and the
master, or a device that prints what it receives (`lcm_net_debug`), also looks at the source: only then is the
NUL of a string searched for.

* `roundTrip` — a message that is published arrives, whatever memory its bytes were written to;
* `handlerStub_eq_done` / `handlerStub_eq_undefined` — which datagrams are taken as which message, and which
  ones leave what C defines;
* `handlerStub_dropped` — a datagram that is cut off, or has another hash, is dropped.

A `malloc` of a positive size succeeds here.
-/

namespace DlsSdk

open ByteBuffer ByteString

/-- What `malloc` finds: a block of the size that is asked for, with anything in it. -/
structure Heap where
  block : Nat → List UInt8
  length_block : ∀ n, (block n).length = n

/-- `exlcm_lcm_jyt_t_publish`, up to the bytes for `lcm_publish`. No memory has a negative size. -/
def jytPublish (heap : Heap) (p : ExlcmLcmJyt) : Outcome (List UInt8) :=
  let maxDataSize := jytEncodedSize p
  if maxDataSize < 0 then .failed (-1)
  else match jytEncode p (heap.block maxDataSize.toNat) 0 maxDataSize with
    | none => .undefined
    | some (dataSize, buf) => if dataSize < 0 then .failed dataSize else .done (buf.take dataSize.toNat)

/-- The message that `lcm_net_pull` sees: the addresses are read up to their NUL, the source if somebody
    looks at it. -/
def RawJyt.message (p : RawJyt) (source : Bool) : Option ExlcmLcmJyt := do
  let srcAddr ← (if source then cstr p.srcAddr else some "")
  let reqAddr ← cstr p.reqAddr
  let repAddr ← cstr p.repAddr
  some ⟨srcAddr, reqAddr, repAddr, p.timeSs, p.timeMs, p.reqState, p.repState, p.numExts, p.exts⟩

/-- `lcm_net_pull` looks at the source of a message. -/
def Host.looks (h : Host) (lcmNetDebug : Bool) : Bool := lcmNetDebug || h.self.isMaster

/-- `lcm_net_pull` on a message as it is decoded. -/
def Host.pull (h : Host) (lcmNetDebug : Bool) (p : RawJyt) : Outcome Host :=
  match p.message (h.looks lcmNetDebug) with
  | some msg => .done (lcmNetPull h msg)
  | none => .undefined

/-- `exlcm_lcm_jyt_t_handler_stub` with `lcm_net_pull` as its handler. Where decoding fails, the device is as
    before. -/
def jytHandlerStub (lcmNetDebug : Bool) (h : Host) (data : List UInt8) : Outcome Host := do
  let (_, p) ← jytDecode data 0 data.length
  h.pull lcmNetDebug p

variable {debug : Bool} {h h' : Host} {m : ExlcmLcmJyt} {data : List UInt8}

/-- Board 1 requests a call. -/
def Wlan.requesting : ExlcmLcmJyt :=
  { Wlan.callOf .call .null with srcAddr := "192.168.137.101", repAddr := "" }

theorem Wlan.requesting_sendable : Sendable Wlan.requesting := by decide +kernel

def Heap.zeroed : Heap := ⟨fun n => List.replicate n 0, fun _ => List.length_replicate⟩

/-! ## Publishing -/

/-- What is handed to LCM is the format. -/
theorem publish_eq (hm : Sendable m) (heap : Heap) : jytPublish heap m = .done m.wire := by
  have hsize := encodedSize_eq hm
  have hlen := heap.length_block m.wire.length
  have hwrite := (writes_encode hm).fits (heap.block m.wire.length) 0 m.wire.length
    (by omega) (Nat.le_refl _)
  have hall : splice (heap.block m.wire.length) 0 m.wire = m.wire := by
    rw [splice, List.take_zero, List.nil_append, Nat.zero_add, List.drop_of_length_le (by omega),
      List.append_nil]
  rw [hall] at hwrite
  have hpos : ¬ ((m.wire.length : Int) < 0) := by omega
  show (if jytEncodedSize m < 0 then _ else _ : Outcome _) = _
  rw [hsize, if_neg hpos, Int.toNat_natCast]
  have hwrite' : jytEncode m (heap.block m.wire.length) 0 m.wire.length =
      some ((m.wire.length : Int), m.wire) :=
    hwrite
  rw [hwrite']
  show (if (m.wire.length : Int) < 0 then _ else _ : Outcome _) = _
  rw [if_neg hpos, Int.toNat_natCast, List.take_length]

/-! ## Receiving -/

/-- What the stub does is decided by the bytes of the datagram from the front. -/
theorem handlerStub_eq (debug : Bool) (h : Host) (data : List UInt8) :
    jytHandlerStub debug h data = jytParse.run data >>= fun x => h.pull debug x.1 := by
  have hagree := @Reads.agree _ _ _ reads_decode data 0 data.length (by omega)
  rw [List.drop_zero, List.take_length] at hagree
  unfold jytHandlerStub
  show (jytDecode data ((0 : Nat) : Int) data.length >>= _) = _
  rw [hagree]
  cases jytParse.run data with
  | undefined | failed => rfl
  | done x => rfl

theorem message_raw (hm : Sendable m) :
    m.raw.message true = some m ∧ m.raw.message false = some { m with srcAddr := "" } := by
  have hcstr : ∀ {s}, CString s → cstr (terminated s) = some s := fun hs => cstr_terminated hs []
  simp only [RawJyt.message, ExlcmLcmJyt.raw, hcstr hm.src, hcstr hm.req, hcstr hm.rep]
  exact ⟨rfl, rfl⟩

/-- A slave does not depend on who has sent a message. -/
theorem pull_source (hs : h.self.isMaster = false) (m : ExlcmLcmJyt) (srcAddr : String) :
    lcmNetPull h { m with srcAddr := srcAddr } = lcmNetPull h m := by
  have hself : ¬ (pullClock (pullRegisters h m) m).self.isMaster = true := by
    rw [pullClock_self]
    exact Bool.not_eq_true _ ▸ hs
  have hregs : pullRegisters h { m with srcAddr := srcAddr } = pullRegisters h m := rfl
  have hclock : pullClock (pullRegisters h m) { m with srcAddr := srcAddr } =
      pullClock (pullRegisters h m) m := rfl
  unfold lcmNetPull
  simp only [hregs, hclock]
  rw [pullRelay, if_neg fun hc => hself hc.1, pullRelay, if_neg fun hc => hself hc.1]

/-- What a message does is what the message in memory does, whether or not its source is read. -/
theorem pull_message (hm : Sendable m) (debug : Bool) :
    ∃ msg, m.raw.message (h.looks debug) = some msg ∧ lcmNetPull h msg = lcmNetPull h m := by
  obtain ⟨htrue, hfalse⟩ := message_raw hm
  cases hlook : h.looks debug with
  | true => exact ⟨m, htrue, rfl⟩
  | false =>
      have hs : h.self.isMaster = false := (Bool.or_eq_false_iff.mp hlook).2
      exact ⟨_, hfalse, pull_source hs m ""⟩

/-- A datagram that begins with a message. -/
theorem handlerStub_wire (hm : Sendable m) (debug : Bool) (h : Host) (more : List UInt8) :
    jytHandlerStub debug h (m.wire ++ more) = .done (lcmNetPull h m) := by
  have hrun : jytParse.run (m.wire ++ more) = .done (m.raw, more) :=
    jytParse_eq_done.mpr ⟨rfl, hm.proper⟩
  obtain ⟨msg, hmsg, hpull⟩ := pull_message (h := h) hm debug
  rw [handlerStub_eq, hrun, Outcome.done_bind, Host.pull, hmsg, ← hpull]

/-- **Round trip.** Every message that can be sent is published as `exlcm_lcm_jyt_t_encoded_size` bytes that
    do not depend on the memory they were written to, and whoever receives them, with anything behind them,
    does with them what `lcm_net_pull` does with the message. -/
theorem roundTrip (hm : Sendable m) (heap : Heap) : ∃ data, jytPublish heap m = .done data ∧
    (data.length : Int) = jytEncodedSize m ∧
    (∀ heap', jytPublish heap' m = .done data) ∧
    ∀ debug h more, jytHandlerStub debug h (data ++ more) = .done (lcmNetPull h m) :=
  ⟨m.wire, publish_eq hm heap, (encodedSize_eq hm).symm, publish_eq hm, handlerStub_wire hm⟩

/-- Board 1's request as it is received. -/
theorem roundTrip_wlan : ∃ data, jytPublish .zeroed Wlan.requesting = .done data ∧
    (data.length : Int) = jytEncodedSize Wlan.requesting ∧
    (∀ heap', jytPublish heap' Wlan.requesting = .done data) ∧
    ∀ debug h more, jytHandlerStub debug h (data ++ more) = .done (lcmNetPull h Wlan.requesting) :=
  roundTrip Wlan.requesting_sendable .zeroed

/-! ## Any datagram -/

section Any
variable {p : RawJyt} {source : Bool}

/-- The two addresses that every device reads. -/
theorem message_addr (h : p.message source = some m) :
    cstr p.reqAddr = some m.reqAddr ∧ cstr p.repAddr = some m.repAddr := by
  unfold RawJyt.message at h
  obtain ⟨src, -, h⟩ := Option.bind_eq_some_iff.mp h
  obtain ⟨req, hreq, h⟩ := Option.bind_eq_some_iff.mp h
  obtain ⟨rep, hrep, h⟩ := Option.bind_eq_some_iff.mp h
  obtain rfl := Option.some.inj h
  exact ⟨hreq, hrep⟩

/-- A string that is looked at has no NUL. -/
theorem message_eq_none : p.message source = none ↔
    (source = true ∧ 0 ∉ p.srcAddr) ∨ 0 ∉ p.reqAddr ∨ 0 ∉ p.repAddr := by
  simp only [← cstr_eq_none]
  unfold RawJyt.message
  cases source with
  | true => cases cstr p.srcAddr <;> cases cstr p.reqAddr <;> cases cstr p.repAddr <;> simp
  | false => cases cstr p.reqAddr <;> cases cstr p.repAddr <;> simp

theorem handlerStub_done (hs : jytHandlerStub debug h data = .done h') :
    ∃ (p : RawJyt) (rest : List UInt8) (m : ExlcmLcmJyt), data = p.wire ++ rest ∧ p.Proper ∧
      p.message (h.looks debug) = some m ∧ h' = lcmNetPull h m := by
  rw [handlerStub_eq, Outcome.bind_eq_done] at hs
  obtain ⟨⟨p, rest⟩, hrun, hpull⟩ := hs
  obtain ⟨hdata, hp⟩ := jytParse_eq_done.mp hrun
  unfold Host.pull at hpull
  cases hm : p.message (h.looks debug) with
  | none =>
      rw [hm] at hpull
      exact absurd hpull (by simp)
  | some m =>
      rw [hm] at hpull
      exact ⟨p, rest, m, hdata, hp, hm, (Outcome.done.inj hpull).symm⟩

/-- **Which datagrams are taken**: the format, with anything behind the message, whose strings end within
    their blocks. -/
theorem handlerStub_eq_done : jytHandlerStub debug h data = .done h' ↔
    ∃ (p : RawJyt) (rest : List UInt8) (m : ExlcmLcmJyt), data = p.wire ++ rest ∧ p.Proper ∧
      p.message (h.looks debug) = some m ∧ h' = lcmNetPull h m := by
  refine ⟨handlerStub_done, ?_⟩
  rintro ⟨p, rest, m, hdata, hp, hm, rfl⟩
  rw [handlerStub_eq, Outcome.bind_eq_done]
  refine ⟨(p, rest), jytParse_eq_done.mpr ⟨hdata, hp⟩, ?_⟩
  rw [Host.pull, hm]

/-- **Which datagrams leave what C defines**: behind the right hash, a negative length, or the format with a
    string that does not end within its block, if somebody looks at it. -/
theorem handlerStub_eq_undefined : jytHandlerStub debug h data = .undefined ↔
    (∃ fields, data = int64Bytes jytGetHash.toUInt64 ++ fields ∧ NegativeLength fields) ∨
      ∃ (p : RawJyt) (rest : List UInt8), data = p.wire ++ rest ∧ p.Proper ∧
        ((h.looks debug = true ∧ 0 ∉ p.srcAddr) ∨ 0 ∉ p.reqAddr ∨ 0 ∉ p.repAddr) := by
  rw [handlerStub_eq, Outcome.bind_eq_undefined, jytParse_eq_undefined]
  refine or_congr_right ?_
  constructor
  · rintro ⟨⟨p, rest⟩, hrun, hpull⟩
    obtain ⟨hdata, hp⟩ := jytParse_eq_done.mp hrun
    refine ⟨p, rest, hdata, hp, message_eq_none.mp ?_⟩
    unfold Host.pull at hpull
    cases hm : p.message (h.looks debug) with
    | none => rfl
    | some m =>
        rw [hm] at hpull
        exact absurd hpull (by simp)
  · rintro ⟨p, rest, hdata, hp, hnone⟩
    refine ⟨(p, rest), jytParse_eq_done.mpr ⟨hdata, hp⟩, ?_⟩
    rw [Host.pull, message_eq_none.mpr hnone]

/-- Everything else is dropped with -1. -/
theorem handlerStub_eq_failed {code : Int} : jytHandlerStub debug h data = .failed code ↔
    code = -1 ∧ jytParse.run data = .failed (-1) := by
  rw [handlerStub_eq]
  cases hrun : jytParse.run data with
  | undefined => simp
  | failed code' =>
      rw [steady_jyt.refused hrun]
      simp [eq_comm]
  | done x =>
      simp only [Outcome.done_bind, Host.pull, reduceCtorEq, and_false, iff_false]
      split <;> simp

end Any

/-- **Damage.** A datagram that is a message cut off anywhere, or whose first bytes are not the hash, is
    dropped. -/
theorem handlerStub_dropped (hd : (Sendable m ∧ data <+: m.wire ∧ data ≠ m.wire) ∨
    ¬ int64Bytes jytGetHash.toUInt64 <+: data) (debug : Bool) (h : Host) :
    jytHandlerStub debug h data = .failed (-1) := by
  refine handlerStub_eq_failed.mpr ⟨rfl, ?_⟩
  obtain ⟨hm, ⟨more, hmore⟩, hne⟩ | hhash := hd
  · have hrun : jytParse.run (data ++ more) = .done (m.raw, []) := by
      rw [hmore]
      exact jytParse_eq_done.mpr ⟨(List.append_nil _).symm, hm.proper⟩
    refine steady_jyt.truncated hrun ?_
    rintro rfl
    exact hne (by rw [← hmore, List.append_nil])
  · cases hrun : jytParse.run data with
    | undefined =>
        obtain ⟨fields, rfl, -⟩ := jytParse_eq_undefined.mp hrun
        exact absurd (List.prefix_append _ _) hhash
    | failed code => rw [steady_jyt.refused hrun]
    | done x =>
        obtain ⟨p, rest⟩ := x
        obtain ⟨rfl, -⟩ := jytParse_eq_done.mp hrun
        rw [RawJyt.wire, List.append_assoc] at hhash
        exact absurd (List.prefix_append _ _) hhash

/-- The request, cut off within the first address. -/
theorem handlerStub_dropped_wlan :
    jytHandlerStub true Wlan.board1 (Wlan.requesting.wire.take 20) = .failed (-1) :=
  handlerStub_dropped (.inl ⟨Wlan.requesting_sendable, List.take_prefix _ _, by decide +kernel⟩) true
    Wlan.board1

/-! ## A region of a buffer -/

/-- **Encoding and decoding in place.** A message is encoded into `max` bytes of a larger buffer exactly if it
    has the room; nothing but these bytes is written in either case, and decoding them gives the message
    back, whatever is around them. -/
theorem encode_region (hm : Sendable m) {buf : List UInt8} {off max : Nat}
    (hbuf : off + max ≤ buf.length) :
    ∃ (n : Int) (buf' : List UInt8), jytEncode m buf off max = some (n, buf') ∧
      Outside off max buf buf' ∧ (n = jytEncodedSize m ∨ n = -1) ∧
      (n = jytEncodedSize m ↔ jytEncodedSize m ≤ max) ∧
      (n = jytEncodedSize m → jytDecode buf' off max = .done (n, m.raw)) := by
  have hsize := encodedSize_eq hm
  by_cases hroom : m.wire.length ≤ max
  · have hlen : (splice buf off m.wire).length = buf.length := length_splice (by omega)
    refine ⟨m.wire.length, splice buf off m.wire, (writes_encode hm).fits buf off max hbuf hroom,
      outside_splice hbuf hroom, .inl hsize.symm, ?_, fun _ => ?_⟩
    · rw [hsize]
      exact ⟨fun _ => by omega, fun _ => rfl⟩
    · -- the bytes that are read begin with the message
      have hdrop : (splice buf off m.wire).drop off = m.wire ++ buf.drop (off + m.wire.length) := by
        rw [splice]
        exact List.drop_left' (by rw [List.length_take]; omega)
      have hread : ((splice buf off m.wire).drop off).take max =
          m.wire ++ (buf.drop (off + m.wire.length)).take (max - m.wire.length) := by
        rw [hdrop, List.take_append, List.take_of_length_le hroom]
      have hrun : jytParse.run (m.wire ++ (buf.drop (off + m.wire.length)).take (max - m.wire.length)) =
          .done (m.raw, (buf.drop (off + m.wire.length)).take (max - m.wire.length)) :=
        jytParse_eq_done.mpr ⟨rfl, hm.proper⟩
      rw [reads_decode.agree (by omega), hread, hrun]
      simp only [Outcome.done_bind, Outcome.pure_eq, Outcome.done.injEq, Prod.mk.injEq, and_true,
        List.length_take, List.length_drop]
      omega
  · obtain ⟨buf', hrun, hout⟩ := (writes_encode hm).full buf off max hbuf (by omega)
    refine ⟨-1, buf', hrun, hout, .inr rfl, ?_, fun h => ?_⟩
    · rw [hsize]
      exact ⟨fun h => by omega, fun h => by omega⟩
    · rw [hsize] at h
      omega

/-- The request in the middle of a buffer. -/
theorem encode_region_wlan : ∃ (n : Int) (buf' : List UInt8),
    jytEncode Wlan.requesting (List.replicate 100 255) (7 : Nat) (80 : Nat) = some (n, buf') ∧
      Outside 7 80 (List.replicate 100 255) buf' ∧
      (n = jytEncodedSize Wlan.requesting ∨ n = -1) ∧
      (n = jytEncodedSize Wlan.requesting ↔ jytEncodedSize Wlan.requesting ≤ (80 : Nat)) ∧
      (n = jytEncodedSize Wlan.requesting →
        jytDecode buf' (7 : Nat) (80 : Nat) = .done (n, Wlan.requesting.raw)) :=
  encode_region Wlan.requesting_sendable (by decide)

end DlsSdk
