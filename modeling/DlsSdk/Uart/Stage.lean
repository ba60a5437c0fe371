import DlsSdk.Uart.Protocol
import Mathlib.Data.List.Induction

/-!
# `Uart.Stage` — the stages of one call

What the pieces of `linux_uart_loop` do, one lemma for each: `CheckSum8` sums (`checkSum8_eq`), a byte is
stored behind the unfinished frame (`receive_filling`), the two tests find a complete frame (`measure_eq`)
or one that has overrun the buffer (`measure_over`), and the checksum stage ends and does with the frame
what `stage` says (`check_frame`). `stage` is the effect of a whole frame on `jpg_data` and the log, still
with the memory and the arithmetic of the code; where the payload fits it is the protocol's `handleFrame`
(`stage_handleFrame`).
-/

namespace DlsSdk

open Framing Buffer

/-! ## `CheckSum8` on a frame -/

/-- The byte a counting loop reads next is the head of what is left of its input. -/
theorem drop_take_eq_cons {input : List UInt8} {n i : Nat} (hi : i < n) (hlen : n ≤ input.length) :
    (input.take n).drop i = input.getD i 0 :: (input.take n).drop (i + 1) := by
  have hin : i < (input.take n).length := by
    rw [List.length_take]
    omega
  rw [List.drop_eq_getElem_cons hin, List.getElem_take, List.getD_eq_getElem _ _ (by omega)]

/-- The loop adds what is left of the input, if the counter does not run over. -/
theorem checkSum8Loop_eq {input : List UInt8} {n : UInt16} (hn : n.toNat ≤ 255)
    (hlen : n.toNat ≤ input.length) (k : Nat) :
    ∀ (fuel : Nat) (sum iX : UInt8), iX.toNat + k = n.toNat → k < fuel →
      checkSum8Loop input n fuel sum iX = some (sum + ((input.take n.toNat).drop iX.toNat).sum) := by
  induction k with
  | zero =>
      intro fuel sum iX hk hfuel
      obtain ⟨fuel, rfl⟩ : ∃ f, fuel = f + 1 := ⟨fuel - 1, by omega⟩
      have hlt : ¬ iX.toUInt16 < n := by
        rw [UInt16.lt_iff_toNat_lt, UInt8.toNat_toUInt16]
        omega
      have hdrop : (input.take n.toNat).drop iX.toNat = [] := by
        apply List.drop_eq_nil_of_le
        rw [List.length_take]
        omega
      rw [checkSum8Loop, if_neg hlt, hdrop, List.sum_nil, UInt8.add_zero]
  | succ k ih =>
      intro fuel sum iX hk hfuel
      obtain ⟨fuel, rfl⟩ : ∃ f, fuel = f + 1 := ⟨fuel - 1, by omega⟩
      have hlt : iX.toUInt16 < n := by
        rw [UInt16.lt_iff_toNat_lt, UInt8.toNat_toUInt16]
        omega
      -- the counter stays below 255, so it does not wrap
      have hnext : (iX + 1).toNat = iX.toNat + 1 := by
        rw [UInt8.toNat_add, show (1 : UInt8).toNat = 1 from rfl]
        omega
      have hcons := drop_take_eq_cons (i := iX.toNat) (by omega) hlen
      rw [checkSum8Loop, if_pos hlt, ih fuel _ _ (by omega) (by omega), hnext, hcons, List.sum_cons,
        UInt8.add_assoc]

/-- **`CheckSum8` sums its input**, up to 255 bytes of it. -/
theorem checkSum8_eq {input : List UInt8} {n : UInt16} (hn : n.toNat ≤ 255)
    (hlen : n.toNat ≤ input.length) (seed : UInt8) :
    checkSum8 seed (some input) n = some (seed + (input.take n.toNat).sum) := by
  have hbig : ¬ n > 0xFFFE := by
    rw [gt_iff_lt, UInt16.lt_iff_toNat_lt, show (0xFFFE : UInt16).toNat = 65534 from rfl]
    omega
  have h0 : (0 : UInt8).toNat + n.toNat = n.toNat := by
    rw [show (0 : UInt8).toNat = 0 from rfl]
    omega
  have hloop := checkSum8Loop_eq hn hlen n.toNat 257 seed 0 h0 (by omega)
  unfold checkSum8
  simp only [if_neg hbig]
  rw [hloop, show (0 : UInt8).toNat = 0 from rfl, List.drop_zero]

/-! ## The log -/

/-- The places of `pack_data.data` that were stored to. -/
def stores (log : List UartEvent) : List Nat :=
  log.filterMap fun e => match e with
    | .store index => some index
    | _ => none

/-- The block copies to `jpg_data.buf`: place and size. -/
def copies (log : List UartEvent) : List (Nat × Nat) :=
  log.filterMap fun e => match e with
    | .copy pos size => some (pos, size)
    | _ => none

/-- The events of the checksum stage. -/
def handled (log : List UartEvent) : List UartEvent :=
  log.filter fun e => match e with
    | .store _ => false
    | _ => true

@[simp] theorem checked_append (l l' : List UartEvent) : checked (l ++ l') = checked l ++ checked l' :=
  List.filterMap_append

@[simp] theorem written_append (l l' : List UartEvent) : written (l ++ l') = written l ++ written l' :=
  List.flatMap_append

@[simp] theorem stores_append (l l' : List UartEvent) : stores (l ++ l') = stores l ++ stores l' :=
  List.filterMap_append

@[simp] theorem copies_append (l l' : List UartEvent) : copies (l ++ l') = copies l ++ copies l' :=
  List.filterMap_append

@[simp] theorem handled_append (l l' : List UartEvent) : handled (l ++ l') = handled l ++ handled l' :=
  List.filter_append ..

/-- What the checksum stage leaves in the log is read off its own events. -/
theorem checked_handled (log : List UartEvent) : checked (handled log) = checked log := by
  induction log with
  | nil => rfl
  | cons e log ih => cases e <;> simp_all [checked, handled]

theorem written_handled (log : List UartEvent) : written (handled log) = written log := by
  induction log with
  | nil => rfl
  | cons e log ih => cases e <;> simp_all [written, handled]

theorem copies_handled (log : List UartEvent) : copies (handled log) = copies log := by
  induction log with
  | nil => rfl
  | cons e log ih => cases e <;> simp_all [copies, handled]

/-! ## The unfinished frame -/

/-- `pack_data` is collecting a frame and has `part` of it. -/
structure Filling (pack : PackT) (part : List UInt8) : Prop where
  work : pack.work = 1
  size : pack.size.toNat = part.length
  data : Holds pack.data part 0

/-- `pack_data` between two calls, with `part` of a frame collected. -/
def Between (pack : PackT) (part : List UInt8) : Prop :=
  (pack.work = 0 ∧ part = []) ∨ Filling pack part

theorem Between.work {pack : PackT} {part : List UInt8} (h : Between pack part) :
    pack.work = 0 ∨ pack.work = 1 := by
  rcases h with h | h
  · exact .inl h.1
  · exact .inr h.work

/-- Whether or not the last call finished a frame, a call starts with the unfinished one. -/
theorem reset_filling {t : Ts} {part : List UInt8} (h : Between t.pack part) :
    Filling t.reset.pack part ∧ t.reset.jpg = t.jpg ∧ t.reset.log = t.log := by
  unfold Ts.reset
  rcases h with ⟨hw, rfl⟩ | hf
  · rw [if_pos hw]
    exact ⟨⟨rfl, rfl, Holds.clear 0⟩, rfl, rfl⟩
  · rw [if_neg (by rw [hf.work]; decide)]
    exact ⟨hf, rfl, rfl⟩

theorem receive_filling {t : Ts} {part : List UInt8} (h : Filling t.pack part)
    (hlen : part.length < 255) (b : UInt8) : Filling (t.receive b).pack (part ++ [b]) where
  work := h.work
  size := by
    show (t.pack.size + 1).toNat = _
    rw [UInt16.toNat_add, h.size, show (1 : UInt16).toNat = 1 from rfl, List.length_append,
      List.length_singleton]
    omega
  data := by
    show Holds (t.pack.data.setIfInBounds t.pack.size.toNat b) (part ++ [b]) 0
    rw [h.size]
    exact h.data.push hlen b

/-- A byte of the buffer is a byte of the frame. -/
theorem Filling.byte {pack : PackT} {part : List UInt8} (h : Holds pack.data part 0) {i : Nat}
    (hi : i < 255) : pack.data[i] = frameByte part i := h.get hi

/-- The length test is the test for a complete frame. -/
theorem size_eq_iff {pack : PackT} {part : List UInt8} (h : Filling pack part) :
    pack.size.toNat = (frameByte part 0).toNat + 4 ↔ Complete follow part := by
  rw [h.size]
  cases part with
  | nil =>
      rw [show frameByte [] 0 = 0 from rfl, List.length_nil]
      constructor
      · intro h0
        exact absurd h0 (by decide)
      · exact False.elim
  | cons L rest =>
      rw [show frameByte (L :: rest) 0 = L from rfl, List.length_cons]
      show rest.length + 1 = L.toNat + 4 ↔ rest.length = L.toNat + 3
      omega

/-- **The two tests after a read**: a complete frame goes on, and none is too long. -/
theorem measure_eq {t : Ts} {part : List UInt8} (h : Filling t.pack part) :
    t.measure = if Complete follow part then { t with pack.work := 2 } else t := by
  have hmax : ¬ t.pack.size > 255 := by
    rw [gt_iff_lt, UInt16.lt_iff_toNat_lt, h.size, show (255 : UInt16).toNat = 255 from rfl]
    exact Nat.not_lt.mpr h.data.length_le
  unfold Ts.measure
  rw [Filling.byte h.data (by decide)]
  by_cases hc : Complete follow part
  · rw [if_pos ((size_eq_iff h).mpr hc), if_pos hc]
    exact if_neg hmax
  · rw [if_neg (fun hs => hc ((size_eq_iff h).mp hs)), if_neg hc]
    exact if_neg hmax

/-- A frame that has overrun the buffer is dropped, also when the 256th byte completes it. -/
theorem measure_over {t : Ts} (h : t.pack.size.toNat = 256) :
    t.measure.pack.work = 0 ∧ t.measure.jpg = t.jpg ∧ t.measure.log = t.log := by
  have hover : t.pack.size > 255 := by
    rw [gt_iff_lt, UInt16.lt_iff_toNat_lt, h, show (255 : UInt16).toNat = 255 from rfl]
    decide
  unfold Ts.measure
  by_cases hc : t.pack.size.toNat = t.pack.data[0].toNat + 4
  · simp only [if_pos hc, if_pos hover, and_self]
  · simp only [if_neg hc, if_pos hover, and_self]

/-! ## The effect of a frame -/

/-- The reply to a command. -/
def answer (kind : UInt8) : Option (List UInt8) :=
  if kind = 0x0A then some replyBegin
  else if kind = 0x0B then some replyData
  else if kind = 0x04 then some replyState
  else if kind = 0x0F then some replyParam
  else none

/-- What an accepted frame does to `jpg_data`. -/
def Jpg.accept (jpg : Jpg) (f : List UInt8) : Jpg :=
  if frameByte f 3 = 0x0A then
    { jpg with
      pos := 0
      len := fileSize (frameByte f 53) (frameByte f 54) (frameByte f 55) (frameByte f 56) }
  else if frameByte f 3 = 0x0B then
    { jpg with
      pos := jpg.pos + UInt32.ofNat (f.drop 4).length
      buf := blit jpg.buf jpg.pos.toNat (f.drop 4) }
  else jpg

/-- What it leaves in the log. -/
def acceptLog (jpg : Jpg) (f : List UInt8) : List UartEvent :=
  (if frameByte f 3 = 0x0B then [.copy jpg.pos.toNat (f.drop 4).length] else []) ++
    ((answer (frameByte f 3)).map .write).toList

/-- **A frame at the checksum stage**: `jpg_data` and the events of the stage, before and after. -/
def stage (s : Jpg × List UartEvent) (f : List UInt8) : Jpg × List UartEvent :=
  if Accepted f then (s.1.accept f, s.2 ++ [.frame f] ++ acceptLog s.1 f) else (s.1, s.2 ++ [.frame f])

/-- The frames from the start, one after the other. -/
def stageRun (frames : List (List UInt8)) : Jpg × List UartEvent :=
  frames.foldl stage (Ts.zero.jpg, [])

/-- The reply to a frame, if it gets one. -/
def reply (f : List UInt8) : Option (List UInt8) :=
  if Accepted f then answer (frameByte f 3) else none

@[simp] theorem stageRun_nil : stageRun [] = (Ts.zero.jpg, []) := rfl

@[simp] theorem stageRun_snoc (frames : List (List UInt8)) (f : List UInt8) :
    stageRun (frames ++ [f]) = stage (stageRun frames) f := by
  rw [stageRun, stageRun, List.foldl_append]
  rfl

/-- A dispatch copies and writes, nothing else. -/
theorem acceptLog_cases {jpg : Jpg} {f : List UInt8} {e : UartEvent} (h : e ∈ acceptLog jpg f) :
    (∃ pos size, e = .copy pos size) ∨ ∃ bytes, e = .write bytes := by
  rcases List.mem_append.mp h with hcopy | hwrite
  · by_cases hB : frameByte f 3 = 0x0B
    · rw [if_pos hB, List.mem_singleton] at hcopy
      exact .inl ⟨_, _, hcopy⟩
    · rw [if_neg hB] at hcopy
      exact absurd hcopy List.not_mem_nil
  · obtain ⟨bytes, -, he⟩ := Option.map_eq_some_iff.mp (Option.mem_toList.mp hwrite)
    exact .inr ⟨bytes, he.symm⟩

@[simp] theorem checked_acceptLog (jpg : Jpg) (f : List UInt8) : checked (acceptLog jpg f) = [] := by
  apply List.filterMap_eq_nil_iff.mpr
  intro e he
  rcases acceptLog_cases he with ⟨_, _, rfl⟩ | ⟨_, rfl⟩ <;> rfl

@[simp] theorem stores_acceptLog (jpg : Jpg) (f : List UInt8) : stores (acceptLog jpg f) = [] := by
  apply List.filterMap_eq_nil_iff.mpr
  intro e he
  rcases acceptLog_cases he with ⟨_, _, rfl⟩ | ⟨_, rfl⟩ <;> rfl

@[simp] theorem handled_acceptLog (jpg : Jpg) (f : List UInt8) :
    handled (acceptLog jpg f) = acceptLog jpg f := by
  apply List.filter_eq_self.mpr
  intro e he
  rcases acceptLog_cases he with ⟨_, _, rfl⟩ | ⟨_, rfl⟩ <;> rfl

@[simp] theorem written_acceptLog (jpg : Jpg) (f : List UInt8) :
    written (acceptLog jpg f) = (answer (frameByte f 3)).getD [] := by
  unfold acceptLog
  by_cases hB : frameByte f 3 = 0x0B
  · rw [if_pos hB]
    cases answer (frameByte f 3) <;> simp [written]
  · rw [if_neg hB]
    cases answer (frameByte f 3) <;> simp [written]

@[simp] theorem checked_stage (s : Jpg × List UartEvent) (f : List UInt8) :
    checked (stage s f).2 = checked s.2 ++ [f] := by
  unfold stage
  by_cases hacc : Accepted f
  · rw [if_pos hacc, checked_append, checked_append, checked_acceptLog, List.append_nil]
    rfl
  · rw [if_neg hacc, checked_append]
    rfl

@[simp] theorem written_stage (s : Jpg × List UartEvent) (f : List UInt8) :
    written (stage s f).2 = written s.2 ++ (reply f).getD [] := by
  unfold stage reply
  by_cases hacc : Accepted f
  · rw [if_pos hacc, if_pos hacc, written_append, written_append, written_acceptLog]
    exact congrArg (· ++ _) (List.append_nil _)
  · rw [if_neg hacc, if_neg hacc, written_append]
    rfl

@[simp] theorem stores_stage (s : Jpg × List UartEvent) (f : List UInt8) :
    stores (stage s f).2 = stores s.2 := by
  unfold stage
  by_cases hacc : Accepted f
  · rw [if_pos hacc, stores_append, stores_append, stores_acceptLog, List.append_nil]
    exact List.append_nil _
  · rw [if_neg hacc, stores_append]
    exact List.append_nil _

/-- The stage does not look at the log. -/
theorem handled_stage (s : Jpg × List UartEvent) (f : List UInt8) :
    ((stage s f).1, handled (stage s f).2) = stage (s.1, handled s.2) f := by
  unfold stage
  by_cases hacc : Accepted f
  · rw [if_pos hacc, if_pos hacc, handled_append, handled_append, handled_acceptLog]
    rfl
  · rw [if_neg hacc, if_neg hacc, handled_append]
    rfl

/-- Every frame of a run is on record. -/
theorem checked_stageRun (frames : List (List UInt8)) : checked (stageRun frames).2 = frames := by
  induction frames using List.reverseRecOn with
  | nil => rfl
  | append_singleton frames f ih => rw [stageRun_snoc, checked_stage, ih]

/-- **What a run writes** are the replies, one after the other. -/
theorem written_stageRun (frames : List (List UInt8)) :
    written (stageRun frames).2 = (frames.filterMap reply).flatten := by
  induction frames using List.reverseRecOn with
  | nil => rfl
  | append_singleton frames f ih =>
      rw [stageRun_snoc, written_stage, ih, List.filterMap_append, List.flatten_append]
      cases hr : reply f <;> simp [hr]

/-- Where the payload fits, the effect of a frame is the protocol's. -/
theorem stage_handleFrame {s : Jpg × List UartEvent} {f : List UInt8} (hfit : Fits s.1.image f) :
    ((stage s f).1.image, written (stage s f).2) = handleFrame (s.1.image, written s.2) f := by
  rw [written_stage]
  unfold stage handleFrame reply
  by_cases hacc : Accepted f
  · rw [if_pos hacc, if_pos hacc, if_pos hacc]
    unfold Jpg.accept answer
    by_cases hA : frameByte f 3 = 0x0A
    · simp only [if_pos hA]
      rfl
    by_cases hB : frameByte f 3 = 0x0B
    · have hblit : (blit s.1.buf s.1.pos.toNat (f.drop 4)).toList = s.1.buf.toList.take s.1.pos.toNat ++
          f.drop 4 ++ s.1.buf.toList.drop (s.1.pos.toNat + (f.drop 4).length) :=
        blit_toList (hfit hacc hB)
      simp only [if_neg hA, if_pos hB, Jpg.image, Image.append, Option.getD_some, hblit]
    by_cases h4 : frameByte f 3 = 0x04
    · have hC : frameByte f 3 ≠ 0x0C := by rw [h4]; decide
      simp only [if_neg hA, if_neg hB, if_neg hC, if_pos h4]
      rfl
    by_cases hF : frameByte f 3 = 0x0F
    · have hC : frameByte f 3 ≠ 0x0C := by rw [hF]; decide
      simp only [if_neg hA, if_neg hB, if_neg hC, if_neg h4, if_pos hF]
      rfl
    · simp only [if_neg hA, if_neg hB, if_neg h4, if_neg hF, ite_self, Option.getD_none, List.append_nil]
  · rw [if_neg hacc, if_neg hacc, if_neg hacc, Option.getD_none, List.append_nil]

/-! ## The checksum stage -/

/-- A complete frame in the buffer. -/
structure Full (pack : PackT) (f : List UInt8) : Prop where
  size : pack.size.toNat = f.length
  data : Holds pack.data f 0
  long : 4 ≤ f.length

theorem Full.le {pack : PackT} {f : List UInt8} (h : Full pack f) : f.length ≤ 255 := h.data.length_le

/-- What the code reads of the buffer from byte `k` on is the frame from byte `k` on. -/
theorem Full.drop {pack : PackT} {f : List UInt8} (h : Full pack f) (k : Nat) :
    (pack.data.toList.drop k).take (f.length - k) = f.drop k := by
  rw [← List.drop_take, h.data.take]

/-- The checksum of the frame in the buffer. -/
theorem Full.checkSum {pack : PackT} {f : List UInt8} (h : Full pack f) :
    checkSum8 0 (some (pack.data.toList.drop 3)) (pack.size - 3) = some (f.drop 3).sum := by
  have hlong := h.long
  have hle := h.le
  have hn : (pack.size - 3).toNat = f.length - 3 := by
    rw [UInt16.toNat_sub_of_le _ _ (by
      rw [UInt16.le_iff_toNat_le, h.size, show (3 : UInt16).toNat = 3 from rfl]; omega),
      h.size, show (3 : UInt16).toNat = 3 from rfl]
  have hlen : (pack.size - 3).toNat ≤ (pack.data.toList.drop 3).length := by
    rw [hn, List.length_drop, Vector.length_toList]
    omega
  rw [checkSum8_eq (by omega) hlen, hn, h.drop 3, UInt8.zero_add]

/-- **The dispatch** of an accepted frame. -/
theorem dispatch_frame {t : Ts} {f : List UInt8} (h : Full t.pack f) :
    t.dispatch.jpg = t.jpg.accept f ∧ t.dispatch.log = t.log ++ acceptLog t.jpg f := by
  have hbyte : ∀ i (hi : i < 255), t.pack.data[i] = frameByte f i := fun i hi => Filling.byte h.data hi
  have hpayload : (t.pack.data.toList.drop 4).take (f.drop 4).length = f.drop 4 := by
    rw [List.length_drop]
    exact h.drop 4
  have hlen : t.pack.size.toNat - 4 = (f.drop 4).length := by rw [h.size, List.length_drop]
  have hsize : (t.pack.size - 4).toUInt32 = UInt32.ofNat (f.drop 4).length := by
    have hlong := h.long
    have hle := h.le
    apply UInt32.toNat.inj
    rw [UInt16.toNat_toUInt32, UInt16.toNat_sub_of_le _ _ (by
      rw [UInt16.le_iff_toNat_le, h.size, show (4 : UInt16).toNat = 4 from rfl]; omega),
      show (4 : UInt16).toNat = 4 from rfl, hlen, UInt32.toNat_ofNat', List.length_drop]
    omega
  unfold Ts.dispatch Jpg.accept acceptLog answer
  simp only [hbyte]
  by_cases hA : frameByte f 3 = 0x0A
  · have hB : frameByte f 3 ≠ 0x0B := by rw [hA]; decide
    simp only [if_pos hA, if_neg hB]
    exact ⟨rfl, rfl⟩
  by_cases hB : frameByte f 3 = 0x0B
  · simp only [if_neg hA, if_pos hB, Ts.emit, hlen, hpayload, hsize, List.append_assoc]
    exact ⟨trivial, rfl⟩
  by_cases h4 : frameByte f 3 = 0x04
  · have hC : frameByte f 3 ≠ 0x0C := by rw [h4]; decide
    simp only [if_neg hA, if_neg hB, if_neg hC, if_pos h4]
    exact ⟨rfl, rfl⟩
  by_cases hF : frameByte f 3 = 0x0F
  · have hC : frameByte f 3 ≠ 0x0C := by rw [hF]; decide
    simp only [if_neg hA, if_neg hB, if_neg hC, if_neg h4, if_pos hF]
    exact ⟨rfl, rfl⟩
  · simp only [if_neg hA, if_neg hB, if_neg h4, if_neg hF, ite_self]
    exact ⟨trivial, (List.append_nil _).symm⟩

/-- Without a complete frame the checksum stage does nothing. -/
theorem check_skip {t : Ts} (hw : t.pack.work ≠ 2) : t.check = some t := by
  unfold Ts.check
  rw [if_neg hw]

/-- **The checksum stage** ends, and has the effect of the frame in the buffer. -/
theorem check_frame {t : Ts} {f : List UInt8} (hw : t.pack.work = 2) (h : Full t.pack f) :
    ∃ t', t.check = some t' ∧ t'.pack.work = 0 ∧ (t'.jpg, t'.log) = stage (t.jpg, t.log) f := by
  have hsum := h.checkSum
  have hdata2 : t.pack.data[2] = frameByte f 2 := Filling.byte h.data (by omega)
  have hframe : t.pack.data.toList.take t.pack.size.toNat = f := by
    rw [h.size]
    exact h.data.take
  -- the state at the dispatch: marked as busy, and the frame is on record
  let g : Ts := Ts.emit { t with pack.work := 3 } (.frame f)
  have hcheck : t.check = some (if Accepted f then
      { g.dispatch with pack.work := 0 } else { g with pack.work := 0 }) := by
    unfold Ts.check
    rw [if_pos hw]
    simp only [Ts.emit, hframe, hsum, hdata2, Option.map_some]
    rfl
  rw [hcheck]
  refine ⟨_, rfl, ?_⟩
  by_cases hacc : Accepted f
  · have hg : Full g.pack f := ⟨h.size, h.data, h.long⟩
    obtain ⟨hjpg, hlog⟩ := dispatch_frame hg
    rw [if_pos hacc, stage, if_pos hacc]
    exact ⟨rfl, Prod.ext hjpg hlog⟩
  · rw [if_neg hacc, stage, if_neg hacc]
    exact ⟨rfl, rfl⟩

end DlsSdk
