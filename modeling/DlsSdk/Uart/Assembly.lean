import DlsSdk.Uart.Stream

/-!
# `Uart.Assembly` — the image in `jpg_data`

A `0x0B` frame appends its payload at `jpg_data.pos`, a `0x0A` frame starts over; nothing compares `pos`
with the size of `jpg_data.buf`, as `linux_uart_loop` does with `pack_data.size`. `gather` is what has been
sent for the image. `Assembled` is the invariant, preserved by every frame after which the payload still
fits (`assembled_stage`); the run-level statement is an equivalence (`image_intact_iff`), since a payload
that does not fit cannot be found in the buffer.
-/

namespace DlsSdk

open Framing Buffer

/-- One more frame: a `0x0A` frame starts over, a `0x0B` frame brings a payload. -/
def gatherFrame (payload f : List UInt8) : List UInt8 :=
  if Accepted f then
    if frameByte f 3 = 0x0A then []
    else if frameByte f 3 = 0x0B then payload ++ f.drop 4
    else payload
  else payload

/-- The payloads of the `0x0B` frames accepted since the last accepted `0x0A` frame, or since the start. -/
def gather (frames : List (List UInt8)) : List UInt8 := frames.foldl gatherFrame []

/-- **The image is intact**: the position is within the buffer, every block copy was, and the buffer begins
    with what was sent. -/
structure Intact (t : Ts) : Prop where
  bound : t.jpg.pos.toNat ≤ jpgSize
  inside : ∀ c ∈ copies t.log, c.1 + c.2 ≤ jpgSize
  content : t.jpg.buf.toList.take t.jpg.pos.toNat = gather (checked t.log)

theorem gather_snoc (frames : List (List UInt8)) (f : List UInt8) :
    gather (frames ++ [f]) = gatherFrame (gather frames) f := by
  rw [gather, gather, List.foldl_append]
  rfl

/-! ## One frame -/

/-- The position and the buffer hold a payload, and no copy has left the buffer. -/
structure Assembled (s : Jpg × List UartEvent) (payload : List UInt8) : Prop where
  pos : s.1.pos.toNat = payload.length
  inside : ∀ c ∈ copies s.2, c.1 + c.2 ≤ jpgSize
  content : s.1.buf.toList.take payload.length = payload

theorem Assembled.length_le {s : Jpg × List UartEvent} {payload : List UInt8} (h : Assembled s payload) :
    payload.length ≤ jpgSize := by
  have hlen := congrArg List.length h.content
  rw [List.length_take, Vector.length_toList] at hlen
  omega

/-- The copies of a frame. -/
theorem copies_stage (s : Jpg × List UartEvent) (f : List UInt8) : copies (stage s f).2 = copies s.2 ++
    if Accepted f ∧ frameByte f 3 = 0x0B then [(s.1.pos.toNat, (f.drop 4).length)] else [] := by
  have hwrite : copies ((answer (frameByte f 3)).map .write).toList = [] := by
    cases answer (frameByte f 3) <;> rfl
  unfold stage acceptLog
  by_cases hacc : Accepted f
  · by_cases hB : frameByte f 3 = 0x0B
    · rw [if_pos hacc, if_pos hB, if_pos ⟨hacc, hB⟩, copies_append, copies_append, copies_append, hwrite]
      exact congrArg (· ++ _) (List.append_nil _)
    · rw [if_pos hacc, if_neg hB, if_neg (fun h => hB h.2), copies_append, copies_append, copies_append,
        hwrite]
      exact congrArg (· ++ _) (List.append_nil _)
  · rw [if_neg hacc, if_neg (fun h => hacc h.1), copies_append]
    rfl

/-- The payload of a data frame lands behind the image so far. -/
theorem Assembled.append {s : Jpg × List UartEvent} {payload l : List UInt8} (h : Assembled s payload)
    (hfit : (payload ++ l).length ≤ jpgSize) :
    (s.1.pos + UInt32.ofNat l.length).toNat = (payload ++ l).length ∧
      (blit s.1.buf s.1.pos.toNat l).toList.take (payload ++ l).length = payload ++ l := by
  have hlen : (payload ++ l).length = payload.length + l.length := List.length_append
  have hpos := h.pos
  have hsize : jpgSize = 102400 := rfl
  constructor
  · rw [UInt32.toNat_add, UInt32.toNat_ofNat', hpos]
    omega
  · rw [blit_toList (by omega), hpos, h.content, List.take_left']
    rfl

/-- **One frame**: as long as the payload fits, the image stays assembled. -/
theorem assembled_stage {s : Jpg × List UartEvent} {payload f : List UInt8} (h : Assembled s payload)
    (hfit : (gatherFrame payload f).length ≤ jpgSize) : Assembled (stage s f) (gatherFrame payload f) := by
  have hcopies := copies_stage s f
  unfold gatherFrame at hfit ⊢
  by_cases hdata : Accepted f ∧ frameByte f 3 = 0x0B
  · -- a data frame: its copy begins at the position and ends with the payload
    obtain ⟨hacc, hB⟩ := hdata
    have hA : frameByte f 3 ≠ 0x0A := by rw [hB]; decide
    rw [if_pos hacc, if_neg hA, if_pos hB] at hfit ⊢
    obtain ⟨hpos, hcontent⟩ := h.append hfit
    have hjpg : (stage s f).1 = { s.1 with
        pos := s.1.pos + UInt32.ofNat (f.drop 4).length
        buf := blit s.1.buf s.1.pos.toNat (f.drop 4) } := by
      rw [stage, if_pos hacc, Jpg.accept, if_neg hA, if_pos hB]
    refine ⟨by rw [hjpg]; exact hpos, ?_, by rw [hjpg]; exact hcontent⟩
    intro c hc
    rw [hcopies, if_pos ⟨hacc, hB⟩] at hc
    rcases List.mem_append.mp hc with hold | hnew
    · exact h.inside c hold
    · obtain rfl := List.mem_singleton.mp hnew
      rw [List.length_append] at hfit
      show s.1.pos.toNat + (f.drop 4).length ≤ jpgSize
      rw [h.pos]
      exact hfit
  · -- no copy is made
    have hinside : ∀ c ∈ copies (stage s f).2, c.1 + c.2 ≤ jpgSize := by
      rw [hcopies, if_neg hdata, List.append_nil]
      exact h.inside
    unfold stage Jpg.accept at hinside ⊢
    by_cases hacc : Accepted f
    · rw [if_pos hacc] at hinside hfit ⊢
      rw [if_pos hacc]
      have hB : frameByte f 3 ≠ 0x0B := fun hB => hdata ⟨hacc, hB⟩
      by_cases hA : frameByte f 3 = 0x0A
      · rw [if_pos hA] at hinside ⊢
        rw [if_pos hA]
        exact ⟨rfl, hinside, rfl⟩
      · rw [if_neg hA, if_neg hB] at hinside ⊢
        rw [if_neg hA, if_neg hB]
        exact ⟨h.pos, hinside, h.content⟩
    · rw [if_neg hacc] at hinside ⊢
      rw [if_neg hacc]
      exact ⟨h.pos, hinside, h.content⟩

/-! ## Whole runs -/

/-- As long as the payload fits, the image is assembled. -/
theorem assembled_run {polls : List Poll}
    (h : ∀ pre, pre <+: polls → (gather (received (fed pre))).length ≤ jpgSize) :
    Assembled (stageRun (received (fed polls))) (gather (received (fed polls))) := by
  induction polls using List.reverseRecOn with
  | nil =>
      rw [show fed [] = [] from rfl, received, split_nil]
      exact ⟨rfl, by simp [copies], rfl⟩
  | append_singleton polls p ih =>
      have hbefore := ih fun pre hpre => h pre (hpre.trans (List.prefix_append _ _))
      have hfit := h _ (List.prefix_refl _)
      rcases received_fed_snoc polls p with hsame | ⟨f, hmore⟩
      · rw [hsame]
        exact hbefore
      · rw [hmore, gather_snoc] at hfit ⊢
        rw [stageRun_snoc]
        exact assembled_stage hbefore hfit

/-- **When the image is intact.** Over every run: after each call the position is within the buffer, no
    frame was copied out of it, and it begins with exactly the payloads since the last `0x0A` frame, if and
    only if at no time more has been sent since then than the buffer holds. -/
theorem image_intact_iff (polls : List Poll) :
    (∀ pre, pre <+: polls → ∃ t, linuxUartRun Ts.zero pre = some t ∧ Intact t) ↔
      ∀ pre, pre <+: polls → (gather (received (fed pre))).length ≤ jpgSize := by
  constructor
  · -- what is found in the buffer is not longer than the buffer
    intro h pre hpre
    obtain ⟨t, hr, hintact⟩ := h pre hpre
    obtain ⟨u, hu, htracks⟩ := tracks_run pre
    obtain rfl := Option.some.inj (hr.symm.trans hu)
    rw [← htracks.checked, ← hintact.content, List.length_take, Vector.length_toList]
    exact Nat.min_le_right ..
  · intro h pre hpre
    obtain ⟨t, hr, ht⟩ := tracks_run pre
    have hasm := assembled_run fun q hq => h q (hq.trans hpre)
    refine ⟨t, hr, ?_, ?_, ?_⟩
    · rw [ht.jpg, hasm.pos]
      exact h pre hpre
    · rw [ht.copies]
      exact hasm.inside
    · rw [ht.jpg, ht.checked, hasm.pos]
      exact hasm.content

/-- A data frame with the largest payload, 251 bytes. -/
def dataFrame : List UInt8 := [0xFB, 0xAC, 0x0B, 0x0B] ++ List.replicate 251 0

set_option maxRecDepth 10000 in
theorem dataFrame_accepted : Accepted dataFrame ∧ Complete room dataFrame ∧ Kept dataFrame := by decide

theorem gather_dataFrames (n : Nat) : (gather (List.replicate n dataFrame)).length = n * 251 := by
  induction n with
  | zero => rfl
  | succ n ih =>
      have hframe : gatherFrame (gather (List.replicate n dataFrame)) dataFrame =
          gather (List.replicate n dataFrame) ++ dataFrame.drop 4 := by
        rw [gatherFrame, if_pos dataFrame_accepted.1, if_neg (by decide), if_pos (by decide)]
      have hpayload : (dataFrame.drop 4).length = 251 := List.length_replicate
      rw [List.replicate_succ', gather_snoc, hframe, List.length_append, ih, Nat.succ_mul, hpayload]

/-- **408 data frames** without a `0x0A` frame between them: 102408 bytes for a buffer of 102400. -/
theorem image_overruns_buffer :
    ∃ t, linuxUartRun Ts.zero ((List.replicate 408 dataFrame).flatten.map .byte) = some t ∧
      ¬ Intact t := by
  obtain ⟨t, hr, ht⟩ := tracks_run ((List.replicate 408 dataFrame).flatten.map .byte)
  have hframes : checked t.log = List.replicate 408 dataFrame := by
    rw [ht.checked, fed_bytes]
    apply received_flatten
    · intro f hf
      rw [List.eq_of_mem_replicate hf]
      exact dataFrame_accepted.2.1
    · intro f hf
      rw [List.eq_of_mem_replicate hf]
      exact dataFrame_accepted.2.2
  refine ⟨t, hr, ?_⟩
  intro hintact
  have hlen := congrArg List.length hintact.content
  rw [hframes, gather_dataFrames, List.length_take, Vector.length_toList] at hlen
  have hsize : jpgSize = 102400 := rfl
  omega

end DlsSdk
