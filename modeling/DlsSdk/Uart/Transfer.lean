import DlsSdk.Uart.Assembly
import Mathlib.Data.Nat.Bitwise

/-!
# `Uart.Transfer` — an image from the first frame to the last

A sender announces an image with its size in a `0x0A` frame and sends it in `0x0B` frames, each with as much of
it as it likes. `image_transfer`: whatever has been sent before, and wherever polls come back empty, the receiver
ends with the image in `jpg_data`, with `pos` at `len`, and has answered every frame.
-/

namespace DlsSdk

open Framing Buffer

/-! ## The frames of a sender -/

/-- A frame with a command and a payload. -/
def frameOf (kind : UInt8) (payload : List UInt8) : List UInt8 :=
  UInt8.ofNat payload.length :: 0xAC :: (kind :: payload).sum :: kind :: payload

def sizeBytes (size : UInt32) : List UInt8 :=
  [(size >>> 24).toUInt8, (size >>> 16).toUInt8, (size >>> 8).toUInt8, size.toUInt8]

/-- The `0x0A` frame: its bytes from 53 on are the size of the image. -/
def announce (header : List UInt8) (size : UInt32) : List UInt8 := frameOf 0x0A (header ++ sizeBytes size)

section Frames
variable {kind : UInt8} {payload : List UInt8}

theorem frameOf_complete (h : payload.length ≤ 251) : Complete room (frameOf kind payload) := by
  show payload.length + 3 = min (follow (UInt8.ofNat payload.length)) 255
  rw [follow, UInt8.toNat_ofNat']
  omega

theorem frameOf_kept (h : payload.length ≤ 251) : Kept (frameOf kind payload) := by
  show payload.length + 4 ≤ 255
  omega

theorem frameOf_accepted : Accepted (frameOf kind payload) := rfl

theorem frameOf_kind : frameByte (frameOf kind payload) 3 = kind := rfl

/-- A reply is not a question of the payload. -/
theorem reply_frameOf : reply (frameOf kind payload) = answer kind := by
  rw [reply, if_pos frameOf_accepted, frameOf_kind]

end Frames

/-! ## The size -/

/-- Bits that do not overlap are added. -/
theorem or_words {a b n : Nat} (hb : b < 2 ^ n) : a * 2 ^ n ||| b = a * 2 ^ n + b := by
  rw [← Nat.shiftLeft_eq, ← Nat.shiftLeft_add_eq_or_of_lt hb]

/-- The size is the sum of its bytes. -/
theorem toNat_fileSize (b3 b2 b1 b0 : UInt8) : (fileSize b3 b2 b1 b0).toNat =
    b3.toNat * 16777216 + b2.toNat * 65536 + b1.toNat * 256 + b0.toNat := by
  have h3 := b3.toNat_lt
  have h2 := b2.toNat_lt
  have h1 := b1.toNat_lt
  have h0 := b0.toNat_lt
  have e1 : b3.toNat * 2 ^ 24 ||| b2.toNat * 2 ^ 16 = (b3.toNat * 2 ^ 8 + b2.toNat) * 2 ^ 16 := by
    rw [or_words (by omega)]
    omega
  have e2 : (b3.toNat * 2 ^ 8 + b2.toNat) * 2 ^ 16 ||| b1.toNat * 2 ^ 8 =
      ((b3.toNat * 2 ^ 8 + b2.toNat) * 2 ^ 8 + b1.toNat) * 2 ^ 8 := by
    rw [or_words (by omega)]
    omega
  have hword : (fileSize b3 b2 b1 b0).toNat =
      b3.toNat * 2 ^ 24 ||| b2.toNat * 2 ^ 16 ||| b1.toNat * 2 ^ 8 ||| b0.toNat := by
    -- no byte is shifted out of the word
    have w3 : b3.toNat * 2 ^ 24 % 2 ^ 32 = b3.toNat * 2 ^ 24 := Nat.mod_eq_of_lt (by omega)
    have w2 : b2.toNat * 2 ^ 16 % 2 ^ 32 = b2.toNat * 2 ^ 16 := Nat.mod_eq_of_lt (by omega)
    have w1 : b1.toNat * 2 ^ 8 % 2 ^ 32 = b1.toNat * 2 ^ 8 := Nat.mod_eq_of_lt (by omega)
    simp only [fileSize, UInt32.toNat_or, UInt32.toNat_shiftLeft, UInt8.toNat_toUInt32, Nat.shiftLeft_eq,
      UInt32.reduceToNat, Nat.reduceMod]
    rw [w3, w2, w1]
  rw [hword, e1, e2, or_words (by omega)]
  omega

/-- **A size is read as it was written.** -/
theorem fileSize_bytes (size : UInt32) : fileSize (size >>> 24).toUInt8 (size >>> 16).toUInt8
    (size >>> 8).toUInt8 size.toUInt8 = size := by
  have hsize := size.toNat_lt
  apply UInt32.toNat_inj.mp
  rw [toNat_fileSize]
  simp only [UInt32.toNat_toUInt8, UInt32.toNat_shiftRight, Nat.shiftRight_eq_div_pow, UInt32.reduceToNat,
    Nat.reduceMod, Nat.reducePow]
  omega

theorem announce_size {header : List UInt8} (hheader : header.length = 49) (size : UInt32) :
    fileSize (frameByte (announce header size) 53) (frameByte (announce header size) 54)
      (frameByte (announce header size) 55) (frameByte (announce header size) 56) = size := by
  have hbyte : ∀ i, frameByte (announce header size) (53 + i) = (sizeBytes size).getD i 0 := by
    intro i
    have hpayload : frameByte (announce header size) (53 + i) = (header ++ sizeBytes size).getD (49 + i) 0 := by
      rw [show 53 + i = 49 + i + 4 by omega]
      rfl
    rw [hpayload, List.getD_append_right _ _ _ _ (by omega)]
    congr 1
    omega
  rw [hbyte 0, hbyte 1, hbyte 2, hbyte 3]
  exact fileSize_bytes size

/-! ## The effect of the frames -/

section Effect
variable {s : Jpg × List UartEvent} {payload : List UInt8}

/-- The announcement starts over. -/
theorem stage_announce (h : Assembled s payload) {header : List UInt8} (hheader : header.length = 49)
    (size : UInt32) : Assembled (stage s (announce header size)) [] ∧
      (stage s (announce header size)).1.len = size := by
  have hacc : Accepted (announce header size) := frameOf_accepted
  have hkind : frameByte (announce header size) 3 = 0x0A := frameOf_kind
  have hgather : gatherFrame payload (announce header size) = [] := by
    rw [gatherFrame, if_pos hacc, if_pos hkind]
  have hstage := assembled_stage (f := announce header size) h (by rw [hgather]; exact Nat.zero_le _)
  rw [hgather] at hstage
  refine ⟨hstage, ?_⟩
  rw [stage, if_pos hacc, Jpg.accept, if_pos hkind]
  exact announce_size hheader size

/-- A chunk is put behind what is there. -/
theorem stage_chunk (h : Assembled s payload) {chunk : List UInt8}
    (hfit : (payload ++ chunk).length ≤ jpgSize) :
    Assembled (stage s (frameOf 0x0B chunk)) (payload ++ chunk) ∧
      (stage s (frameOf 0x0B chunk)).1.len = s.1.len := by
  have hkind : frameByte (frameOf 0x0B chunk) 3 = 0x0B := frameOf_kind
  have hbegin : frameByte (frameOf 0x0B chunk) 3 ≠ 0x0A := by
    rw [hkind]
    decide
  have hgather : gatherFrame payload (frameOf 0x0B chunk) = payload ++ chunk := by
    rw [gatherFrame, if_pos frameOf_accepted, if_neg hbegin, if_pos hkind]
    rfl
  have hstage := assembled_stage (f := frameOf 0x0B chunk) h (by rw [hgather]; exact hfit)
  rw [hgather] at hstage
  refine ⟨hstage, ?_⟩
  rw [stage, if_pos frameOf_accepted, Jpg.accept, if_neg hbegin, if_pos hkind]

theorem stage_chunks (chunks : List (List UInt8)) (h : Assembled s payload)
    (hfit : (payload ++ chunks.flatten).length ≤ jpgSize) :
    Assembled ((chunks.map (frameOf 0x0B)).foldl stage s) (payload ++ chunks.flatten) ∧
      ((chunks.map (frameOf 0x0B)).foldl stage s).1.len = s.1.len := by
  induction chunks generalizing s payload with
  | nil =>
      rw [List.flatten_nil, List.append_nil]
      exact ⟨h, rfl⟩
  | cons chunk chunks ih =>
      rw [List.flatten_cons, ← List.append_assoc] at hfit ⊢
      have hchunk : (payload ++ chunk).length ≤ jpgSize := by
        rw [List.length_append] at hfit
        omega
      obtain ⟨hstage, hlen⟩ := stage_chunk h hchunk
      obtain ⟨hall, hlen'⟩ := ih hstage hfit
      exact ⟨hall, hlen'.trans hlen⟩

/-- Frames whose payload fits leave the image assembled. -/
theorem assembled_frames {frames : List (List UInt8)}
    (h : ∀ pre, pre <+: frames → (gather pre).length ≤ jpgSize) :
    Assembled (stageRun frames) (gather frames) := by
  induction frames using List.reverseRecOn with
  | nil => exact ⟨rfl, by simp [copies], rfl⟩
  | append_singleton frames f ih =>
      have hbefore := ih fun pre hpre => h pre (hpre.trans (List.prefix_append _ _))
      have hfit := h _ (List.prefix_refl _)
      rw [gather_snoc] at hfit ⊢
      rw [stageRun_snoc]
      exact assembled_stage hbefore hfit

end Effect

/-! ## The transfer -/

theorem reply_chunks (chunks : List (List UInt8)) :
    ((chunks.map (frameOf 0x0B)).filterMap reply).flatten = (List.replicate chunks.length replyData).flatten := by
  induction chunks with
  | nil => rfl
  | cons chunk chunks ih =>
      have hreply : reply (frameOf 0x0B chunk) = some replyData := reply_frameOf
      rw [List.map_cons, List.filterMap_cons, hreply, List.length_cons, List.replicate_succ]
      dsimp only
      rw [List.flatten_cons, List.flatten_cons, ih]

/-- **A transfer.** Whatever whole frames have been received before, as long as the buffer could hold them: an image
    that is announced with its size and then sent in chunks, with polls that come back empty anywhere, is in the
    buffer, `pos` has reached `len`, and the announcement and every chunk have been answered in turn. -/
theorem image_transfer {old : List (List UInt8)} (hold : ∀ f ∈ old, Complete room f ∧ Kept f)
    (hfits : ∀ pre, pre <+: old → (gather pre).length ≤ jpgSize) {header : List UInt8}
    (hheader : header.length = 49) {chunks : List (List UInt8)} (hchunks : ∀ chunk ∈ chunks, chunk.length ≤ 251)
    (himage : chunks.flatten.length ≤ jpgSize) {polls : List Poll}
    (hpolls : fed polls = (old ++ announce header (.ofNat chunks.flatten.length) ::
      chunks.map (frameOf 0x0B)).flatten) :
    ∃ t, linuxUartRun Ts.zero polls = some t ∧ t.jpg.pos = t.jpg.len ∧
      t.jpg.len.toNat = chunks.flatten.length ∧
      t.jpg.buf.toList.take t.jpg.len.toNat = chunks.flatten ∧
      written t.log = (old.filterMap reply).flatten ++ replyBegin ++
        (List.replicate chunks.length replyData).flatten := by
  obtain ⟨t, hrun, ht⟩ := tracks_run polls
  have hframes : received (fed polls) = old ++ announce header (.ofNat chunks.flatten.length) ::
      chunks.map (frameOf 0x0B) := by
    have hsent : ∀ f ∈ announce header (.ofNat chunks.flatten.length) :: chunks.map (frameOf 0x0B),
        Complete room f ∧ Kept f := by
      intro f hf
      obtain rfl | hf := List.mem_cons.mp hf
      · have hpayload : (header ++ sizeBytes (.ofNat chunks.flatten.length)).length ≤ 251 := by
          rw [List.length_append, hheader]
          exact Nat.le_of_ble_eq_true rfl
        exact ⟨frameOf_complete hpayload, frameOf_kept hpayload⟩
      · obtain ⟨chunk, hmem, rfl⟩ := List.mem_map.mp hf
        exact ⟨frameOf_complete (hchunks chunk hmem), frameOf_kept (hchunks chunk hmem)⟩
    have hwhole := List.forall_mem_append.mpr ⟨hold, hsent⟩
    rw [hpolls, received_flatten (fun f hf => (hwhole f hf).1) fun f hf => (hwhole f hf).2]
  obtain ⟨hbegin, hsize⟩ := stage_announce (assembled_frames hfits) hheader (.ofNat chunks.flatten.length)
  obtain ⟨hall, hlen⟩ := stage_chunks chunks hbegin himage
  rw [List.nil_append] at hall
  have hjpg : t.jpg = ((chunks.map (frameOf 0x0B)).foldl stage
      (stage (stageRun old) (announce header (.ofNat chunks.flatten.length)))).1 := by
    rw [ht.jpg, hframes, stageRun, List.foldl_append, List.foldl_cons]
    rfl
  have hlength : t.jpg.len.toNat = chunks.flatten.length := by
    have hroom : jpgSize = 102400 := rfl
    rw [hjpg, hlen, hsize, UInt32.toNat_ofNat']
    omega
  refine ⟨t, hrun, ?_, hlength, ?_, ?_⟩
  · apply UInt32.toNat_inj.mp
    rw [hlength, hjpg, hall.pos]
  · rw [hlength, hjpg]
    exact hall.content
  · have hannounce : reply (announce header (.ofNat chunks.flatten.length)) = some replyBegin := reply_frameOf
    rw [ht.written, hframes, List.filterMap_append, List.filterMap_cons, hannounce, List.flatten_append]
    dsimp only
    rw [List.flatten_cons, reply_chunks, List.append_assoc]

/-- A request for the state, and then four bytes in two chunks; the first poll comes back empty. -/
theorem image_transfer_chunks : ∃ t, linuxUartRun Ts.zero (.notReady :: (([frameOf 0x04 []] ++
      announce (List.replicate 49 0) (.ofNat [[0xFF, 0xD8], [0xFF, 0xD9]].flatten.length) ::
        [[0xFF, 0xD8], [0xFF, 0xD9]].map (frameOf 0x0B)).flatten.map .byte)) = some t ∧
    t.jpg.pos = t.jpg.len ∧ t.jpg.len.toNat = [[0xFF, 0xD8], [0xFF, 0xD9]].flatten.length ∧
    t.jpg.buf.toList.take t.jpg.len.toNat = [[0xFF, 0xD8], [0xFF, 0xD9]].flatten ∧
    written t.log = ([frameOf 0x04 []].filterMap reply).flatten ++ replyBegin ++
      (List.replicate [[0xFF, 0xD8], [0xFF, 0xD9]].length replyData).flatten := by
  have hpolls : ∀ stream : List UInt8, fed (.notReady :: stream.map .byte) = stream := fed_bytes
  have hchunks : ∀ chunk ∈ ([[0xFF, 0xD8], [0xFF, 0xD9]] : List (List UInt8)), chunk.length ≤ 251 := by decide
  have hold : ∀ f ∈ [frameOf 0x04 []], Complete room f ∧ Kept f := by decide
  refine image_transfer hold (fun pre hpre => ?_) List.length_replicate hchunks (Nat.le_of_ble_eq_true rfl)
    (hpolls _)
  obtain rfl | hpre := List.prefix_concat_iff.mp (show pre <+: [] ++ [frameOf 0x04 []] from hpre)
  · decide
  · rw [List.prefix_nil.mp hpre]
    exact Nat.zero_le _

end DlsSdk
