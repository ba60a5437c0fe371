import DlsSdk.Uart.Stream

/-!
# `Uart.Refinement` — one byte per call is as good as one frame at a time

On a stream whose frames all fit into `pack_data` the machine's own cutting into frames is the reference
splitting (`Short.split_eq`), no frame is dropped (`Short.received_eq`), and as long as the image payload
stays in its buffer, memory and arithmetic do what the protocol says (`stageRun_protocol`). So the machine
follows the reference splitting of what was delivered (`Follows`).
-/

namespace DlsSdk

open Framing

/-- The protocol's run over a list of frames. -/
def protocolRun (frames : List (List UInt8)) : Image × List UInt8 :=
  frames.foldl handleFrame (Image.zero, [])

/-- The machine has followed the reference splitting of the stream delivered so far. -/
structure Follows (t : Ts) (stream : List UInt8) : Prop where
  between : Between t.pack (split follow stream).2
  frames : checked t.log = (split follow stream).1
  effect : FitsAll (Image.zero, []) (split follow stream).1 →
    (t.jpg.image, written t.log) = protocolRun (split follow stream).1

/-- **Payloads that fit**: the frames' effect is the protocol's. -/
theorem stageRun_protocol {frames : List (List UInt8)} (h : FitsAll (Image.zero, []) frames) :
    ((stageRun frames).1.image, written (stageRun frames).2) = protocolRun frames := by
  induction frames using List.reverseRecOn with
  | nil =>
      simp only [stageRun_nil, Ts.zero, Jpg.image, Vector.toList_replicate]
      rfl
  | append_singleton frames f ih =>
      obtain ⟨hbefore, hfit⟩ := fitsAll_snoc.mp h
      have heff := ih hbefore
      have himg : (protocolRun frames).1 = (stageRun frames).1.image := by rw [← heff]
      rw [stageRun_snoc, stage_handleFrame (himg ▸ hfit), heff, protocolRun, protocolRun,
        List.foldl_append]
      rfl

/-- Short frames fit into the buffer. -/
theorem room_eq {L : UInt8} (h : L.toNat ≤ 251) : room L = follow L := by
  unfold room follow
  omega

theorem Short.split_eq {stream : List UInt8} (h : Short stream) :
    split room stream = split follow stream :=
  split_congr stream fun f hf L hL => room_eq (h f hf L hL)

theorem Short.received_eq {stream : List UInt8} (h : Short stream) :
    received stream = (split follow stream).1 := by
  rw [received, h.split_eq, List.filter_eq_self]
  intro f hf
  have hc := split_complete stream f hf
  cases f with
  | nil => exact hc.elim
  | cons L rest =>
      have hL : L.toNat ≤ 251 := h _ (List.mem_append_left _ hf) L rfl
      have hlen : rest.length = L.toNat + 3 := hc
      apply decide_eq_true
      show (L :: rest).length ≤ 255
      rw [List.length_cons]
      omega

/-- **Short streams**: the machine follows the reference splitting. -/
theorem Tracks.follows {t : Ts} {stream : List UInt8} (h : Tracks t stream) (hshort : Short stream) :
    Follows t stream := by
  have hrecv := hshort.received_eq
  constructor
  · rw [← hshort.split_eq]
    exact h.between
  · rw [h.checked, hrecv]
  · intro hfits
    rw [← stageRun_protocol hfits, ← hrecv, ← h.effect, written_handled]

theorem follows_run (polls : List Poll) (heof : Poll.eof ∉ polls) (hshort : Short (delivered polls)) :
    ∃ t, linuxUartRun Ts.zero polls = some t ∧ Follows t (delivered polls) := by
  obtain ⟨t, hr, ht⟩ := tracks_run polls
  rw [fed_eq_delivered heof] at ht
  exact ⟨t, hr, ht.follows hshort⟩

/-- **The byte-at-a-time machine refines whole-frame processing.** For every sequence of polls without
    end-of-file whose frames have length bytes of at most 251, every call returns and leaves `work` at 0 or
    1; the frames at the checksum stage are the complete frames of the stream, in order; and as long as
    the image payload stays within the buffer, the image and everything written are those of the
    protocol. -/
theorem uart_refines_frames (polls : List Poll) (heof : Poll.eof ∉ polls)
    (hshort : Short (delivered polls)) :
    ∃ t, linuxUartRun Ts.zero polls = some t ∧
      checked t.log = (split follow (delivered polls)).1 ∧
      (split follow (delivered polls)).1.flatten ++ (split follow (delivered polls)).2 =
        delivered polls ∧
      (FitsAll (Image.zero, []) (split follow (delivered polls)).1 →
        (t.jpg.image, written t.log) = protocolRun (split follow (delivered polls)).1) ∧
      ∀ pre, pre <+: polls → ∃ u, linuxUartRun Ts.zero pre = some u ∧
        (u.pack.work = 0 ∨ u.pack.work = 1) := by
  obtain ⟨t, hr, hf⟩ := follows_run polls heof hshort
  refine ⟨t, hr, hf.frames, split_flatten _, hf.effect, ?_⟩
  -- after every single call: the calls so far are a run of their own
  intro pre _
  obtain ⟨u, hu, hfu⟩ := tracks_run pre
  exact ⟨u, hu, hfu.between.work⟩

/-- A parameter request (`0x0F`) among idle polls, and the first byte of the next frame. -/
def paramPolls : List Poll :=
  [.notReady, .byte 0x01, .readFail, .byte 0xAC, .byte 0x0F, .selectFail, .byte 0x0F, .byte 0x00,
    .byte 0x02]

/-- It is the only frame, and it is answered. -/
theorem uart_refines_frames_param : ∃ t, linuxUartRun Ts.zero paramPolls = some t ∧
    checked t.log = [[0x01, 0xAC, 0x0F, 0x0F, 0x00]] ∧ written t.log = replyParam := by
  have hsplit : split follow (delivered paramPolls) = ([[0x01, 0xAC, 0x0F, 0x0F, 0x00]], [0x02]) := by
    have hstream : delivered paramPolls = [0x01, 0xAC, 0x0F, 0x0F, 0x00, 0x02] := rfl
    rw [hstream, split_cons_of_le (by decide)]
    show ([_, _, _, _, _] :: (split follow [0x02]).1, (split follow [0x02]).2) = _
    rw [split_cons_of_lt (by decide)]
  have hshort : Short (delivered paramPolls) := by
    intro f hf L hL
    rw [hsplit] at hf
    rcases List.mem_append.mp hf with h | h <;> rw [List.mem_singleton.mp h] at hL <;>
      obtain rfl := Option.some.inj hL <;> decide
  obtain ⟨t, hr, hframes, _, heff, _⟩ := uart_refines_frames paramPolls (by decide) hshort
  rw [hsplit] at hframes heff
  have hfits : FitsAll (Image.zero, []) [[0x01, 0xAC, 0x0F, 0x0F, 0x00]] := by decide
  exact ⟨t, hr, hframes, congrArg Prod.snd (heff hfits)⟩

end DlsSdk
