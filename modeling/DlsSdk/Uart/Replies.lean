import DlsSdk.Uart.Stream

/-!
# `Uart.Replies` — what `linux_uart_loop` writes to the port

The replies are string literals, written with `sizeof`: each one is a well-formed frame of the protocol and
the NUL that ends the literal (`answer_eq`). The NUL is not part of the frame. A peer that assembles frames
as this machine does takes it for the length byte of the next one, so the output is a sequence of frames
only as long as nothing has been answered (`speaks_iff`).
-/

namespace DlsSdk

open Framing

/-- A frame as the machine accepts it: first byte `L`, `L + 4` bytes, and the sum of byte 2. -/
def WellFormed (f : List UInt8) : Prop := Complete follow f ∧ Accepted f

instance instDecidableWellFormed (f : List UInt8) : Decidable (WellFormed f) :=
  inferInstanceAs (Decidable (_ ∧ _))

/-- An accepted frame with command `0x0A`, `0x0B`, `0x04` or `0x0F`. -/
def Asks (f : List UInt8) : Prop := Accepted f ∧ frameByte f 3 ∈ [0x0A, 0x0B, 0x04, 0x0F]

instance instDecidableAsks (f : List UInt8) : Decidable (Asks f) := inferInstanceAs (Decidable (_ ∧ _))

/-- The frames that ask for a reply. -/
def asked (frames : List (List UInt8)) : List (List UInt8) := frames.filter (Asks ·)

/-- **The output speaks the protocol**: it is a sequence of well-formed frames, one for each frame that asks
    for a reply and with its command, and the frame assembler finds them again and ends between two
    frames. -/
def Speaks (frames : List (List UInt8)) (out : List UInt8) : Prop :=
  ∃ replies, out = replies.flatten ∧ (∀ r ∈ replies, WellFormed r) ∧
    List.Forall₂ (fun f r => frameByte r 3 = frameByte f 3) (asked frames) replies ∧
    ∃ u, linuxUartRun Ts.zero (out.map .byte) = some u ∧ checked u.log = replies ∧ u.pack.work = 0

/-! ## The encoders -/

/-- **A reply is a frame and a NUL**: the body is well formed and repeats the command. Its byte 1 is not its
    checksum. -/
theorem answer_eq {kind : UInt8} {r : List UInt8} (h : answer kind = some r) :
    ∃ body, r = body ++ [0] ∧ WellFormed body ∧ frameByte body 3 = kind ∧
      frameByte body 1 ≠ frameByte body 2 := by
  unfold answer at h
  by_cases hA : kind = 0x0A
  · rw [if_pos hA] at h
    subst hA
    obtain rfl := Option.some.inj h
    exact ⟨_, rfl, by decide⟩
  by_cases hB : kind = 0x0B
  · rw [if_neg hA, if_pos hB] at h
    subst hB
    obtain rfl := Option.some.inj h
    exact ⟨_, rfl, by decide⟩
  by_cases h4 : kind = 0x04
  · rw [if_neg hA, if_neg hB, if_pos h4] at h
    subst h4
    obtain rfl := Option.some.inj h
    exact ⟨_, rfl, by decide⟩
  by_cases hF : kind = 0x0F
  · rw [if_neg hA, if_neg hB, if_neg h4, if_pos hF] at h
    subst hF
    obtain rfl := Option.some.inj h
    exact ⟨_, rfl, by decide⟩
  · rw [if_neg hA, if_neg hB, if_neg h4, if_neg hF] at h
    exact absurd h (by simp)

/-- Exactly the frames that ask for a reply get one. -/
theorem reply_isSome (f : List UInt8) : (reply f).isSome ↔ Asks f := by
  unfold reply answer Asks
  by_cases hacc : Accepted f
  · rw [if_pos hacc]
    simp only [hacc, true_and, List.mem_cons, List.not_mem_nil, or_false]
    by_cases hA : frameByte f 3 = 0x0A
    · simp [hA]
    by_cases hB : frameByte f 3 = 0x0B
    · simp [hB]
    by_cases h4 : frameByte f 3 = 0x04
    · simp [h4]
    by_cases hF : frameByte f 3 = 0x0F
    · simp [hF]
    · simp [hA, hB, h4, hF]
  · rw [if_neg hacc]
    simp [hacc]

theorem filterMap_asked (frames : List (List UInt8)) :
    (asked frames).filterMap reply = frames.filterMap reply := by
  rw [asked, List.filterMap_filter]
  apply List.filterMap_congr
  intro f _
  by_cases hf : Asks f
  · rw [if_pos (decide_eq_true hf)]
  · rw [if_neg (by rw [decide_eq_true_iff]; exact hf)]
    exact (Option.not_isSome_iff_eq_none.mp fun h => hf ((reply_isSome f).mp h)).symm

/-- A frame that asks for a reply gets a body and a NUL. -/
theorem Asks.reply {f : List UInt8} (hf : Asks f) :
    ∃ body, reply f = some (body ++ [0]) ∧ WellFormed body ∧ frameByte body 1 ≠ frameByte body 2 := by
  obtain ⟨r, hr⟩ := Option.isSome_iff_exists.mp ((reply_isSome f).mpr hf)
  have hans : answer (frameByte f 3) = some r := by
    rw [DlsSdk.reply, if_pos hf.1] at hr
    exact hr
  obtain ⟨body, rfl, hwf, -, hne⟩ := answer_eq hans
  exact ⟨body, hr, hwf, hne⟩

/-! ## The output -/

/-- After a NUL the next reply is not found: the frame with length byte 0 that begins there is refused. -/
theorem not_wellFormed_nul {r s body s' : List UInt8} (hr : WellFormed r) (hbody : WellFormed body)
    (hne : frameByte body 1 ≠ frameByte body 2) (h : r ++ s = 0 :: (body ++ s')) : False := by
  obtain ⟨hc, hacc⟩ := hr
  have hlong := complete_length hbody.1
  obtain ⟨b0, b1, b2, tail, rfl⟩ : ∃ b0 b1 b2 tail, body = b0 :: b1 :: b2 :: tail := by
    match body, hlong with
    | b0 :: b1 :: b2 :: tail, _ => exact ⟨b0, b1, b2, tail, rfl⟩
  have hnul : Complete follow [0, b0, b1, b2] := rfl
  obtain ⟨rfl, -⟩ := hc.prefix_free hnul h
  apply hne
  have hsum : ([b2] : List UInt8).sum = b1 := hacc
  show b1 = b2
  rw [← hsum, List.sum_singleton]

/-- **The output speaks the protocol exactly when there is none.** -/
theorem speaks_iff (frames : List (List UInt8)) :
    Speaks frames (frames.filterMap reply).flatten ↔ asked frames = [] := by
  have hask : ∀ f ∈ asked frames, Asks f := fun f hf => of_decide_eq_true (List.mem_filter.mp hf).2
  rw [← filterMap_asked]
  constructor
  · rintro ⟨replies, hout, hwf, hkinds, -⟩
    cases hfs : asked frames with
    | nil => rfl
    | cons f fs =>
        exfalso
        rw [hfs] at hask hout hkinds
        obtain ⟨body, hbody, hbodywf, -⟩ := (hask f List.mem_cons_self).reply
        obtain ⟨r, rs, -, hrest, rfl⟩ := List.forall₂_cons_left_iff.mp hkinds
        rw [List.filterMap_cons_some hbody, List.flatten_cons, List.flatten_cons, List.append_assoc] at hout
        -- the first reply is found, and its NUL is left over
        obtain ⟨rfl, hrs⟩ := (hwf r List.mem_cons_self).1.prefix_free hbodywf.1 hout.symm
        cases fs with
        | nil =>
            obtain rfl := List.forall₂_nil_left_iff.mp hrest
            exact absurd hrs (by simp)
        | cons g gs =>
            obtain ⟨body', hbody', hwf', hne⟩ :=
              (hask g (List.mem_cons_of_mem _ List.mem_cons_self)).reply
            obtain ⟨r', rs', -, -, rfl⟩ := List.forall₂_cons_left_iff.mp hrest
            rw [List.filterMap_cons_some hbody', List.flatten_cons, List.flatten_cons, List.append_assoc]
              at hrs
            exact not_wellFormed_nul (hwf r' (List.mem_cons_of_mem _ List.mem_cons_self)) hwf' hne hrs
  · intro hnone
    rw [hnone]
    exact ⟨[], rfl, by simp, by rw [hnone]; exact .nil, Ts.zero, rfl, rfl, rfl⟩

/-- **When the replies speak the protocol.** Over every run, what was written is a sequence of frames for
    the peer if and only if no frame that asks for a reply was received. -/
theorem replies_speak_protocol_iff (polls : List Poll) :
    (∃ t, linuxUartRun Ts.zero polls = some t ∧ Speaks (checked t.log) (written t.log)) ↔
      asked (received (fed polls)) = [] := by
  obtain ⟨t, hr, ht⟩ := tracks_run polls
  rw [← speaks_iff, ← ht.written, ← ht.checked]
  constructor
  · rintro ⟨u, hu, hspeaks⟩
    obtain rfl := Option.some.inj (hr.symm.trans hu)
    exact hspeaks
  · intro hspeaks
    exact ⟨t, hr, hspeaks⟩

/-- A state request. -/
def stateFrame : List UInt8 := [0x00, 0xAC, 0x04, 0x04]

/-- **Two state requests**, one behind the other: both are answered, and the peer loses synchronisation. -/
theorem replies_lose_sync :
    ∃ t, linuxUartRun Ts.zero ((stateFrame ++ stateFrame).map .byte) = some t ∧
      written t.log = replyState ++ replyState ∧ ¬ Speaks (checked t.log) (written t.log) := by
  obtain ⟨t, hr, ht⟩ := tracks_run ((stateFrame ++ stateFrame).map .byte)
  have hframes : received (fed ((stateFrame ++ stateFrame).map .byte)) = [stateFrame, stateFrame] := by
    have hstream : stateFrame ++ stateFrame = [stateFrame, stateFrame].flatten := rfl
    rw [fed_bytes, hstream]
    exact received_flatten (by decide) (by decide)
  have hwritten : written t.log = replyState ++ replyState := by
    rw [ht.written, hframes]
    rfl
  refine ⟨t, hr, hwritten, ?_⟩
  rw [ht.written, ht.checked, speaks_iff, hframes]
  decide

end DlsSdk
