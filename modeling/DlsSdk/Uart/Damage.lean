import DlsSdk.Uart.Transfer
import Mathlib.Algebra.BigOperators.Group.List.Basic

/-!
# `Uart.Damage` — a byte that has been changed on the line

The checksum is in byte 2 and covers the bytes from 3 on. A frame in which one of these has been changed is dropped
at the checksum stage. Byte 1 is covered by nothing: changing it changes nothing. (Byte 0 is the length of the frame,
and changing it moves all the frames behind it.) `changed_byte` says this of whole runs.
-/

namespace DlsSdk

open Framing

variable {f g : List UInt8} {i : Nat} {b : UInt8}

/-! ## One frame -/

/-- A sum changes with any of its terms. -/
theorem sum_set_ne {l : List UInt8} {j : Nat} (hj : j < l.length) (hb : b ≠ l[j]) : (l.set j b).sum ≠ l.sum := by
  intro heq
  rw [List.sum_set', dif_pos hj, add_eq_left] at heq
  exact hb (neg_add_eq_zero.mp heq).symm

/-- **The checksum notices a changed byte.** -/
theorem accepted_set (hacc : Accepted f) (hi : 2 ≤ i) (hlt : i < f.length) (hb : b ≠ f[i]) :
    ¬ Accepted (f.set i b) := by
  intro hacc'
  unfold Accepted frameByte at hacc hacc'
  by_cases hsum : i = 2
  · -- the checksum itself
    subst hsum
    rw [List.drop_set_of_lt (by decide), hacc, List.getD_eq_getElem _ _ hlt,
      List.getD_eq_getElem _ _ (by rw [List.length_set]; exact hlt), List.getElem_set_self] at hacc'
    exact hb hacc'.symm
  · have hbyte : (f.set i b).getD 2 0 = f.getD 2 0 := by
      rw [List.getD_eq_getElem?_getD, List.getElem?_set_ne hsum, List.getD_eq_getElem?_getD]
    rw [List.drop_set, if_neg (by omega), hbyte, ← hacc] at hacc'
    have hj : i - 3 < (f.drop 3).length := by
      rw [List.length_drop]
      omega
    refine sum_set_ne hj ?_ hacc'
    rw [List.getElem_drop]
    simp only [show 3 + (i - 3) = i by omega]
    exact hb

/-- What a frame does to the image. -/
def effect (jpg : Jpg) (f : List UInt8) : Jpg := if Accepted f then jpg.accept f else jpg

/-- What the receiver reads of two frames that differ in byte 1 alone. -/
structure ReadAlike (f g : List UInt8) : Prop where
  byte : ∀ i, 2 ≤ i → frameByte g i = frameByte f i
  drop3 : g.drop 3 = f.drop 3
  drop4 : g.drop 4 = f.drop 4

theorem readAlike_set (f : List UInt8) (b : UInt8) : ReadAlike f (f.set 1 b) where
  byte i hi := by
    have hne : 1 ≠ i := by omega
    rw [frameByte, frameByte, List.getD_eq_getElem?_getD, List.getElem?_set_ne hne, List.getD_eq_getElem?_getD]
  drop3 := List.drop_set_of_lt (by decide)
  drop4 := List.drop_set_of_lt (by decide)

theorem ReadAlike.accepted (h : ReadAlike f g) : Accepted g ↔ Accepted f := by
  unfold Accepted
  rw [h.drop3, h.byte 2 (by decide)]

theorem ReadAlike.accept (h : ReadAlike f g) (jpg : Jpg) : jpg.accept g = jpg.accept f := by
  unfold Jpg.accept
  simp only [h.drop4, h.byte 3 (by decide), h.byte 53 (by decide), h.byte 54 (by decide), h.byte 55 (by decide),
    h.byte 56 (by decide)]

theorem ReadAlike.reply (h : ReadAlike f g) : DlsSdk.reply g = DlsSdk.reply f := by
  unfold DlsSdk.reply
  simp only [h.accepted, h.byte 3 (by decide)]

theorem ReadAlike.effect (h : ReadAlike f g) (jpg : Jpg) : DlsSdk.effect jpg g = DlsSdk.effect jpg f := by
  unfold DlsSdk.effect
  simp only [h.accepted, h.accept]

/-! ## Runs of frames -/

theorem stage_effect (s : Jpg × List UartEvent) (f : List UInt8) : (stage s f).1 = effect s.1 f := by
  unfold stage effect
  split <;> rfl

theorem stages_effect (s : Jpg × List UartEvent) (frames : List (List UInt8)) :
    (frames.foldl stage s).1 = frames.foldl effect s.1 := by
  induction frames generalizing s with
  | nil => rfl
  | cons f frames ih => rw [List.foldl_cons, ih, stage_effect, List.foldl_cons]

/-- A byte behind the first does not change where a frame ends. -/
theorem whole_set (hf : Complete room f ∧ Kept f) (hi : 1 ≤ i) (b : UInt8) :
    Complete room (f.set i b) ∧ Kept (f.set i b) := by
  obtain ⟨k, rfl⟩ : ∃ k, i = k + 1 := ⟨i - 1, by omega⟩
  refine ⟨?_, ?_⟩
  · cases f with
    | nil => exact hf.1
    | cons L rest =>
        have hlen : rest.length = room L := hf.1
        show (rest.set k b).length = room L
        rw [List.length_set, hlen]
  · show (f.set (k + 1) b).length ≤ 255
    rw [List.length_set]
    exact hf.2

theorem received_whole {frames : List (List UInt8)} (h : ∀ f ∈ frames, Complete room f ∧ Kept f) :
    received frames.flatten = frames :=
  received_flatten (fun f hf => (h f hf).1) fun f hf => (h f hf).2

theorem stageRun_append (before after : List (List UInt8)) :
    (stageRun (before ++ after)).1 = after.foldl effect (stageRun before).1 := by
  rw [stageRun, List.foldl_append, stages_effect]
  rfl

/-- **A changed byte.** Among whole frames there is an accepted one in which a byte behind the first has been changed.
    The receiver behaves as if the frame had not been sent, and if it is byte 1, as if it had not been changed. -/
theorem changed_byte {before after : List (List UInt8)}
    (hwhole : ∀ f ∈ before ++ after, Complete room f ∧ Kept f) (hf : Complete room f ∧ Kept f)
    (hacc : Accepted f) (hi : 1 ≤ i) (hlt : i < f.length) (hb : b ≠ f[i]) {polls polls' : List Poll}
    (hpolls : fed polls = (before ++ f.set i b :: after).flatten)
    (hpolls' : fed polls' = (before ++ if i = 1 then f :: after else after).flatten) :
    ∃ t u, linuxUartRun Ts.zero polls = some t ∧ linuxUartRun Ts.zero polls' = some u ∧
      t.jpg = u.jpg ∧ written t.log = written u.log := by
  obtain ⟨t, ht, htracks⟩ := tracks_run polls
  obtain ⟨u, hu, hutracks⟩ := tracks_run polls'
  refine ⟨t, u, ht, hu, ?_⟩
  have hbefore : ∀ f ∈ before, Complete room f ∧ Kept f := fun f hmem => hwhole f (List.mem_append_left _ hmem)
  have hafter : ∀ f ∈ after, Complete room f ∧ Kept f := fun f hmem => hwhole f (List.mem_append_right _ hmem)
  have hframes : received (fed polls) = before ++ f.set i b :: after := by
    rw [hpolls]
    exact received_whole (List.forall_mem_append.mpr
      ⟨hbefore, List.forall_mem_cons.mpr ⟨whole_set hf hi b, hafter⟩⟩)
  rw [htracks.jpg, hutracks.jpg, htracks.written, hutracks.written, hframes]
  by_cases hone : i = 1
  · subst hone
    have hread := readAlike_set f b
    rw [if_pos rfl] at hpolls'
    rw [hpolls', received_whole (List.forall_mem_append.mpr
      ⟨hbefore, List.forall_mem_cons.mpr ⟨hf, hafter⟩⟩)]
    refine ⟨?_, ?_⟩
    · rw [stageRun_append, stageRun_append, List.foldl_cons, List.foldl_cons, hread.effect]
    · simp only [List.filterMap_append, List.filterMap_cons, hread.reply]
  · have hno := accepted_set hacc (by omega) hlt hb
    have heffect : effect (stageRun before).1 (f.set i b) = (stageRun before).1 := if_neg hno
    have hreply : reply (f.set i b) = none := if_neg hno
    rw [if_neg hone] at hpolls'
    rw [hpolls', received_whole hwhole]
    refine ⟨?_, ?_⟩
    · rw [stageRun_append, stageRun_append, List.foldl_cons, heffect]
    · simp only [List.filterMap_append, List.filterMap_cons, hreply]

/-- A data frame in which a byte of the image has been changed, between a request for the state and another one. -/
theorem changed_byte_data : ∃ t u,
    linuxUartRun Ts.zero (([frameOf 0x04 []] ++ (frameOf 0x0B [0xFF, 0xD8]).set 5 0xD9 ::
      [frameOf 0x0F []]).flatten.map .byte) = some t ∧
    linuxUartRun Ts.zero (([frameOf 0x04 []] ++ [frameOf 0x0F []]).flatten.map .byte) = some u ∧
    t.jpg = u.jpg ∧ written t.log = written u.log :=
  changed_byte (f := frameOf 0x0B [0xFF, 0xD8]) (i := 5) (b := 0xD9) (by decide) (by decide) frameOf_accepted
    (by decide) (by decide) (by decide) (fed_bytes _) (fed_bytes _)

end DlsSdk
