import DlsSdk.Uart.Stream
import Mathlib.Data.List.Flatten

/-!
# `Uart.Polls` — polls that deliver no byte

A poll comes back empty in four ways: the port is not ready, `select` fails, `read` fails, or `read` returns
0 because the line was hung up. The first three put nothing into the buffer (`fed_inserted`), so a run with
them shows the same as the run without (`unseen_of_fed`). The last one is taken for a byte: the code
compares with -1 only, and stores the initial 0 of `tmp`.
-/

namespace DlsSdk

open Framing

/-- The poll delivers no byte. -/
def Poll.NoByte (p : Poll) : Prop := delivered [p] = []

instance instDecidableNoByte (p : Poll) : Decidable p.NoByte := inferInstanceAs (Decidable (_ = _))

/-- `full` is `base` with the polls `ps` inserted, in this order and anywhere. -/
inductive Inserts : List Poll → List Poll → List Poll → Prop where
  | nil : Inserts [] [] []
  | keep {ps base full : List Poll} (p : Poll) : Inserts ps base full → Inserts ps (p :: base) (p :: full)
  | insert {ps base full : List Poll} (p : Poll) : Inserts ps base full → Inserts (p :: ps) base (p :: full)

/-- **The two runs show the same**: the frames at the checksum stage, the image, and the bytes written. -/
def Unseen (base full : List Poll) : Prop :=
  ∃ t u, linuxUartRun Ts.zero base = some t ∧ linuxUartRun Ts.zero full = some u ∧
    checked u.log = checked t.log ∧ u.jpg = t.jpg ∧ written u.log = written t.log

/-- **The frames are made of bytes that were read**, each of them once and in order. -/
def Genuine (polls : List Poll) : Prop :=
  ∃ t, linuxUartRun Ts.zero polls = some t ∧ List.Sublist (checked t.log).flatten (delivered polls)

theorem Inserts.mem {ps base full : List Poll} (h : Inserts ps base full) {p : Poll} (hp : p ∈ full) :
    p ∈ ps ∨ p ∈ base := by
  induction h with
  | nil => exact .inl hp
  | keep q _ ih =>
      rcases List.mem_cons.mp hp with rfl | hmem
      · exact .inr List.mem_cons_self
      · rcases ih hmem with h | h
        · exact .inl h
        · exact .inr (List.mem_cons_of_mem _ h)
  | insert q _ ih =>
      rcases List.mem_cons.mp hp with rfl | hmem
      · exact .inl List.mem_cons_self
      · rcases ih hmem with h | h
        · exact .inl (List.mem_cons_of_mem _ h)
        · exact .inr h

/-- Polls may be inserted at the end. -/
theorem inserts_append (base ps : List Poll) : Inserts ps base (base ++ ps) := by
  induction base with
  | nil =>
      induction ps with
      | nil => exact .nil
      | cons p ps ih => exact .insert p ih
  | cons p base ih => exact .keep p ih

theorem Poll.NoByte.cases {p : Poll} (h : p.NoByte) : p = .eof ∨ fed [p] = [] := by
  cases p with
  | notReady | selectFail | readFail => exact .inr rfl
  | eof => exact .inl rfl
  | byte b => exact absurd h (by simp [Poll.NoByte, delivered])

/-- Empty polls, hang-ups apart, leave the stream as it is. -/
theorem fed_inserted {ps base full : List Poll} (h : Inserts ps base full)
    (hempty : ∀ p ∈ ps, fed [p] = []) : fed full = fed base := by
  induction h with
  | nil => rfl
  | @keep ps base full p _ ih =>
      rw [show p :: full = [p] ++ full from rfl, show p :: base = [p] ++ base from rfl, fed_append,
        fed_append, ih hempty]
  | @insert ps base full p _ ih =>
      rw [show p :: full = [p] ++ full from rfl, fed_append, hempty p List.mem_cons_self, List.nil_append]
      exact ih fun q hq => hempty q (List.mem_cons_of_mem _ hq)

/-- Runs with the same stream show the same. -/
theorem unseen_of_fed {base full : List Poll} (h : fed full = fed base) : Unseen base full := by
  obtain ⟨t, ht, htr⟩ := tracks_run base
  obtain ⟨u, hu, hur⟩ := tracks_run full
  refine ⟨t, u, ht, hu, ?_, ?_, ?_⟩
  · rw [htr.checked, hur.checked, h]
  · rw [htr.jpg, hur.jpg, h]
  · rw [htr.written, hur.written, h]

/-- What reaches the checksum stage is part of the stream. -/
theorem received_sublist (stream : List UInt8) : List.Sublist (received stream).flatten stream := by
  have hframes : List.Sublist (received stream).flatten (split room stream).1.flatten :=
    List.Sublist.flatten List.filter_sublist
  have hstream : List.Sublist (split room stream).1.flatten stream := by
    have hsplit : (split room stream).1.flatten ++ (split room stream).2 = stream := split_flatten stream
    have hprefix := List.sublist_append_left (split room stream).1.flatten (split room stream).2
    rw [hsplit] at hprefix
    exact hprefix
  exact hframes.trans hstream

theorem genuine_of_no_eof {polls : List Poll} (h : Poll.eof ∉ polls) : Genuine polls := by
  obtain ⟨t, ht, htr⟩ := tracks_run polls
  refine ⟨t, ht, ?_⟩
  rw [htr.checked, ← fed_eq_delivered h]
  exact received_sublist _

/-- The first hang-up of an empty line is a byte. -/
theorem fed_hang_up {ps : List Poll} (hps : ∀ p ∈ ps, p.NoByte) (h : Poll.eof ∈ ps) :
    ∃ rest, fed ps = 0 :: rest := by
  obtain ⟨before, after, rfl, hfirst⟩ := List.eq_append_cons_of_mem h
  have hnone : fed before = [] := by
    apply List.filterMap_eq_nil_iff.mpr
    intro p hp
    have hno := hps p (List.mem_append_left _ hp)
    cases p with
    | notReady | selectFail | readFail => rfl
    | eof => exact absurd hp hfirst
    | byte b => exact absurd hno (by simp [Poll.NoByte, delivered])
  refine ⟨fed after, ?_⟩
  rw [fed_append, hnone, List.nil_append]
  rfl

/-- Three zero bytes are not a frame yet. -/
def zeroPolls : List Poll := [.byte 0, .byte 0, .byte 0]

/-- **When polls that deliver no byte are invisible.** For polls `ps` that deliver no byte: however they are
    inserted into whatever run, nothing changes, and the frames are made of bytes that were read, if and
    only if none of them is a hang-up. -/
theorem idle_polls_invisible_iff (ps : List Poll) (hps : ∀ p ∈ ps, p.NoByte) :
    (∀ base full, Inserts ps base full → Unseen base full ∧ (Poll.eof ∉ base → Genuine full)) ↔
      Poll.eof ∉ ps := by
  constructor
  · intro h heof
    obtain ⟨rest, hrest⟩ := fed_hang_up hps heof
    -- behind three zero bytes the first hang-up completes a frame
    obtain ⟨⟨t, u, ht, hu, hchecked, -, -⟩, -⟩ := h zeroPolls _ (inserts_append zeroPolls ps)
    obtain ⟨t', ht', htr⟩ := tracks_run zeroPolls
    obtain ⟨u', hu', hur⟩ := tracks_run (zeroPolls ++ ps)
    obtain rfl := Option.some.inj (ht.symm.trans ht')
    obtain rfl := Option.some.inj (hu.symm.trans hu')
    have hbase : received (fed zeroPolls) = [] := by
      have hsplit : split room (fed zeroPolls) = ([], [0, 0, 0]) := split_cons_of_lt (by decide)
      rw [received, hsplit]
      rfl
    have hfull : received (fed (zeroPolls ++ ps)) = [0, 0, 0, 0] :: received rest := by
      have hstream : fed (zeroPolls ++ ps) = 0 :: (0 :: 0 :: 0 :: rest) := by
        rw [fed_append, hrest]
        rfl
      have hle : room 0 ≤ (0 :: 0 :: 0 :: rest : List UInt8).length := by
        simp [room, follow]
      rw [received, hstream, split_cons_of_le hle]
      rfl
    rw [htr.checked, hur.checked, hbase, hfull] at hchecked
    exact absurd hchecked (by simp)
  · intro heof base full hins
    have hempty : ∀ p ∈ ps, fed [p] = [] := by
      intro p hp
      rcases (hps p hp).cases with rfl | h
      · exact absurd hp heof
      · exact h
    refine ⟨unseen_of_fed (fed_inserted hins hempty), ?_⟩
    intro hbase
    apply genuine_of_no_eof
    intro hfull
    rcases hins.mem hfull with h | h
    · exact heof h
    · exact hbase h

/-- A parameter request among empty polls. -/
theorem idle_polls_invisible_param :
    Unseen [.byte 0x01, .byte 0xAC, .byte 0x0F, .byte 0x0F, .byte 0x00]
      [.notReady, .byte 0x01, .byte 0xAC, .selectFail, .byte 0x0F, .byte 0x0F, .readFail, .byte 0x00] :=
  ((idle_polls_invisible_iff [.notReady, .selectFail, .readFail] (by decide)).mpr (by decide) _ _
    (.insert _ (.keep _ (.keep _ (.insert _ (.keep _ (.keep _ (.insert _ (.keep _ .nil))))))))).1

/-- The parameter request without its last byte, which is 0. -/
def paramStart : List UInt8 := [0x01, 0xAC, 0x0F, 0x0F]

/-- **A hang-up completes it**: the run with the hang-up answers a request that was never sent whole. -/
theorem hang_up_completes_frame : ¬ Unseen (paramStart.map .byte) (paramStart.map .byte ++ [.eof]) ∧
    ∃ t, linuxUartRun Ts.zero (paramStart.map .byte ++ [.eof]) = some t ∧
      checked t.log = [paramStart ++ [0]] ∧ written t.log = replyParam := by
  obtain ⟨t, ht, htr⟩ := tracks_run (paramStart.map .byte)
  obtain ⟨u, hu, hur⟩ := tracks_run (paramStart.map .byte ++ [.eof])
  have hbase : received (fed (paramStart.map .byte)) = [] := by
    have hsplit : split room paramStart = ([], paramStart) := split_cons_of_lt (by decide)
    rw [fed_bytes, received, hsplit]
    rfl
  have hfull : received (fed (paramStart.map .byte ++ [.eof])) = [paramStart ++ [0]] := by
    have hstream : fed (paramStart.map .byte ++ [.eof]) = [paramStart ++ [0]].flatten := rfl
    rw [hstream]
    exact received_flatten (by decide) (by decide)
  constructor
  · rintro ⟨t', u', ht', hu', hchecked, -, -⟩
    obtain rfl := Option.some.inj (ht.symm.trans ht')
    obtain rfl := Option.some.inj (hu.symm.trans hu')
    rw [htr.checked, hur.checked, hbase, hfull] at hchecked
    exact absurd hchecked (by simp)
  · refine ⟨u, hu, by rw [hur.checked, hfull], ?_⟩
    rw [hur.written, hfull]
    rfl

end DlsSdk
