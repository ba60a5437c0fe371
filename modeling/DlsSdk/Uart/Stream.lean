import DlsSdk.Uart.Stage

/-!
# `Uart.Stream` — whole runs of `linux_uart_loop`

`linux_uart_loop` takes one byte per call; between two calls it holds the unfinished frame in `pack_data`
(`Between`). What a run amounts to, for every sequence of polls:

* the bytes that reach the buffer are `fed`: those that were read, and a 0 for each `read` of 0 bytes;
* they are cut into frames by `room`: a frame ends with the last byte it announces, or with the 256th;
* the frames that have not overrun the buffer are `received`, and go through `stage` one by one.

`tracks_step` is one call, by cases on the poll; `tracks_run` is the induction over the polls, and needs no
assumption: every run returns.
-/

namespace DlsSdk

open Framing Buffer

/-! ## What reaches the buffer -/

/-- The bytes that the polls put into the buffer. -/
def fed (polls : List Poll) : List UInt8 :=
  polls.filterMap fun p => match p with
    | .byte b => some b
    | .eof => some 0
    | _ => none

/-- The bytes that follow a first byte into the buffer. -/
def room (L : UInt8) : Nat := min (follow L) 255

/-- The frame has not overrun the buffer. -/
def Kept (f : List UInt8) : Prop := f.length ≤ 255

instance instDecidableKept (f : List UInt8) : Decidable (Kept f) := inferInstanceAs (Decidable (_ ≤ _))

/-- The frames that reach the checksum stage. -/
def received (stream : List UInt8) : List (List UInt8) := (split room stream).1.filter (Kept ·)

/-- The places that a stream is stored to: each frame from the front of the buffer on. -/
def placed (s : List (List UInt8) × List UInt8) : List Nat :=
  (s.1 ++ [s.2]).flatMap fun f => List.range f.length

theorem fed_append (ps qs : List Poll) : fed (ps ++ qs) = fed ps ++ fed qs := List.filterMap_append

theorem fed_eq_delivered {polls : List Poll} (heof : Poll.eof ∉ polls) : fed polls = delivered polls := by
  apply List.filterMap_congr
  intro p hp
  cases p with
  | eof => exact absurd hp heof
  | notReady | selectFail | readFail | byte b => rfl

theorem room_le_follow (L : UInt8) : room L ≤ follow L := Nat.min_le_left ..

theorem room_le (L : UInt8) : room L ≤ 255 := Nat.min_le_right ..

/-- A frame that has not overrun the buffer ends where it says. -/
theorem complete_room_iff {f : List UInt8} (hk : Kept f) : Complete room f ↔ Complete follow f := by
  cases f with
  | nil => exact Iff.rfl
  | cons L rest =>
      have hlen : rest.length + 1 ≤ 255 := hk
      show rest.length = min (follow L) 255 ↔ rest.length = follow L
      omega

/-- The frame being collected lacks bytes. -/
def Unfinished (part : List UInt8) : Prop := ∀ L rest, part = L :: rest → rest.length < room L

theorem Unfinished.length_le {part : List UInt8} (h : Unfinished part) : part.length ≤ 255 := by
  cases part with
  | nil => exact Nat.zero_le _
  | cons L rest =>
      have hlt := h L rest rfl
      have hle := room_le L
      rw [List.length_cons]
      omega

theorem Unfinished.not_complete {part : List UInt8} (h : Unfinished part) : ¬ Complete follow part := by
  cases part with
  | nil => exact id
  | cons L rest =>
      intro hc
      have hlen : rest.length = follow L := hc
      have hlt := h L rest rfl
      have hle := room_le_follow L
      omega

/-- The 256th byte ends the frame. -/
theorem Unfinished.complete_of_full {part : List UInt8} (h : Unfinished part) (hfull : part.length = 255)
    (b : UInt8) : Complete room (part ++ [b]) := by
  cases part with
  | nil => exact absurd hfull (by decide)
  | cons L rest =>
      have hlt := h L rest rfl
      have hle := room_le L
      rw [List.length_cons] at hfull
      show (rest ++ [b]).length = room L
      rw [List.length_append, List.length_singleton]
      omega

/-! ## One call -/

/-- A poll that stores no byte. -/
theorem poll_idle {t : Ts} {part : List UInt8} {p : Poll} (h : Between t.pack part)
    (hun : Unfinished part) (hp : p = .notReady ∨ p = .selectFail ∨ p = .readFail) :
    t.reset.poll p = t.reset := by
  obtain ⟨hf, -, -⟩ := reset_filling h
  unfold Ts.poll
  rw [if_pos hf.work]
  rcases hp with rfl | rfl | rfl
  · rfl
  · rfl
  · -- a failed `read` is followed by the two tests all the same
    exact (measure_eq hf).trans (if_neg hun.not_complete)

/-- **A poll that stores a byte**: the 256th of a frame, or one there is room for. -/
theorem poll_byte {t : Ts} {part : List UInt8} (h : Between t.pack part) (hun : Unfinished part)
    (b : UInt8) :
    (part.length = 255 ∧ (t.reset.poll (.byte b)).pack.work = 0 ∧
        (t.reset.poll (.byte b)).jpg = (t.reset.receive b).jpg ∧
        (t.reset.poll (.byte b)).log = (t.reset.receive b).log) ∨
      (Filling (t.reset.receive b).pack (part ++ [b]) ∧
        t.reset.poll (.byte b) = if Complete follow (part ++ [b]) then
          { t.reset.receive b with pack.work := 2 } else t.reset.receive b) := by
  obtain ⟨hf, -, -⟩ := reset_filling h
  have hpoll : t.reset.poll (.byte b) = (t.reset.receive b).measure := by
    unfold Ts.poll
    rw [if_pos hf.work]
  rw [hpoll]
  by_cases hfull : part.length = 255
  · have hsize : (t.reset.receive b).pack.size.toNat = 256 := by
      show (t.reset.pack.size + 1).toNat = 256
      rw [UInt16.toNat_add, hf.size, hfull]
      rfl
    exact .inl ⟨hfull, measure_over hsize⟩
  · have hrecv := receive_filling hf (Nat.lt_of_le_of_ne hun.length_le hfull) b
    exact .inr ⟨hrecv, measure_eq hrecv⟩

/-- A call that stores no byte leaves everything as it is. -/
theorem loop_idle {t : Ts} {part : List UInt8} {p : Poll} (h : Between t.pack part)
    (hun : Unfinished part) (hp : p = .notReady ∨ p = .selectFail ∨ p = .readFail) :
    ∃ t', linuxUartLoop t p = some t' ∧ Between t'.pack part ∧ t'.jpg = t.jpg ∧ t'.log = t.log := by
  obtain ⟨hf, hjpg, hlog⟩ := reset_filling h
  have hcheck : t.reset.check = some t.reset := check_skip (by rw [hf.work]; decide)
  refine ⟨t.reset, ?_, .inr hf, hjpg, hlog⟩
  rw [linuxUartLoop, poll_idle h hun hp, hcheck]

/-- A complete frame has at least four bytes. -/
theorem complete_length {f : List UInt8} (hc : Complete follow f) : 4 ≤ f.length := by
  cases f with
  | nil => exact hc.elim
  | cons L rest =>
      have hlen : rest.length = L.toNat + 3 := hc
      rw [List.length_cons]
      omega

/-- What a byte has made of the unfinished frame `part`: `f` is `part` with the byte behind it. -/
structure Grown (t t' : Ts) (part f : List UInt8) : Prop where
  stored : stores t'.log = stores t.log ++ [part.length]
  between : Between t'.pack (if Complete room f then [] else f)
  effect : (t'.jpg, handled t'.log) =
    if Complete room f ∧ Kept f then stage (t.jpg, handled t.log) f else (t.jpg, handled t.log)

/-- **A call that stores a byte**: the frame grows; if that completes it, it goes through the checksum
    stage, and if it overruns the buffer, it is dropped. -/
theorem loop_byte {t : Ts} {part : List UInt8} (h : Between t.pack part) (hun : Unfinished part)
    (b : UInt8) : ∃ t', linuxUartLoop t (.byte b) = some t' ∧ Grown t t' part (part ++ [b]) := by
  obtain ⟨hf, hjpg, hlog⟩ := reset_filling h
  have hrlog : (t.reset.receive b).log = t.log ++ [.store part.length] := by
    show t.reset.log ++ [.store t.reset.pack.size.toNat] = _
    rw [hlog, hf.size]
  have hrjpg : (t.reset.receive b).jpg = t.jpg := hjpg
  have hstored : stores (t.reset.receive b).log = stores t.log ++ [part.length] := by
    rw [hrlog, stores_append]
    rfl
  have hhandled : handled (t.reset.receive b).log = handled t.log := by
    rw [hrlog, handled_append]
    exact List.append_nil _
  rw [linuxUartLoop]
  rcases poll_byte h hun b with ⟨hfull, hw, hpjpg, hplog⟩ | ⟨hrecv, hpoll⟩
  · -- the 256th byte: the frame is dropped, whether or not it is complete
    have hcheck : (t.reset.poll (.byte b)).check = some (t.reset.poll (.byte b)) :=
      check_skip (by rw [hw]; decide)
    have hdropped : ¬ (Complete room (part ++ [b]) ∧ Kept (part ++ [b])) := by
      rintro ⟨-, hk⟩
      have hle : (part ++ [b]).length ≤ 255 := hk
      rw [List.length_append, List.length_singleton, hfull] at hle
      omega
    refine ⟨_, hcheck, by rw [hplog, hstored], ?_, ?_⟩
    · rw [if_pos (hun.complete_of_full hfull b)]
      exact .inl ⟨hw, rfl⟩
    · rw [if_neg hdropped, hpjpg, hplog, hrjpg, hhandled]
  · have hkept : Kept (part ++ [b]) := hrecv.data.length_le
    rw [hpoll]
    by_cases hc : Complete follow (part ++ [b])
    · -- the call goes on to the checksum stage
      rw [if_pos hc]
      have hdone : Complete room (part ++ [b]) := (complete_room_iff hkept).mpr hc
      have hfull : Full (Ts.pack { t.reset.receive b with pack.work := 2 }) (part ++ [b]) :=
        ⟨hrecv.size, hrecv.data, complete_length hc⟩
      obtain ⟨t', hs, hw, heff⟩ := check_frame rfl hfull
      have hstage : (t'.jpg, t'.log) =
          stage ((t.reset.receive b).jpg, (t.reset.receive b).log) (part ++ [b]) := heff
      refine ⟨t', hs, ?_, ?_, ?_⟩
      · rw [show t'.log = _ from congrArg Prod.snd hstage, stores_stage]
        exact hstored
      · rw [if_pos hdone]
        exact .inl ⟨hw, rfl⟩
      · have heq := handled_stage ((t.reset.receive b).jpg, (t.reset.receive b).log) (part ++ [b])
        rw [← hstage, hrjpg, hhandled] at heq
        rw [if_pos ⟨hdone, hkept⟩]
        exact heq
    · rw [if_neg hc]
      have hopen : ¬ Complete room (part ++ [b]) := fun hd => hc ((complete_room_iff hkept).mp hd)
      have hcheck : (t.reset.receive b).check = some (t.reset.receive b) :=
        check_skip (by rw [hrecv.work]; decide)
      refine ⟨_, hcheck, hstored, ?_, ?_⟩
      · rw [if_neg hopen]
        exact .inr hrecv
      · rw [if_neg (fun hd => hopen hd.1), hrjpg, hhandled]

/-! ## Whole runs -/

theorem placed_push (s : List (List UInt8) × List UInt8) (b : UInt8) :
    placed (push room s b) = placed s ++ [s.2.length] := by
  unfold placed push
  by_cases hc : Complete room (s.2 ++ [b])
  · rw [if_pos hc]
    simp [List.range_succ]
  · rw [if_neg hc]
    simp [List.range_succ]

theorem received_snoc (stream : List UInt8) (b : UInt8) :
    received (stream ++ [b]) = received stream ++
      if Complete room ((split room stream).2 ++ [b]) ∧ Kept ((split room stream).2 ++ [b]) then
        [(split room stream).2 ++ [b]] else [] := by
  unfold received
  rw [split_snoc, push]
  by_cases hc : Complete room ((split room stream).2 ++ [b])
  · by_cases hk : Kept ((split room stream).2 ++ [b])
    · rw [if_pos hc, if_pos ⟨hc, hk⟩]
      simp [hk]
    · rw [if_pos hc, if_neg (fun h => hk h.2)]
      simp [hk]
  · rw [if_neg hc, if_neg (fun h => hc h.1), List.append_nil]

/-- A call puts one byte into the buffer, or none. -/
theorem fed_single (p : Poll) : fed [p] = [] ∨ ∃ b, fed [p] = [b] := by
  cases p with
  | notReady | selectFail | readFail => exact .inl rfl
  | eof => exact .inr ⟨0, rfl⟩
  | byte b => exact .inr ⟨b, rfl⟩

/-- A call brings one frame to the checksum stage, or none. -/
theorem received_fed_snoc (polls : List Poll) (p : Poll) :
    received (fed (polls ++ [p])) = received (fed polls) ∨
      ∃ f, received (fed (polls ++ [p])) = received (fed polls) ++ [f] := by
  rw [fed_append]
  rcases fed_single p with hnone | ⟨b, hb⟩
  · rw [hnone, List.append_nil]
    exact .inl rfl
  · rw [hb, received_snoc]
    by_cases hc : Complete room ((split room (fed polls)).2 ++ [b]) ∧
        Kept ((split room (fed polls)).2 ++ [b])
    · rw [if_pos hc]
      exact .inr ⟨_, rfl⟩
    · rw [if_neg hc]
      exact .inl (List.append_nil _)

/-- The machine has taken in the stream. -/
structure Tracks (t : Ts) (stream : List UInt8) : Prop where
  between : Between t.pack (split room stream).2
  effect : (t.jpg, handled t.log) = stageRun (received stream)
  stored : stores t.log = placed (split room stream)

theorem tracks_zero : Tracks Ts.zero [] where
  between := by
    rw [split_nil]
    exact .inl ⟨rfl, rfl⟩
  effect := by rw [received, split_nil]; rfl
  stored := by rw [split_nil]; rfl

/-- **One call keeps up with the stream.** -/
theorem tracks_step {t : Ts} {stream : List UInt8} (h : Tracks t stream) (p : Poll) :
    ∃ t', linuxUartLoop t p = some t' ∧ Tracks t' (stream ++ fed [p]) := by
  have hun : Unfinished (split room stream).2 := split_rest stream
  have hidle : ∀ p, p = .notReady ∨ p = .selectFail ∨ p = .readFail →
      ∃ t', linuxUartLoop t p = some t' ∧ Tracks t' stream := by
    intro p hp
    obtain ⟨t', hs, hb, hjpg, hlog⟩ := loop_idle h.between hun hp
    exact ⟨t', hs, hb, by rw [hjpg, hlog]; exact h.effect, by rw [hlog]; exact h.stored⟩
  have hbyte : ∀ b, ∃ t', linuxUartLoop t (.byte b) = some t' ∧ Tracks t' (stream ++ [b]) := by
    intro b
    obtain ⟨t', hs, hg⟩ := loop_byte h.between hun b
    refine ⟨t', hs, ?_, ?_, ?_⟩
    · have hrest : (split room (stream ++ [b])).2 =
          if Complete room ((split room stream).2 ++ [b]) then [] else (split room stream).2 ++ [b] := by
        rw [split_snoc, push, apply_ite Prod.snd]
      rw [hrest]
      exact hg.between
    · rw [hg.effect, received_snoc, h.effect]
      by_cases hc : Complete room ((split room stream).2 ++ [b]) ∧ Kept ((split room stream).2 ++ [b])
      · rw [if_pos hc, if_pos hc, stageRun_snoc]
      · rw [if_neg hc, if_neg hc, List.append_nil]
    · rw [hg.stored, h.stored, split_snoc, placed_push]
  cases p with
  | notReady | selectFail | readFail =>
      rw [show stream ++ fed _ = stream from List.append_nil _]
      exact hidle _ (by simp)
  | eof => exact hbyte 0
  | byte b => exact hbyte b

/-- A stream of whole frames that fit into the buffer is received frame by frame. -/
theorem received_flatten {fs : List (List UInt8)} (hc : ∀ f ∈ fs, Complete room f)
    (hk : ∀ f ∈ fs, Kept f) : received fs.flatten = fs := by
  rw [received, split_flatten_of_complete hc, List.filter_eq_self]
  intro f hf
  exact decide_eq_true (hk f hf)

theorem fed_bytes (stream : List UInt8) : fed (stream.map .byte) = stream := by
  rw [fed, List.filterMap_map]
  exact List.filterMap_some

theorem linuxUartRun_snoc (t : Ts) (polls : List Poll) (p : Poll) :
    linuxUartRun t (polls ++ [p]) = (linuxUartRun t polls).bind (linuxUartLoop · p) := by
  unfold linuxUartRun
  rw [List.foldlM_append]
  simp only [List.foldlM_cons, List.foldlM_nil, bind_pure]
  rfl

/-- **Every run returns, and has taken in its stream.** -/
theorem tracks_run (polls : List Poll) :
    ∃ t, linuxUartRun Ts.zero polls = some t ∧ Tracks t (fed polls) := by
  induction polls using List.reverseRecOn with
  | nil => exact ⟨Ts.zero, rfl, tracks_zero⟩
  | append_singleton polls p ih =>
      obtain ⟨t, hr, ht⟩ := ih
      obtain ⟨t', hs, ht'⟩ := tracks_step ht p
      refine ⟨t', ?_, by rw [fed_append]; exact ht'⟩
      rw [linuxUartRun_snoc, hr]
      exact hs

theorem Tracks.checked {t : Ts} {stream : List UInt8} (h : Tracks t stream) :
    checked t.log = received stream := by
  rw [← checked_handled, ← checked_stageRun (received stream), ← h.effect]

theorem Tracks.jpg {t : Ts} {stream : List UInt8} (h : Tracks t stream) :
    t.jpg = (stageRun (received stream)).1 := by rw [← h.effect]

theorem Tracks.written {t : Ts} {stream : List UInt8} (h : Tracks t stream) :
    written t.log = ((received stream).filterMap reply).flatten := by
  rw [← written_handled, ← written_stageRun, ← h.effect]

theorem Tracks.copies {t : Ts} {stream : List UInt8} (h : Tracks t stream) :
    copies t.log = copies (stageRun (received stream)).2 := by
  rw [← copies_handled, ← h.effect]

end DlsSdk
