import DlsSdk.Uart.Stream

/-!
# `Uart.Bounds` — the indices into `pack_data.data`

The stores are in the log. The reads are listed beside the functions that make them (`checkSum8Reads`,
`Ts.dispatchReads`, `Ts.checkReads`); nothing else of `data` enters into the stage (`check_reads`). The
reads come after the tests and are of a frame that fits (`checkReads_le`). The store comes before them: the
buffer has 255 places, the test drops a frame only when it has 256 bytes, and the 256th has been stored by
then (`frame_indices_iff`).
-/

namespace DlsSdk

open Framing Buffer

/-! ## The reads of a call -/

/-- The places of its input that the loop of `CheckSum8` reads. -/
def checkSum8LoopReads (nbrOfBytes : UInt16) : Nat → UInt8 → List Nat
  | 0, _ => []
  | fuel + 1, iX =>
      if iX.toUInt16 < nbrOfBytes then iX.toNat :: checkSum8LoopReads nbrOfBytes fuel (iX + 1) else []

/-- The places of its input that `CheckSum8` reads. -/
def checkSum8Reads (nbrOfBytes : UInt16) : List Nat :=
  checkSum8LoopReads (if nbrOfBytes > 0xFFFE then 0xFFFE else nbrOfBytes) 257 0

/-- The places of `data` that the dispatch reads: the command, and then the four bytes of the length or the
    payload. -/
def Ts.dispatchReads (t : Ts) : List Nat :=
  3 :: (if frameByte t.pack.data.toList 3 = 0x0A then [53, 54, 55, 56]
    else if frameByte t.pack.data.toList 3 = 0x0B then List.range' 4 (t.pack.size.toNat - 4)
    else [])

/-- The places of `data` that the checksum stage reads: it prints the frame, sums it, compares byte 2, and
    dispatches an accepted one. -/
def Ts.checkReads (t : Ts) : List Nat :=
  if t.pack.work = 2 then
    List.range t.pack.size.toNat ++ (checkSum8Reads (t.pack.size - 3)).map (3 + ·) ++ [2] ++
      if checkSum8 0 (some (t.pack.data.toList.drop 3)) (t.pack.size - 3) =
          some (frameByte t.pack.data.toList 2) then t.dispatchReads
      else []
  else []

/-- The places of `data` that a run reads; place 0 is read by the first test after a `read`. -/
def linuxUartReads (t : Ts) : List Poll → List Nat
  | [] => []
  | p :: polls =>
      0 :: (t.reset.poll p).checkReads ++
        match linuxUartLoop t p with
        | some t' => linuxUartReads t' polls
        | none => []

/-! ## Nothing else is read -/

theorem frameByte_toList {n : Nat} {v : Vector UInt8 n} {i : Nat} (hi : i < n) :
    frameByte v.toList i = v[i] := by
  have hlen : i < v.toList.length := by
    rw [Vector.length_toList]
    exact hi
  rw [frameByte, List.getD_eq_getElem _ _ hlen, Vector.getElem_toList]

/-- The sum depends on the places that are read. -/
theorem checkSum8Loop_congr {input input' : List UInt8} {n : UInt16} (fuel : Nat) :
    ∀ sum iX, (∀ i ∈ checkSum8LoopReads n fuel iX, input'.getD i 0 = input.getD i 0) →
      checkSum8Loop input' n fuel sum iX = checkSum8Loop input n fuel sum iX := by
  induction fuel with
  | zero => intros; rfl
  | succ fuel ih =>
      intro sum iX h
      rw [checkSum8LoopReads] at h
      rw [checkSum8Loop, checkSum8Loop]
      by_cases hlt : iX.toUInt16 < n
      · rw [if_pos hlt] at h
        rw [if_pos hlt, if_pos hlt, h _ List.mem_cons_self]
        exact ih _ _ fun i hi => h i (List.mem_cons_of_mem _ hi)
      · rw [if_neg hlt, if_neg hlt]

theorem checkSum8_congr {input input' : List UInt8} {n : UInt16} (seed : UInt8)
    (h : ∀ i ∈ checkSum8Reads n, input'.getD i 0 = input.getD i 0) :
    checkSum8 seed (some input') n = checkSum8 seed (some input) n :=
  checkSum8Loop_congr 257 seed 0 h

/-- `data` replaced by other memory. -/
def Ts.withData (t : Ts) (data : Vector UInt8 255) : Ts := { t with pack.data := data }

/-- Memory that agrees with `data` at the places in `reads`. -/
def Ts.SameAt (t : Ts) (data : Vector UInt8 255) (reads : List Nat) : Prop :=
  ∀ i ∈ reads, frameByte data.toList i = frameByte t.pack.data.toList i

/-- A stretch of memory that is read is the same. -/
theorem Ts.SameAt.slice {t : Ts} {data : Vector UInt8 255} {a n : Nat}
    (h : t.SameAt data (List.range' a n)) :
    (data.toList.drop a).take n = (t.pack.data.toList.drop a).take n := by
  apply List.ext_getElem
  · simp only [List.length_take, List.length_drop, Vector.length_toList]
  · intro i h1 h2
    have hlen : a + i < 255 ∧ i < n := by
      simp only [List.length_take, List.length_drop, Vector.length_toList] at h1
      omega
    have hread := h (a + i) (List.mem_range'_1.mpr ⟨by omega, by omega⟩)
    rw [frameByte_toList hlen.1, frameByte_toList hlen.1] at hread
    simp only [List.getElem_take, List.getElem_drop, Vector.getElem_toList]
    exact hread

theorem dispatch_reads {t : Ts} {data : Vector UInt8 255} (h : t.SameAt data t.dispatchReads) :
    (t.withData data).dispatch = t.dispatch.withData data := by
  have hbyte : ∀ i (hi : i < 255), i ∈ t.dispatchReads → data[i] = t.pack.data[i] := by
    intro i hi hread
    rw [← frameByte_toList hi, ← frameByte_toList hi]
    exact h i hread
  have h3 : data[3] = t.pack.data[3] := hbyte 3 (by decide) List.mem_cons_self
  have hkind : frameByte t.pack.data.toList 3 = t.pack.data[3] := frameByte_toList (by decide)
  unfold Ts.dispatchReads at h hbyte
  rw [hkind] at h hbyte
  unfold Ts.dispatch
  simp only [Ts.withData, h3]
  by_cases hA : t.pack.data[3] = 0x0A
  · simp only [if_pos hA] at hbyte ⊢
    rw [hbyte 53 (by decide) (by simp), hbyte 54 (by decide) (by simp), hbyte 55 (by decide) (by simp),
      hbyte 56 (by decide) (by simp)]
    rfl
  by_cases hB : t.pack.data[3] = 0x0B
  · simp only [if_neg hA, if_pos hB] at h ⊢
    have hpayload := Ts.SameAt.slice (t := t) fun i hi => h i (List.mem_cons_of_mem _ hi)
    rw [hpayload]
    rfl
  by_cases hC : t.pack.data[3] = 0x0C
  · simp only [if_neg hA, if_neg hB, if_pos hC]
  by_cases h4 : t.pack.data[3] = 0x04
  · simp only [if_neg hA, if_neg hB, if_neg hC, if_pos h4]
    rfl
  by_cases hF : t.pack.data[3] = 0x0F
  · simp only [if_neg hA, if_neg hB, if_neg hC, if_neg h4, if_pos hF]
    rfl
  · simp only [if_neg hA, if_neg hB, if_neg hC, if_neg h4, if_neg hF]

/-- **Nothing else is read**: memory that is the same at the places read gives the same stage. -/
theorem check_reads {t : Ts} {data : Vector UInt8 255} (h : t.SameAt data t.checkReads) :
    (t.withData data).check = t.check.map (·.withData data) := by
  by_cases hw : t.pack.work = 2
  · unfold Ts.check
    unfold Ts.checkReads at h
    rw [if_pos hw] at h
    have hframe : data.toList.take t.pack.size.toNat = t.pack.data.toList.take t.pack.size.toNat := by
      apply Ts.SameAt.slice (a := 0)
      intro i hi
      rw [← List.range_eq_range'] at hi
      exact h i (by simp [hi])
    have hsum : checkSum8 0 (some (data.toList.drop 3)) (t.pack.size - 3) =
        checkSum8 0 (some (t.pack.data.toList.drop 3)) (t.pack.size - 3) := by
      apply checkSum8_congr
      intro i hi
      have hread := h (3 + i) (by simp [hi])
      rw [frameByte, frameByte] at hread
      simpa only [List.getD_eq_getElem?_getD, List.getElem?_drop] using hread
    have h2 : data[2] = t.pack.data[2] := by
      rw [← frameByte_toList (by decide), ← frameByte_toList (by decide)]
      exact h 2 (by simp)
    let g : Ts := Ts.emit { t with pack.work := 3 } (.frame (t.pack.data.toList.take t.pack.size.toNat))
    have hg : (Ts.emit { t.withData data with pack.work := 3 }
        (.frame (data.toList.take t.pack.size.toNat))) = g.withData data := by
      rw [hframe]
      rfl
    rw [if_pos hw, if_pos (show (t.withData data).pack.work = 2 from hw)]
    show (checkSum8 0 (some (data.toList.drop 3)) (t.pack.size - 3)).map (fun crc8 => if crc8 = data[2] then
        { (Ts.emit { t.withData data with pack.work := 3 }
          (.frame (data.toList.take t.pack.size.toNat))).dispatch with pack.work := 0 } else
        { Ts.emit { t.withData data with pack.work := 3 }
          (.frame (data.toList.take t.pack.size.toNat)) with pack.work := 0 }) =
      ((checkSum8 0 (some (t.pack.data.toList.drop 3)) (t.pack.size - 3)).map fun crc8 =>
        if crc8 = t.pack.data[2] then { g.dispatch with pack.work := 0 } else
        { g with pack.work := 0 }).map (·.withData data)
    rw [hg, hsum, h2]
    cases hs : checkSum8 0 (some (t.pack.data.toList.drop 3)) (t.pack.size - 3) with
    | none => rfl
    | some crc8 =>
        simp only [Option.map_some]
        by_cases hacc : crc8 = t.pack.data[2]
        · have haccept : some crc8 = some (frameByte t.pack.data.toList 2) := by
            rw [hacc, frameByte_toList (by decide)]
          have hdispatch : g.SameAt data g.dispatchReads := by
            intro i hi
            apply h i
            rw [hs, if_pos haccept]
            exact List.mem_append_right _ hi
          rw [if_pos hacc, if_pos hacc, dispatch_reads hdispatch]
          rfl
        · rw [if_neg hacc, if_neg hacc]
          rfl
  · have hskip : (t.withData data).check = some (t.withData data) := check_skip hw
    rw [hskip, check_skip hw]
    rfl

/-! ## The bounds -/

theorem checkSum8LoopReads_lt {n : UInt16} (fuel : Nat) :
    ∀ iX, ∀ i ∈ checkSum8LoopReads n fuel iX, i < n.toNat := by
  induction fuel with
  | zero =>
      intro iX i hi
      exact absurd hi List.not_mem_nil
  | succ fuel ih =>
      intro iX i hi
      rw [checkSum8LoopReads] at hi
      by_cases hlt : iX.toUInt16 < n
      · rw [if_pos hlt] at hi
        rcases List.mem_cons.mp hi with rfl | hmem
        · rw [UInt16.lt_iff_toNat_lt, UInt8.toNat_toUInt16] at hlt
          exact hlt
        · exact ih _ i hmem
      · rw [if_neg hlt] at hi
        exact absurd hi List.not_mem_nil

theorem checkSum8Reads_lt {n : UInt16} : ∀ i ∈ checkSum8Reads n, i < n.toNat := by
  intro i hi
  have hlt := checkSum8LoopReads_lt 257 0 i hi
  by_cases hbig : n > 0xFFFE
  · rw [if_pos hbig] at hlt
    rw [gt_iff_lt, UInt16.lt_iff_toNat_lt] at hbig
    omega
  · rw [if_neg hbig] at hlt
    exact hlt

/-- A frame that fits is read within the buffer. -/
theorem checkReads_le {t : Ts} {f : List UInt8} (h : Full t.pack f) : ∀ i ∈ t.checkReads, i ≤ 254 := by
  have hle := h.le
  have hlong := h.long
  have hsize := h.size
  have hn : (t.pack.size - 3).toNat = f.length - 3 := by
    rw [UInt16.toNat_sub_of_le _ _ (by
      rw [UInt16.le_iff_toNat_le, hsize, show (3 : UInt16).toNat = 3 from rfl]; omega),
      hsize, show (3 : UInt16).toNat = 3 from rfl]
  have hdispatch : ∀ i ∈ t.dispatchReads, i ≤ 254 := by
    intro i hi
    rcases List.mem_cons.mp hi with rfl | hi
    · decide
    by_cases hA : frameByte t.pack.data.toList 3 = 0x0A
    · rw [if_pos hA] at hi
      simp only [List.mem_cons, List.not_mem_nil, or_false] at hi
      omega
    by_cases hB : frameByte t.pack.data.toList 3 = 0x0B
    · rw [if_neg hA, if_pos hB, List.mem_range'_1] at hi
      omega
    · rw [if_neg hA, if_neg hB] at hi
      exact absurd hi List.not_mem_nil
  intro i hi
  unfold Ts.checkReads at hi
  by_cases hw : t.pack.work = 2
  · rw [if_pos hw] at hi
    rcases List.mem_append.mp hi with hi | hi
    · simp only [List.mem_append, List.mem_range, List.mem_map, List.mem_singleton] at hi
      rcases hi with (hi | ⟨j, hj, rfl⟩) | rfl
      · omega
      · have hlt := checkSum8Reads_lt j hj
        omega
      · decide
    · by_cases hacc : checkSum8 0 (some (t.pack.data.toList.drop 3)) (t.pack.size - 3) =
          some (frameByte t.pack.data.toList 2)
      · rw [if_pos hacc] at hi
        exact hdispatch i hi
      · rw [if_neg hacc] at hi
        exact absurd hi List.not_mem_nil
  · rw [if_neg hw] at hi
    exact absurd hi List.not_mem_nil

/-- Only a frame that fits comes to the checksum stage. -/
theorem poll_full {t : Ts} {part : List UInt8} (h : Between t.pack part) (hun : Unfinished part) (p : Poll)
    (hw : (t.reset.poll p).pack.work = 2) : ∃ f, Full (t.reset.poll p).pack f := by
  obtain ⟨hf, -, -⟩ := reset_filling h
  have hidle : ∀ p, p = .notReady ∨ p = .selectFail ∨ p = .readFail → (t.reset.poll p).pack.work ≠ 2 := by
    intro p hp
    rw [poll_idle h hun hp, hf.work]
    decide
  have hbyte : ∀ b, (t.reset.poll (.byte b)).pack.work = 2 → ∃ f, Full (t.reset.poll (.byte b)).pack f := by
    intro b hw
    rcases poll_byte h hun b with ⟨-, h0, -⟩ | ⟨hrecv, hpoll⟩
    · rw [h0] at hw
      exact absurd hw (by decide)
    · rw [hpoll] at hw ⊢
      by_cases hc : Complete follow (part ++ [b])
      · rw [if_pos hc]
        exact ⟨part ++ [b], hrecv.size, hrecv.data, complete_length hc⟩
      · rw [if_neg hc, hrecv.work] at hw
        exact absurd hw (by decide)
  cases p with
  | notReady | selectFail | readFail => exact absurd hw (hidle _ (by simp))
  | eof => exact hbyte 0 hw
  | byte b => exact hbyte b hw

/-- **No read is out of bounds**, in any run. -/
theorem reads_le (polls : List Poll) : ∀ {t : Ts} {stream : List UInt8}, Tracks t stream →
    ∀ i ∈ linuxUartReads t polls, i ≤ 254 := by
  induction polls with
  | nil =>
      intro t stream _ i hi
      exact absurd hi List.not_mem_nil
  | cons p polls ih =>
      intro t stream h i hi
      obtain ⟨t', hs, ht'⟩ := tracks_step h p
      rw [linuxUartReads, hs] at hi
      rcases List.mem_append.mp hi with hcall | hrest
      · rcases List.mem_cons.mp hcall with rfl | hstage
        · decide
        · by_cases hw : (t.reset.poll p).pack.work = 2
          · obtain ⟨f, hfull⟩ := poll_full h.between (split_rest stream) p hw
            exact checkReads_le hfull i hstage
          · rw [Ts.checkReads, if_neg hw] at hstage
            exact absurd hstage List.not_mem_nil
      · exact ih ht' i hrest

/-- A frame that overruns the buffer is one that says so in its first byte. -/
theorem kept_iff_short {f : List UInt8} (hc : Complete room f) : Kept f ↔ ∀ L ∈ f.head?, L.toNat ≤ 251 := by
  cases f with
  | nil => exact hc.elim
  | cons L rest =>
      have hlen : rest.length = min (L.toNat + 3) 255 := hc
      have hkept : Kept (L :: rest) ↔ rest.length + 1 ≤ 255 := Iff.rfl
      simp only [hkept, List.head?_cons, Option.mem_some_iff, forall_eq']
      omega

/-- **When the indices stay within `pack_data.data`.** Over every run, all stores and all reads are at places
    up to 254 if and only if every frame that has got all the bytes the buffer takes begins with a length
    byte of at most 251. -/
theorem frame_indices_iff (polls : List Poll) :
    (∃ t, linuxUartRun Ts.zero polls = some t ∧ (∀ i ∈ stores t.log, i ≤ 254) ∧
        ∀ i ∈ linuxUartReads Ts.zero polls, i ≤ 254) ↔
      ∀ f ∈ (split room (fed polls)).1, ∀ L ∈ f.head?, L.toNat ≤ 251 := by
  obtain ⟨t, hr, ht⟩ := tracks_run polls
  have hrest : (split room (fed polls)).2.length ≤ 255 := Unfinished.length_le (split_rest _)
  constructor
  · rintro ⟨u, hu, hstores, -⟩ f hf
    obtain rfl := Option.some.inj (hr.symm.trans hu)
    apply (kept_iff_short (split_complete _ f hf)).mp
    -- the last byte of an overrun frame was stored at place 255
    by_contra hover
    have hlen : 255 < f.length := Nat.lt_of_not_le hover
    have hmem : 255 ∈ stores t.log := by
      rw [ht.stored]
      exact List.mem_flatMap.mpr ⟨f, List.mem_append_left _ hf, List.mem_range.mpr hlen⟩
    exact absurd (hstores 255 hmem) (by decide)
  · intro h
    refine ⟨t, hr, ?_, reads_le polls tracks_zero⟩
    intro i hi
    rw [ht.stored] at hi
    obtain ⟨f, hf, hif⟩ := List.mem_flatMap.mp hi
    have hlt := List.mem_range.mp hif
    rcases List.mem_append.mp hf with hframe | hlast
    · have hkept : f.length ≤ 255 := (kept_iff_short (split_complete _ f hframe)).mpr (h f hframe)
      omega
    · obtain rfl := List.mem_singleton.mp hlast
      omega

/-- The shortest frame that does not fit. -/
def longFrame : List UInt8 := 0xFC :: List.replicate 255 0

/-- **Its last byte is stored behind the buffer.** -/
theorem store_behind_buffer :
    ∃ t, linuxUartRun Ts.zero (longFrame.map .byte) = some t ∧ 255 ∈ stores t.log := by
  obtain ⟨t, hr, ht⟩ := tracks_run (longFrame.map .byte)
  have hcomplete : Complete room longFrame := List.length_replicate
  have hsplit : split room [longFrame].flatten = ([longFrame], []) := by
    apply split_flatten_of_complete
    intro f hf
    rw [List.mem_singleton.mp hf]
    exact hcomplete
  rw [List.flatten_singleton] at hsplit
  have hlen : longFrame.length = 256 := by rw [longFrame, List.length_cons, List.length_replicate]
  refine ⟨t, hr, ?_⟩
  rw [ht.stored, fed_bytes, hsplit]
  apply List.mem_flatMap.mpr
  exact ⟨longFrame, by simp, List.mem_range.mpr (by rw [hlen]; decide)⟩

end DlsSdk
