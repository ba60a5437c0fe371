import DlsSdk.Library.ByteBuffer
import DlsSdk.Library.ByteString

/-!
# `LcmNet.DevIp` — the address of a device

`get_dev_ip` runs `ifconfig` through a pipe that ends in `cut` and reads one line of it into a buffer on the
stack. Whether `fgets` has read anything it does not ask.

* `getDevIp_some` — if the pipe says anything, or cannot be opened, the address is a C string that fits the
  buffer, without a line break, and empty or of at least 7 characters;
* `getDevIp_silent` — if it says nothing, the address is whatever was in the buffer.
-/

namespace DlsSdk

open ByteBuffer ByteString

/-- The bytes that `fgets` reads: up to a line break, `n` at most. -/
def fgetsLine : Nat → List UInt8 → List UInt8
  | 0, _ => []
  | _ + 1, [] => []
  | n + 1, b :: bs => if b = 10 then [b] else b :: fgetsLine n bs

/-- `fgets(buf, size, fp)`: at the end of the file the buffer is as before. -/
def fgets (buf : List UInt8) (size : Nat) (stream : List UInt8) : List UInt8 :=
  if stream = [] then buf else splice buf 0 (fgetsLine (size - 1) stream ++ [0])

/-- `if (!ip.empty() && ip[ip.length() - 1] == '\n') ip = ip.substr(0, ip.length() - 1);` -/
def chomp (ip : List Char) : List Char := if ip.getLast? = some '\n' then ip.dropLast else ip

/-- `get_dev_ip`, with the buffer as it is on the stack and what the pipe says (`none`: `popen` fails).
    Without a NUL the read leaves the buffer. -/
def getDevIp (buf : List UInt8) (pipe : Option (List UInt8)) : Option String := do
  let ip ← (match pipe with
    | none => some ""
    | some stream => cstr (fgets buf 1024 stream))
  let ip := chomp ip.toList
  some (if ip.length < 7 then "" else String.ofList ip)

variable {buf : List UInt8}

theorem length_fgetsLine (n : Nat) (stream : List UInt8) : (fgetsLine n stream).length ≤ n := by
  fun_induction fgetsLine n stream with
  | case1 | case2 => exact Nat.zero_le _
  | case3 => rw [List.length_singleton]; omega
  | case4 n b bs _ ih => rw [List.length_cons]; omega

/-- A line break is the last of the bytes that are read. -/
theorem fgetsLine_break (n : Nat) (stream : List UInt8) :
    ∃ line, 10 ∉ line ∧ (fgetsLine n stream = line ∨ fgetsLine n stream = line ++ [10]) := by
  fun_induction fgetsLine n stream with
  | case1 | case2 => exact ⟨[], List.not_mem_nil, .inl rfl⟩
  | case3 => exact ⟨[], List.not_mem_nil, .inr rfl⟩
  | case4 n b bs hb ih =>
      obtain ⟨line, hno, hline⟩ := ih
      refine ⟨b :: line, ?_, ?_⟩
      · rw [List.mem_cons, not_or]
        exact ⟨fun h => hb h.symm, hno⟩
      · exact hline.imp (fun h => by rw [h]) fun h => by rw [h, List.cons_append]

/-- Without the line break. -/
def chompBytes (l : List UInt8) : List UInt8 := if l.getLast? = some 10 then l.dropLast else l

theorem chomp_map (l : List UInt8) :
    chomp (l.map Char.ofUInt8) = (chompBytes l).map Char.ofUInt8 := by
  have hlast : (l.map Char.ofUInt8).getLast? = some '\n' ↔ l.getLast? = some 10 := by
    rw [List.getLast?_map, Option.map_eq_some_iff]
    constructor
    · rintro ⟨b, hb, hc⟩
      rw [hb, ← toUInt8_ofUInt8 b, hc]
      rfl
    · intro hl
      exact ⟨10, hl, rfl⟩
  unfold chomp chompBytes
  by_cases hl : l.getLast? = some 10
  · rw [if_pos (hlast.mpr hl), if_pos hl, List.map_dropLast]
  · rw [if_neg fun h => hl (hlast.mp h), if_neg hl]

theorem chompBytes_start (l : List UInt8) : chompBytes l <+: l := by
  unfold chompBytes
  split
  · exact List.dropLast_prefix l
  · exact List.prefix_refl l

/-- A line break that is last is gone. -/
theorem chompBytes_break {l line : List UInt8} (hno : 10 ∉ line) (hl : l <+: line ++ [10]) :
    10 ∉ chompBytes l := by
  obtain rfl | hstart := List.prefix_concat_iff.mp hl
  · rw [chompBytes, if_pos List.getLast?_concat, List.dropLast_concat]
    exact hno
  · intro h
    exact hno (hstart.subset ((chompBytes_start l).subset h))

/-- The address that some bytes give. -/
theorem getDevIp_of_cstr (buf : List UInt8) (pipe : Option (List UInt8)) {l : List UInt8}
    (h : (match pipe with
      | none => some ""
      | some stream => cstr (fgets buf 1024 stream)) = some (ofBytes l)) :
    getDevIp buf pipe = some (if (chompBytes l).length < 7 then "" else ofBytes (chompBytes l)) := by
  unfold getDevIp
  rw [h]
  show some (if (chomp (ofBytes l).toList).length < 7 then "" else String.ofList (chomp (ofBytes l).toList))
    = _
  rw [toList_ofBytes, chomp_map, List.length_map]
  rfl

/-- The buffer after a line has been read. -/
theorem fgets_eq (buf : List UInt8) {stream : List UInt8} (hs : stream ≠ []) :
    ∃ junk, fgets buf 1024 stream = fgetsLine 1023 stream ++ 0 :: junk := by
  refine ⟨buf.drop (fgetsLine 1023 stream ++ [0]).length, ?_⟩
  rw [fgets, if_neg hs, splice, List.take_zero, List.nil_append, Nat.zero_add, List.append_assoc]
  rfl

/-- An address that `get_dev_ip` can give: a C string that fits the buffer, without a line break, and empty or of at
    least 7 characters. -/
structure DevAddr (ip : String) : Prop where
  cstring : CString ip
  short : (bytes ip).length ≤ 1023
  line : 10 ∉ bytes ip
  form : ip = "" ∨ 7 ≤ (bytes ip).length

theorem devAddr_empty : DevAddr "" :=
  ⟨⟨by simp [Narrow], by simp [bytes]⟩, by simp, by simp [bytes], .inl rfl⟩

theorem getDevIp_devAddr {pipe : Option (List UInt8)} (hpipe : pipe ≠ some []) :
    ∃ ip, getDevIp buf pipe = some ip ∧ DevAddr ip := by
  cases pipe with
  | none => exact ⟨"", rfl, devAddr_empty⟩
  | some stream =>
      have hstream : stream ≠ [] := fun h => hpipe (congrArg some h)
      obtain ⟨junk, hbuf⟩ := fgets_eq buf hstream
      obtain ⟨line, hno, hline⟩ := fgetsLine_break 1023 stream
      have hlen := length_fgetsLine 1023 stream
      have hread := getDevIp_of_cstr buf (some stream) (l := (fgetsLine 1023 stream).takeWhile (· != 0))
        (by dsimp only; rw [hbuf, cstr_append_zero])
      generalize fgetsLine 1023 stream = l at hline hlen hread
      -- what is left is a part of what was read
      have hcstr := cstring_takeWhile l
      have htake : l.takeWhile (· != 0) <+: l := List.takeWhile_prefix _
      have hchomp := chompBytes_start (l.takeWhile (· != 0))
      have hbreak : 10 ∉ chompBytes (l.takeWhile (· != 0)) := by
        refine chompBytes_break hno (htake.trans ?_)
        obtain rfl | rfl := hline
        · exact List.prefix_append _ _
        · exact List.prefix_refl _
      rw [hread]
      split
      · exact ⟨"", rfl, devAddr_empty⟩
      · rename_i hlong
        refine ⟨_, rfl, ⟨narrow_ofBytes _, ?_⟩, ?_, ?_, .inr ?_⟩
        · have hnul := hcstr.noNul
          rw [bytes_ofBytes] at hnul ⊢
          exact fun h => hnul (hchomp.subset h)
        · rw [bytes_ofBytes]
          exact (hchomp.trans htake).length_le.trans hlen
        · rw [bytes_ofBytes]
          exact hbreak
        · rw [bytes_ofBytes]
          omega

/-- **The address**, if the pipe says anything, or cannot be opened. -/
theorem getDevIp_some {pipe : Option (List UInt8)} (hpipe : pipe ≠ some []) :
    ∃ ip, getDevIp buf pipe = some ip ∧ CString ip ∧ (bytes ip).length ≤ 1023 ∧ 10 ∉ bytes ip ∧
      (ip = "" ∨ 7 ≤ (bytes ip).length) := by
  obtain ⟨ip, hip, haddr⟩ := getDevIp_devAddr hpipe
  exact ⟨ip, hip, haddr.cstring, haddr.short, haddr.line, haddr.form⟩

theorem getDevIp_line : ∃ ip,
    getDevIp (List.replicate 1024 255) (some (bytes "192.168.137.101\n")) = some ip ∧ CString ip ∧
      (bytes ip).length ≤ 1023 ∧ 10 ∉ bytes ip ∧ (ip = "" ∨ 7 ≤ (bytes ip).length) :=
  getDevIp_some (by decide +kernel)

/-- **The stack.** If the pipe says nothing, any address can come out of what is in the buffer. -/
theorem getDevIp_silent {ip : String} (hip : CString ip) (hlen : 7 ≤ (bytes ip).length)
    (hshort : (bytes ip).length ≤ 1023) (hno : 10 ∉ bytes ip) :
    ∃ buf, buf.length = 1024 ∧ getDevIp buf (some []) = some ip := by
  refine ⟨bytes ip ++ 0 :: List.replicate (1023 - (bytes ip).length) 0, ?_, ?_⟩
  · rw [List.length_append, List.length_cons, List.length_replicate]
    omega
  · have hchomp : chompBytes (bytes ip) = bytes ip := by
      rw [chompBytes, if_neg fun h => hno (List.mem_of_getLast? h)]
    rw [getDevIp_of_cstr _ _ (l := bytes ip), hchomp, if_neg (by omega), ofBytes_bytes hip.narrow]
    dsimp only
    rw [fgets, if_pos rfl, cstr_terminated hip, ofBytes_bytes hip.narrow]

end DlsSdk
