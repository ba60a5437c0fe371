import DlsSdk.LcmNet.Media
import DlsSdk.LcmNet.Timeout
import Mathlib.Data.List.Chain

/-!
# `LcmNet.Patience` — how long the two ends of a call wait

Requester and replier enter `STATE_CALL` at one reading of the clock and then look at it once a step. What
they count is a `Meter`: a number and the reading the next one is compared with. Both count a reading more
than a second past that one; the requester then compares with the reading it counted (`Meter.reqer`), the
replier forever with the one it entered at (`Meter.reper`), as it does not write `wait_old`.

* `reqerRead_metered`, `reperRead_metered` — a device in `STATE_CALL` is its meter, up to the limit of 60.
* `spaced_iff` — the two meters show the same, up to the limit, if and only if the readings that count are
  themselves more than a second apart.
* `time_out_alike_iff` — so do the two devices; and then a count takes two seconds.
-/

namespace DlsSdk

/-! ## The meters -/

/-- How many readings were counted, and the reading (in seconds) the next is compared with. -/
structure Meter where
  count : Nat
  old : Int
  deriving DecidableEq, Repr

/-- The requester's meter moves its mark. -/
def Meter.reqer (m : Meter) (t : Int) : Meter := if t - m.old > 1 then ⟨m.count + 1, t⟩ else m

/-- The replier's does not. -/
def Meter.reper (m : Meter) (t : Int) : Meter := if t - m.old > 1 then ⟨m.count + 1, m.old⟩ else m

theorem Meter.reqer_count (m : Meter) (t : Int) :
    (m.reqer t).count = if t - m.old > 1 then m.count + 1 else m.count := by
  unfold Meter.reqer
  split <;> rfl

theorem Meter.reqer_old (m : Meter) (t : Int) : (m.reqer t).old = if t - m.old > 1 then t else m.old := by
  unfold Meter.reqer
  split <;> rfl

theorem Meter.reper_count (m : Meter) (t : Int) :
    (m.reper t).count = if t - m.old > 1 then m.count + 1 else m.count := by
  unfold Meter.reper
  split <;> rfl

theorem Meter.reper_old (m : Meter) (t : Int) : (m.reper t).old = m.old := by
  unfold Meter.reper
  split <;> rfl

/-- The readings that are more than a second past the entry at `e`. -/
def late (e : Int) (ts : List Int) : List Int := ts.filter fun t => t - e > 1

/-- Up to the limit the late readings are more than a second apart. -/
def Spaced (e : Int) (ts : List Int) : Prop := ((late e ts).take 61).IsChain fun s t => t - s > 1

instance instDecidableSpaced (e : Int) (ts : List Int) : Decidable (Spaced e ts) :=
  inferInstanceAs (Decidable (List.IsChain _ _))

variable {e t : Int} {ts : List Int}

theorem late_snoc_of_late (ht : t - e > 1) : late e (ts ++ [t]) = late e ts ++ [t] := by
  unfold late
  rw [List.filter_append, List.filter_cons_of_pos (by simpa using ht), List.filter_nil]

theorem late_snoc_of_early (ht : ¬ t - e > 1) : late e (ts ++ [t]) = late e ts := by
  unfold late
  rw [List.filter_append, List.filter_cons_of_neg (by simpa using ht), List.filter_nil, List.append_nil]

theorem Spaced.of_prefix {pre : List Int} (h : Spaced e ts) (hp : pre <+: ts) : Spaced e pre :=
  List.IsChain.prefix h ((hp.filter _).take 61)

/-- One more late reading below the limit. -/
theorem spaced_snoc_iff (ht : t - e > 1) (hl : (late e ts).length ≤ 60) :
    Spaced e (ts ++ [t]) ↔ Spaced e ts ∧ t - (late e ts).getLastD e > 1 := by
  unfold Spaced
  rw [late_snoc_of_late ht, List.take_of_length_le (by simp; omega), List.take_of_length_le (by omega),
    List.isChain_append]
  cases hlast : (late e ts).getLast? with
  | none =>
      have hnil : late e ts = [] := List.getLast?_eq_none_iff.mp hlast
      simp [hnil, ht]
  | some s => simp [List.getLastD_eq_getLast?, hlast]

/-- One more reading that is not late, or comes when the limit is reached. -/
theorem spaced_snoc_of_not (h : ¬ t - e > 1 ∨ 61 ≤ (late e ts).length) :
    Spaced e (ts ++ [t]) ↔ Spaced e ts := by
  unfold Spaced
  by_cases ht : t - e > 1
  · have hfull : 61 ≤ (late e ts).length := h.resolve_left fun hn => hn ht
    rw [late_snoc_of_late ht, List.take_append_of_le_length hfull]
  · rw [late_snoc_of_early ht]

/-- The replier counts the late readings. -/
theorem foldl_reper (e : Int) (ts : List Int) : ts.foldl Meter.reper ⟨0, e⟩ = ⟨(late e ts).length, e⟩ := by
  induction ts using List.reverseRecOn with
  | nil => rfl
  | append_singleton ts t ih =>
      rw [List.foldl_append, List.foldl_cons, List.foldl_nil, ih, Meter.reper]
      by_cases ht : t - e > 1
      · rw [if_pos ht, late_snoc_of_late ht]
        simp
      · rw [if_neg ht, late_snoc_of_early ht]

/-- The requester's mark is never before the entry, and two seconds further for every count. -/
theorem reqer_old_le (e : Int) (ts : List Int) :
    2 * ((ts.foldl Meter.reqer ⟨0, e⟩).count : Int) ≤ (ts.foldl Meter.reqer ⟨0, e⟩).old - e := by
  induction ts using List.reverseRecOn with
  | nil => simp
  | append_singleton ts t ih =>
      rw [List.foldl_append, List.foldl_cons, List.foldl_nil]
      generalize ts.foldl Meter.reqer ⟨0, e⟩ = m at ih ⊢
      unfold Meter.reqer
      by_cases ht : t - m.old > 1
      · rw [if_pos ht]
        push_cast
        omega
      · rw [if_neg ht]
        exact ih

theorem reqer_mono (m : Meter) (t : Int) : m.count ≤ (m.reqer t).count := by
  unfold Meter.reqer
  split
  · exact Nat.le_succ _
  · exact le_refl _

/-- Its mark is a reading. -/
theorem reqer_old_mem (e : Int) (ts : List Int) : (ts.foldl Meter.reqer ⟨0, e⟩).old ∈ e :: ts := by
  induction ts using List.reverseRecOn with
  | nil => exact List.mem_cons_self
  | append_singleton ts t ih =>
      rw [List.foldl_append, List.foldl_cons, List.foldl_nil]
      generalize ts.foldl Meter.reqer ⟨0, e⟩ = m at ih ⊢
      unfold Meter.reqer
      split
      · simp
      · rw [← List.cons_append]
        exact List.mem_append_left _ ih

/-- A count takes two seconds. -/
theorem reqer_count_le (hs : (e :: ts).Pairwise (· ≤ ·)) :
    2 * ((ts.foldl Meter.reqer ⟨0, e⟩).count : Int) ≤ ts.getLastD e - e := by
  have hlast : (ts.foldl Meter.reqer ⟨0, e⟩).old ≤ ts.getLastD e := by
    rw [← List.getLast_eq_getLastD (List.cons_ne_nil e ts)]
    exact hs.rel_getLast (reqer_old_mem e ts)
  have hold := reqer_old_le e ts
  omega

/-- Over readings that are spaced the requester counts the late ones too. -/
theorem foldl_reqer (hs : Spaced e ts) :
    if (late e ts).length ≤ 61 then
      ts.foldl Meter.reqer ⟨0, e⟩ = ⟨(late e ts).length, (late e ts).getLastD e⟩
    else 61 ≤ (ts.foldl Meter.reqer ⟨0, e⟩).count := by
  induction ts using List.reverseRecOn with
  | nil => exact rfl
  | append_singleton ts t ih =>
      have hbefore := ih (hs.of_prefix (List.prefix_append _ _))
      have hold := reqer_old_le e ts
      rw [List.foldl_append, List.foldl_cons, List.foldl_nil]
      generalize ts.foldl Meter.reqer ⟨0, e⟩ = m at hbefore hold ⊢
      by_cases ht : t - e > 1
      · by_cases hl : (late e ts).length ≤ 60
        · -- below the limit: it is late for the mark as well
          have hmark := ((spaced_snoc_iff ht hl).mp hs).2
          rw [if_pos (by omega)] at hbefore
          subst hbefore
          rw [late_snoc_of_late ht, Meter.reqer, if_pos hmark, if_pos (by simp; omega)]
          simp
        · have hcount : 61 ≤ m.count := by
            by_cases h61 : (late e ts).length ≤ 61
            · rw [if_pos h61] at hbefore
              rw [hbefore]
              show 61 ≤ (late e ts).length
              omega
            · rw [if_neg h61] at hbefore
              exact hbefore
          rw [late_snoc_of_late ht, if_neg (by simp; omega)]
          exact hcount.trans (reqer_mono m t)
      · -- not late, so not past the mark either
        have hsame : m.reqer t = m := by
          unfold Meter.reqer
          rw [if_neg (by omega)]
        rw [late_snoc_of_early ht, hsame]
        exact hbefore

/-- **The meters agree up to the limit** after every reading if and only if the late readings are spaced. -/
theorem spaced_iff (e : Int) (ts : List Int) :
    (∀ pre, pre <+: ts →
      min (pre.foldl Meter.reqer ⟨0, e⟩).count 61 = min (pre.foldl Meter.reper ⟨0, e⟩).count 61) ↔
      Spaced e ts := by
  constructor
  · intro hall
    induction ts using List.reverseRecOn with
    | nil => exact List.isChain_nil
    | append_singleton ts t ih =>
        have hbefore := ih fun pre hp => hall pre (hp.trans (List.prefix_append _ _))
        by_cases hskip : ¬ t - e > 1 ∨ 61 ≤ (late e ts).length
        · exact (spaced_snoc_of_not hskip).mpr hbefore
        · obtain ⟨ht, hl⟩ := not_or.mp hskip
          have ht : t - e > 1 := not_not.mp ht
          have hlast := hall (ts ++ [t]) (List.prefix_refl _)
          have hm := foldl_reqer hbefore
          rw [if_pos (by omega)] at hm
          rw [foldl_reper, List.foldl_append, hm, late_snoc_of_late ht] at hlast
          refine (spaced_snoc_iff ht (by omega)).mpr ⟨hbefore, ?_⟩
          -- the replier has counted this reading, so the requester must have
          by_contra hmark
          simp only [List.foldl_cons, List.foldl_nil, Meter.reqer, if_neg hmark, List.length_append,
            List.length_cons, List.length_nil] at hlast
          omega
  · intro hs pre hp
    have hm := foldl_reqer (hs.of_prefix hp)
    rw [foldl_reper]
    by_cases hl : (late e pre).length ≤ 61
    · rw [if_pos hl] at hm
      rw [hm]
    · rw [if_neg hl] at hm
      show min _ 61 = min (late e pre).length 61
      omega

/-! ## The devices -/

/-- A device that has the role `role`, and to which the registers show the states `q` and `p`. -/
structure Ready (role : LcmRole) (q p : LcmState) (h : Host) : Prop where
  role : h.self.lcmRole = role
  waitData : h.self.waitData = true
  reqState : h.self.reqState = q
  repState : h.self.repState = p

theorem Ready.tick {role : LcmRole} {q p : LcmState} {h : Host} (hr : Ready role q p h) (c : Int) :
    Ready role q p (h.tick c) := ⟨hr.role, hr.waitData, hr.reqState, hr.repState⟩

/-- The device is its meter: it waits, with the meter's count and mark, or it has counted past 60 and left. -/
inductive Metered (role : LcmRole) (q p : LcmState) (h : Host) (m : Meter) : Prop where
  | waiting (hm : m.count ≤ 60) (hr : Ready role q p h) (hs : h.self.lcmState = .call)
      (hc : h.self.waitConut.toNat = m.count) (ho : h.self.waitOld = m.old)
  | left (hm : 60 < m.count) (hr : h.self.lcmRole = .idle) (hs : h.self.lcmState = .work)
      (hc : h.self.waitConut.toNat = 61)

variable {role : LcmRole} {q p : LcmState} {h g : Host} {m : Meter}

theorem Metered.count_eq (hm : Metered role q p h m) : h.self.waitConut.toNat = min m.count 61 := by
  cases hm with
  | waiting hle _ _ hc _ => omega
  | left hgt _ _ hc => omega

theorem Metered.call_iff (hm : Metered role q p h m) : h.self.lcmState = .call ↔ m.count ≤ 60 := by
  cases hm with
  | waiting hle _ hs _ _ => exact ⟨fun _ => hle, fun _ => hs⟩
  | left hgt _ hs _ =>
      rw [hs]
      exact ⟨fun hc => absurd hc (by simp), fun hle => absurd hle (by omega)⟩

theorem counted_toNat (hc : h.self.waitConut.toNat ≤ 60) : h.counted.toNat =
    if h.time - h.self.waitOld > 1 then h.self.waitConut.toNat + 1 else h.self.waitConut.toNat := by
  unfold Host.counted
  split
  · rw [UInt16.toNat_add]
    simp
    omega
  · rfl

/-- **A wait moves the meter**, if it counts as the meter does and gives up past 60. -/
theorem Metered.wait {m' : Meter} (hr : Ready role q p h) (hc : h.self.waitConut.toNat = m.count)
    (hm : m.count ≤ 60) (hcount : h.counted.toNat = m'.count)
    (hg : g.self = { h.self with
      waitNow := h.time
      waitConut := h.counted
      waitOld := m'.old
      lcmState := if h.counted > 60 then .work else .call
      lcmRole := if h.counted > 60 then .idle else h.self.lcmRole }) : Metered role q p g m' := by
  have hgt : h.counted > 60 ↔ 60 < m'.count := by
    rw [gt_iff_lt, UInt16.lt_iff_toNat_lt, hcount]
    rfl
  have hle : m'.count ≤ 61 := by
    rw [← hcount, counted_toNat (by omega)]
    split <;> omega
  by_cases hover : h.counted > 60
  · refine .left (hgt.mp hover) ?_ ?_ ?_
    · rw [hg]
      exact if_pos hover
    · rw [hg]
      exact if_pos hover
    · rw [hg]
      show h.counted.toNat = 61
      have := hgt.mp hover
      omega
  · refine .waiting (by have := mt hgt.mpr hover; omega) ⟨?_, ?_, ?_, ?_⟩ ?_ ?_ ?_
    · rw [hg]
      exact (if_neg hover).trans hr.role
    · rw [hg]
      exact hr.waitData
    · rw [hg]
      exact hr.reqState
    · rw [hg]
      exact hr.repState
    · rw [hg]
      exact if_neg hover
    · rw [hg]
      exact hcount
    · rw [hg]

/-- One step of `lcm_net_call_loop` in which the requester reads the clock `c`. -/
def Host.reqerRead (h : Host) (c : Int) : Host := lcmNetCallLoop (h.tick c)

/-- One step in which the replier does: it sleeps half a second first. -/
def Host.reperRead (h : Host) (c : Int) : Host := lcmNetCallLoop (h.tick (c - 500 * 1000))

/-- Whoever has left the call loop stays as it is. -/
theorem callLoop_idle {h : Host} (hr : h.self.lcmRole = .idle) : lcmNetCallLoop h = h := by
  unfold lcmNetCallLoop
  rw [hr]

theorem reqerRead_metered (hm : Metered .reqer .call .idle h m) (c : Int) :
    Metered .reqer .call .idle (h.reqerRead c) (m.reqer (c / 1000000)) := by
  unfold Host.reqerRead
  cases hm with
  | left hgt hr hs hc =>
      rw [callLoop_idle (h := h.tick c) hr]
      exact .left (Nat.lt_of_lt_of_le hgt (reqer_mono m _)) hr hs hc
  | waiting hle hr hs hc ho =>
      have hwait : lcmNetCallLoop (h.tick c) = reqerWait (h.tick c) :=
        callLoop_reqerWait hr.role hr.waitData (hr.reqState.trans_ne (by simp))
          (hr.repState.trans_ne (by simp))
      rw [hwait, reqerWait_eq]
      refine .wait (hr.tick c) hc hle ?_ ?_
      · rw [counted_toNat (show (h.tick c).self.waitConut.toNat ≤ 60 from hc.trans_le hle), m.reqer_count,
          ← ho, ← hc]
        rfl
      · rw [m.reqer_old, ← ho, ← hs]
        rfl

theorem reperRead_metered (hm : Metered .reper .call .call h m) (c : Int) :
    Metered .reper .call .call (h.reperRead c) (m.reper (c / 1000000)) := by
  unfold Host.reperRead
  cases hm with
  | left hgt hr hs hc =>
      rw [callLoop_idle (h := h.tick (c - 500 * 1000)) hr]
      refine .left (Nat.lt_of_lt_of_le hgt ?_) hr hs hc
      unfold Meter.reper
      split
      · exact Nat.le_succ _
      · exact le_refl _
  | waiting hle hr hs hc ho =>
      have hwait : lcmNetCallLoop (h.tick (c - 500 * 1000)) = reperWait (h.tick (c - 500 * 1000)) :=
        callLoop_reperWait hr.role hr.waitData (hr.reqState.trans_ne (by simp))
      -- after the sleep the clock shows `c`
      have hclock : (h.tick (c - 500 * 1000)).usleep (500 * 1000) = h.tick c := by
        simp [Host.tick, Host.usleep]
      rw [hwait, reperWait_eq, hclock]
      refine .wait (hr.tick c) hc hle ?_ ?_
      · rw [counted_toNat (show (h.tick c).self.waitConut.toNat ≤ 60 from hc.trans_le hle), m.reper_count,
          ← ho, ← hc]
        rfl
      · rw [m.reper_old, ← ho, ← hs]
        rfl

theorem reqerReads_metered (hm : Metered .reqer .call .idle h m) (cs : List Int) :
    Metered .reqer .call .idle (cs.foldl Host.reqerRead h) ((cs.map (· / 1000000)).foldl Meter.reqer m) := by
  induction cs generalizing h m with
  | nil => exact hm
  | cons c cs ih => exact ih (reqerRead_metered hm c)

theorem reperReads_metered (hm : Metered .reper .call .call h m) (cs : List Int) :
    Metered .reper .call .call (cs.foldl Host.reperRead h) ((cs.map (· / 1000000)).foldl Meter.reper m) := by
  induction cs generalizing h m with
  | nil => exact hm
  | cons c cs ih => exact ih (reperRead_metered hm c)

/-! ## Entering together -/

/-- The requester that sees its own request enters with its meter at 0 and the mark at the entry. -/
theorem reqer_enters (hr : Ready .reqer .call .idle h) (ha : h.self.reqAddr = h.self.slave) :
    Metered .reqer .call .idle (lcmNetIdleLoop h) ⟨0, h.time⟩ := by
  have henter : lcmNetIdleLoop h =
      { h with self.waitConut := 0, self.waitOld := h.time, self.lcmState := .call } := by
    have hidle : ¬ (h.self.reqState = LcmState.idle ∧ h.self.repState = LcmState.idle) := by
      rw [hr.reqState]
      simp
    unfold lcmNetIdleLoop
    rw [hr.role]
    dsimp only
    rw [if_pos hr.waitData, if_neg hidle, if_pos ⟨ha, hr.reqState⟩]
  rw [henter]
  exact .waiting (Nat.zero_le _) ⟨hr.role, hr.waitData, hr.reqState, hr.repState⟩ rfl rfl rfl

/-- So does the replier that sees its own answer. -/
theorem reper_enters (hr : Ready .reper .call .call h) (ha : h.self.repAddr = h.self.slave) :
    Metered .reper .call .call (lcmNetIdleLoop h) ⟨0, h.time⟩ := by
  have henter : lcmNetIdleLoop h =
      { h with self.waitConut := 0, self.waitOld := h.time, self.lcmState := .call } := by
    have hidle : ¬ (h.self.reqState = LcmState.call ∧ h.self.repState = LcmState.idle) := by
      rw [hr.repState]
      simp
    unfold lcmNetIdleLoop
    rw [hr.role]
    dsimp only
    rw [if_pos hr.waitData, if_neg hidle, if_pos ⟨ha, hr.repState⟩]
  rw [henter]
  exact .waiting (Nat.zero_le _) ⟨hr.role, hr.waitData, hr.reqState, hr.repState⟩ rfl rfl rfl

/-- The two devices show the same count, are both in `STATE_CALL` or both out of it, and have not counted
    more than one in two of the `secs` seconds since the entry. -/
def Alike (hq hp : Host) (secs : Int) : Prop :=
  hq.self.waitConut = hp.self.waitConut ∧ (hq.self.lcmState = .call ↔ hp.self.lcmState = .call) ∧
    2 * (hq.self.waitConut.toNat : Int) ≤ secs

/-- **When requester and replier time out alike.** They enter at the clock `c₀` and read it once a step. After
    every step they are alike if and only if the readings that are more than a second past the entry are,
    up to the 61st, more than a second apart from one another. -/
theorem time_out_alike_iff {hq hp : Host} {c₀ : Int} {cs : List Int} (hrq : Ready .reqer .call .idle hq)
    (haq : hq.self.reqAddr = hq.self.slave) (hrp : Ready .reper .call .call hp)
    (hap : hp.self.repAddr = hp.self.slave) (hcs : (c₀ :: cs).Pairwise (· ≤ ·)) :
    (∀ pre, pre <+: cs → Alike (pre.foldl Host.reqerRead (lcmNetIdleLoop (hq.tick c₀)))
        (pre.foldl Host.reperRead (lcmNetIdleLoop (hp.tick c₀)))
        (pre.getLastD c₀ / 1000000 - c₀ / 1000000)) ↔
      Spaced (c₀ / 1000000) (cs.map (· / 1000000)) := by
  have hmq (pre : List Int) : Metered .reqer .call .idle
      (pre.foldl Host.reqerRead (lcmNetIdleLoop (hq.tick c₀)))
      ((pre.map (· / 1000000)).foldl Meter.reqer ⟨0, c₀ / 1000000⟩) :=
    reqerReads_metered (reqer_enters (hrq.tick c₀) haq) pre
  have hmp (pre : List Int) : Metered .reper .call .call
      (pre.foldl Host.reperRead (lcmNetIdleLoop (hp.tick c₀)))
      ((pre.map (· / 1000000)).foldl Meter.reper ⟨0, c₀ / 1000000⟩) :=
    reperReads_metered (reper_enters (hrp.tick c₀) hap) pre
  rw [← spaced_iff]
  constructor
  · intro hall ts hts
    obtain ⟨pre, hpre, rfl⟩ := List.prefix_map_iff.mp hts
    obtain ⟨hcount, -, -⟩ := hall pre hpre
    exact (hmq pre).count_eq.symm.trans ((congrArg UInt16.toNat hcount).trans (hmp pre).count_eq)
  · intro hmeters pre hpre
    have hmin := hmeters _ (hpre.map (· / 1000000))
    refine ⟨?_, ?_, ?_⟩
    · exact UInt16.toNat_inj.mp ((hmq pre).count_eq.trans (hmin.trans (hmp pre).count_eq.symm))
    · rw [(hmq pre).call_iff, (hmp pre).call_iff]
      omega
    · have hsorted : ((c₀ :: pre).map (· / 1000000)).Pairwise (· ≤ ·) :=
        (hcs.sublist (hpre.sublist.cons_cons c₀)).map _ fun _ _ h => Int.ediv_le_ediv (by decide) h
      have hle := reqer_count_le hsorted
      rw [List.getLastD_map] at hle
      dsimp only at hle
      rw [(hmq pre).count_eq]
      omega

/-- Board 1 sees its own request, board 2 its own answer. -/
def Wlan.asking : Host := lcmNetPull (lcmNetTryReqer Wlan.board1) (Wlan.callOf .call .idle)

def Wlan.answering : Host :=
  lcmNetPull (lcmNetTryReper (Host.boot "wlan0" "192.168.137.192" "192.168.137.102" 1559098680000000))
    (Wlan.callOf .call .call)

theorem Wlan.asking_ready : Ready .reqer .call .idle Wlan.asking := ⟨rfl, rfl, rfl, rfl⟩

theorem Wlan.answering_ready : Ready .reper .call .call Wlan.answering := ⟨rfl, rfl, rfl, rfl⟩

/-- Two readings, two and four and a half seconds after the entry. -/
theorem time_out_alike_wlan : Alike
    ([1559098682000000, 1559098684500000].foldl Host.reqerRead
      (lcmNetIdleLoop (Wlan.asking.tick 1559098680000000)))
    ([1559098682000000, 1559098684500000].foldl Host.reperRead
      (lcmNetIdleLoop (Wlan.answering.tick 1559098680000000))) 4 :=
  (time_out_alike_iff Wlan.asking_ready rfl Wlan.answering_ready rfl
    (show [(1559098680000000 : Int), 1559098682000000, 1559098684500000].Pairwise (· ≤ ·) by decide)).mpr
    (by decide) _ (List.prefix_refl _)

/-- **The replier counts on.** Half a second after its first count it counts again; the requester does not. -/
theorem replier_counts_on :
    (Ready .reqer .call .idle Wlan.asking ∧ Wlan.asking.self.reqAddr = Wlan.asking.self.slave ∧
      Ready .reper .call .call Wlan.answering ∧ Wlan.answering.self.repAddr = Wlan.answering.self.slave ∧
      [(1559098680000000 : Int), 1559098682000000, 1559098682500000].Pairwise (· ≤ ·)) ∧
    ([1559098682000000, 1559098682500000].foldl Host.reqerRead
      (lcmNetIdleLoop (Wlan.asking.tick 1559098680000000))).self.waitConut = 1 ∧
    ([1559098682000000, 1559098682500000].foldl Host.reperRead
      (lcmNetIdleLoop (Wlan.answering.tick 1559098680000000))).self.waitConut = 2 := by
  refine ⟨⟨Wlan.asking_ready, rfl, Wlan.answering_ready, rfl, by decide⟩, ?_, ?_⟩
  · decide
  · decide

end DlsSdk
