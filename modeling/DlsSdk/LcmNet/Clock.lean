import DlsSdk.LcmNet.Media
import Mathlib.Data.List.Perm.Basic

/-!
# `LcmNet.Clock` — the clock follows the messages

`lcm_net_pull` sets the system clock to the message's second if the two are more than a second apart, in
either direction. Of all that a pull does this is the only thing that touches the clock, so over the clock a
sequence of pulls is a fold of `adopt` over the messages' seconds (`pulls_clock`).

* `inStep_caught` — where no message is behind, a clock that has moved stays within a second of every message
  seen so far.
* `clock_forward_iff` — the clock only moves forward and ends at the newest time, in whatever order the
  messages come, exactly if no message is more than a second behind the clock or behind a message that moves
  it.
-/

namespace DlsSdk

/-- The clock `c` (in microseconds) after a message of the second `s`. -/
def adopt (c s : Int) : Int := if (s - c / 1000000).natAbs > 1 then s * 1000000 else c

theorem pull_clock (h : Host) (msg : ExlcmLcmJyt) :
    (lcmNetPull h msg).clock = adopt h.clock msg.timeSs.toInt := by
  show (pullRelay (pullClock (pullRegisters h msg) msg) msg).clock = _
  have hrelay (g : Host) : (pullRelay g msg).clock = g.clock := by
    unfold pullRelay
    split <;> rfl
  rw [hrelay]
  unfold pullClock adopt
  show (if (msg.timeSs.toInt - h.clock / 1000000).natAbs > 1 then _ else _ : Host).clock = _
  split <;> rfl

/-- The seconds of the messages. -/
def seconds (msgs : List ExlcmLcmJyt) : List Int := msgs.map fun msg => msg.timeSs.toInt

theorem pulls_clock (h : Host) (msgs : List ExlcmLcmJyt) :
    (msgs.foldl lcmNetPull h).clock = (seconds msgs).foldl adopt h.clock := by
  induction msgs generalizing h with
  | nil => rfl
  | cons msg msgs ih =>
      rw [List.foldl_cons, ih, pull_clock]
      rfl

/-- The newest of the clock and the messages. -/
def newest (c : Int) (ss : List Int) : Int := ss.foldl (fun c s => max c (s * 1000000)) c

theorem newest_le_iff {c b : Int} {ss : List Int} :
    newest c ss ≤ b ↔ c ≤ b ∧ ∀ s ∈ ss, s * 1000000 ≤ b := by
  induction ss generalizing c with
  | nil => simp [newest]
  | cons s ss ih =>
      show newest (max c (s * 1000000)) ss ≤ b ↔ _
      rw [ih, Int.max_le, List.forall_mem_cons, and_assoc]

theorem le_newest (c : Int) (ss : List Int) : c ≤ newest c ss := (newest_le_iff.mp (Int.le_refl _)).1

theorem mem_le_newest {s : Int} {ss : List Int} (c : Int) (hs : s ∈ ss) : s * 1000000 ≤ newest c ss :=
  (newest_le_iff.mp (Int.le_refl _)).2 s hs

/-- No message is more than a second behind the clock's second `t`, nor behind a message that is more than a
    second ahead of it. -/
def InStep (t : Int) (ss : List Int) : Prop := ∀ s ∈ ss, t ≤ s + 1 ∧ ∀ a ∈ ss, t + 1 < a → a ≤ s + 1

/-- What is true of the clock `c'` that was `c` before the messages `pre`, all of them among `ss`. -/
structure Caught (c : Int) (ss pre : List Int) (c' : Int) : Prop where
  le : c ≤ c'
  from_ahead : c' = c ∨ ∃ a ∈ ss, c / 1000000 + 1 < a ∧ c' = a * 1000000
  seen : ∀ s ∈ pre, s * 1000000 ≤ c' + 1000000

section
variable {c c' s : Int} {ss pre l : List Int}

/-- **One message**: the clock does not go back, and has caught up with the message. -/
theorem Caught.adopt (hstep : InStep (c / 1000000) ss) (hs : s ∈ ss) (hc : Caught c ss pre c') :
    c' ≤ adopt c' s ∧ Caught c ss (pre ++ [s]) (adopt c' s) := by
  obtain ⟨hbehind, hahead⟩ := hstep s hs
  have hle := hc.le
  unfold DlsSdk.adopt
  by_cases hfar : (s - c' / 1000000).natAbs > 1
  · rw [if_pos hfar]
    have hmoves : c / 1000000 + 1 < s ∧ c' ≤ s * 1000000 := by
      rcases hc.from_ahead with rfl | ⟨a, ha, hca, rfl⟩
      · omega
      · -- the clock shows a message that was ahead, and this one would be behind or ahead of it
        have hback := hahead a ha hca
        have hfore := (hstep a ha).2 s hs
        omega
    refine ⟨hmoves.2, Int.le_trans hle hmoves.2, .inr ⟨s, hs, hmoves.1, rfl⟩, ?_⟩
    intro r hr
    rcases List.mem_append.mp hr with hr | hr
    · have := hc.seen r hr
      omega
    · obtain rfl := List.mem_singleton.mp hr
      omega
  · rw [if_neg hfar]
    refine ⟨Int.le_refl _, hle, hc.from_ahead, ?_⟩
    intro r hr
    rcases List.mem_append.mp hr with hr | hr
    · exact hc.seen r hr
    · obtain rfl := List.mem_singleton.mp hr
      omega

/-- **All messages.** -/
theorem inStep_caught (hstep : InStep (c / 1000000) ss) (hl : ∀ s ∈ l, s ∈ ss) :
    Caught c ss l (l.foldl DlsSdk.adopt c) := by
  induction l using List.reverseRecOn with
  | nil => exact ⟨Int.le_refl c, .inl rfl, fun _ hs => absurd hs List.not_mem_nil⟩
  | append_singleton l s ih =>
      rw [List.foldl_append]
      exact ((ih fun r hr => hl r (List.mem_append_left _ hr)).adopt hstep (hl s (by simp))).2

/-- A clock that has caught up with all messages shows the newest time, to within a second. -/
theorem Caught.newest (hc : Caught c ss l c') (hl : ∀ s ∈ ss, s ∈ l) :
    (c' - DlsSdk.newest c ss).natAbs ≤ 1000000 := by
  have hupper : DlsSdk.newest c ss ≤ c' + 1000000 :=
    newest_le_iff.mpr ⟨by have := hc.le; omega, fun s hs => hc.seen s (hl s hs)⟩
  have hlower : c' ≤ DlsSdk.newest c ss := by
    rcases hc.from_ahead with rfl | ⟨a, ha, -, rfl⟩
    · exact le_newest _ _
    · exact mem_le_newest c ha
  omega

end

/-! ## The device -/

/-- No pull sets the clock back. -/
def Forward (h : Host) (msgs : List ExlcmLcmJyt) : Prop :=
  ∀ pre msg, pre ++ [msg] <+: msgs →
    (pre.foldl lcmNetPull h).clock ≤ (lcmNetPull (pre.foldl lcmNetPull h) msg).clock

/-- Where no pull sets the clock back, the first message is not behind the clock. -/
theorem Forward.head {h : Host} {msg : ExlcmLcmJyt} {msgs : List ExlcmLcmJyt}
    (hf : Forward h (msg :: msgs)) : h.time ≤ msg.timeSs.toInt + 1 := by
  by_contra hbehind
  have hforward := hf [] msg (List.prefix_append [msg] _)
  rw [pull_clock, List.foldl_nil, adopt] at hforward
  unfold Host.time at hbehind
  rw [if_pos (by omega)] at hforward
  omega

theorem Forward.tail {h : Host} {msg : ExlcmLcmJyt} {msgs : List ExlcmLcmJyt}
    (hf : Forward h (msg :: msgs)) : Forward (lcmNetPull h msg) msgs := by
  rintro pre m ⟨post, rfl⟩
  exact hf (msg :: pre) m ⟨post, rfl⟩

/-- A message ahead of the clock moves it. -/
theorem pull_time_of_ahead {h : Host} {msg : ExlcmLcmJyt} (ha : h.time + 1 < msg.timeSs.toInt) :
    (lcmNetPull h msg).time = msg.timeSs.toInt := by
  unfold Host.time at ha ⊢
  rw [pull_clock, adopt, if_pos (by omega)]
  omega

/-- **When the clock only moves forward.** For every device and every list of messages: in every order of
    pulling them no pull sets the clock back, and the clock ends within a second of the newest time, if and
    only if no message is more than a second behind the clock, or behind a message that is more than a second
    ahead of the clock. -/
theorem clock_forward_iff (h : Host) (msgs : List ExlcmLcmJyt) :
    (∀ l, l.Perm msgs → Forward h l ∧
      ((l.foldl lcmNetPull h).clock - newest h.clock (seconds msgs)).natAbs ≤ 1000000) ↔
      InStep h.time (seconds msgs) := by
  constructor
  · intro hall s hs
    obtain ⟨m, hm, rfl⟩ := List.mem_map.mp hs
    constructor
    · -- a message behind the clock, pulled first, sets it back
      exact (hall _ (List.perm_cons_erase hm).symm).1.head
    · intro a ha hahead
      obtain ⟨ma, hma, rfl⟩ := List.mem_map.mp ha
      by_cases heq : m = ma
      · rw [heq]
        omega
      · -- the message that is ahead moves the clock, the other one comes next
        have hm' : m ∈ msgs.erase ma := (List.mem_erase_of_ne heq).mpr hm
        have hperm : (ma :: m :: (msgs.erase ma).erase m).Perm msgs :=
          ((List.perm_cons_erase hm').symm.cons ma).trans (List.perm_cons_erase hma).symm
        have hnext := (hall _ hperm).1.tail.head
        rw [pull_time_of_ahead hahead] at hnext
        exact hnext
  · intro hstep l hperm
    have hmem : ∀ s, s ∈ seconds l ↔ s ∈ seconds msgs := fun s => (hperm.map _).mem_iff
    constructor
    · rintro pre msg ⟨post, rfl⟩
      have hpre : ∀ s ∈ seconds pre, s ∈ seconds msgs := by
        intro s hs
        refine (hmem s).mp ?_
        unfold seconds at hs ⊢
        rw [List.map_append, List.map_append]
        exact List.mem_append_left _ (List.mem_append_left _ hs)
      have hmsg : msg.timeSs.toInt ∈ seconds msgs :=
        (hmem _).mp (List.mem_map_of_mem (by simp))
      rw [pull_clock, pulls_clock]
      exact ((inStep_caught hstep hpre).adopt hstep hmsg).1
    · rw [pulls_clock]
      exact (inStep_caught hstep fun s hs => (hmem s).mp hs).newest fun s hs => (hmem s).mpr hs

/-- **Set back.** A message three seconds behind the clock sets it back by three seconds. -/
theorem clock_set_back :
    (lcmNetPull Wlan.board1 { Wlan.callOf .idle .idle with timeSs := 1559098677 }).clock =
      Wlan.board1.clock - 3000000 := by
  decide

end DlsSdk
