import DlsSdk.LcmNet.System
import DlsSdk.Library.Ghost

/-!
# `LcmNet.Acknowledge` — what `wait_data` says of a slave's pushes

`lcm_net_push` clears `wait_data` and `lcm_net_pull` sets it: a push counts as not applied until a message
comes from the master. But any message does, also one that was on its way when the slave pushed, or that the
master sent before the push reached it.

The network runs beside its history. A device numbers its publications, from 1, and keeps the list of what it
has applied; a message is stamped with its sender and number and with what the sender had applied, and it is
marked as `crossed` as soon as it is in flight to a slave one of whose pushes the master has not applied
(`mark`).

* `crossed_iff` (in `Ledgers`) — a message to a slave is marked exactly if it was sent before the master had
  applied all that the slave has pushed by now.
* `acknowledged_iff` — `wait_data` means that the pushes are applied, and that the message that set it knows of
  them, in all states of a run exactly if no slave ever takes a marked message.
-/

namespace DlsSdk

open Network Wlan

/-! ## Histories -/

/-- The history of a device: who it is, how many publications it has made, the publications it has applied
    (their sender and number), and those that the sender of the message it took last had applied then. -/
structure Ledger (ι : Type) where
  who : ι
  made : Nat
  applied : List (ι × Nat)
  view : List (ι × Nat)

/-- The stamp of a message: its sender and number, what the sender had applied, and whether it has crossed a
    push of its receiver. -/
structure Stamp (ι : Type) where
  push : ι × Nat
  applied : List (ι × Nat)
  crossed : Bool

variable {ι : Type}

/-- The publications of a step, to `h'`, count, and the message of a `recv` counts as applied. -/
def ledger : History Host Op (Ledger ι) (Stamp ι) where
  own g _ h' := { g with made := g.made + (published h'.log).length }
  recv g t h' := { g with
    made := g.made + (published h'.log).length
    applied := g.applied ++ [t.push]
    view := t.applied }
  stamp g := ⟨(g.who, g.made), g.applied, false⟩

abbrev AckSys (ι : Type) := Net ι (Host × Ledger ι) (ExlcmLcmJyt × Stamp ι)

def ackNode : Node (Host × Ledger ι) Op (ExlcmLcmJyt × Stamp ι) String := lcmNode.withHistory ledger

/-- The publications 1 to `made` of `i` are all in `applied`. -/
def AllIn (i : ι) (made : Nat) (applied : List (ι × Nat)) : Prop := ∀ k < made, (i, k + 1) ∈ applied

instance instDecidableAllIn [DecidableEq ι] (i : ι) (made : Nat) (applied : List (ι × Nat)) :
    Decidable (AllIn i made applied) := inferInstanceAs (Decidable (∀ k < made, _))

theorem AllIn.mono {i : ι} {made : Nat} {l l' : List (ι × Nat)} (h : AllIn i made l) (hl : l ⊆ l') :
    AllIn i made l' := fun k hk => hl (h k hk)

variable [DecidableEq ι] {cfg : Config ι}

/-- The master has applied everything that `i` has pushed. -/
def Config.Served (cfg : Config ι) (n : AckSys ι) (i : ι) : Prop :=
  AllIn i (n.dev i).2.made (n.dev cfg.m).2.applied

instance instDecidableServed (n : AckSys ι) (i : ι) : Decidable (cfg.Served n i) :=
  inferInstanceAs (Decidable (AllIn _ _ _))

def Stamp.cross (t : Stamp ι) : Stamp ι := { t with crossed := true }

/-- What the master has sent to a slave that it has not served is marked. -/
def Config.mark (cfg : Config ι) (n : AckSys ι) : AckSys ι where
  dev := n.dev
  link src dst :=
    if src = cfg.m ∧ ¬ cfg.Served n dst then (n.link src dst).map fun x => (x.1, x.2.cross)
    else n.link src dst

/-- A step of the network beside its history. -/
def Config.ackStep (cfg : Config ι) (n : AckSys ι) (a : LcmAct ι) : Option (AckSys ι) :=
  (n.step ackNode a).map cfg.mark

def Config.ackStart (cfg : Config ι) : AckSys ι where
  dev i := (cfg.boot i, ⟨i, 0, [], []⟩)
  link _ _ := []

/-- A run of the network beside its history. -/
abbrev Config.AckRun (cfg : Config ι) (ok : AckSys ι → LcmAct ι → Prop) (acts : List (LcmAct ι))
    (n : AckSys ι) : Prop :=
  Lts.Run cfg.ackStep ok cfg.ackStart acts n

theorem mark_erase (n : AckSys ι) : (cfg.mark n).erase = n.erase := by
  refine Net.eq_of (fun _ => rfl) ?_
  intro src dst
  show List.map Prod.fst (if src = cfg.m ∧ ¬ cfg.Served n dst then _ else _) = _
  split
  · rw [List.map_map]
    rfl
  · rfl

/-- The histories change nothing: a step beside them is a step of the network. -/
theorem ackStep_erase (n : AckSys ι) (a : LcmAct ι) :
    (cfg.ackStep n a).map Net.erase = n.erase.step lcmNode a := by
  rw [← Net.erase_step (X := ledger) a, Config.ackStep, Option.map_map]
  refine congrFun (congrArg _ (funext fun x => ?_)) _
  exact mark_erase x

/-- **What `wait_data` means**: the master has applied every push of the slave, and the message that the
    slave took last was sent after that. -/
def Config.Acknowledged (cfg : Config ι) (n : AckSys ι) : Prop :=
  ∀ i, i ≠ cfg.m → 0 < (n.dev i).2.made → (n.dev i).1.self.waitData = true →
    cfg.Served n i ∧ AllIn i (n.dev i).2.made (n.dev i).2.view

/-- No slave takes a message that has crossed a push of its own. -/
def Config.Uncrossed (cfg : Config ι) (n : AckSys ι) : LcmAct ι → Prop
  | .deliver src dst k _ => dst ≠ cfg.m → ∀ x ∈ (n.link src dst)[k]?, x.2.crossed = false
  | _ => True

instance instDecidableUncrossed (n : AckSys ι) : (a : LcmAct ι) → Decidable (cfg.Uncrossed n a)
  | .deliver _ _ _ _ => inferInstanceAs (Decidable (_ → ∀ x ∈ _, _))
  | .own _ _ => inferInstanceAs (Decidable True)
  | .lose _ _ _ => inferInstanceAs (Decidable True)

/-! ## One step -/

section Step
variable {n n' : AckSys ι} {a : LcmAct ι}

/-- **A step as one device's history sees it.** -/
theorem ledger_dev (hs : n.step ackNode a = some n') (i : ι) :
    n'.dev i = n.dev i ∨
      (∃ o, a = .own i o ∧ lcmNode.own (n.dev i).1 o = some (n'.dev i).1 ∧
        (n'.dev i).2 = ledger.own (n.dev i).2 o (n'.dev i).1) ∨
      ∃ src k keep x, a = .deliver src i k keep ∧ (n.link src i)[k]? = some x ∧
        lcmNode.recv (n.dev i).1 x.1 = some (n'.dev i).1 ∧
        (n'.dev i).2 = ledger.recv (n.dev i).2 x.2 (n'.dev i).1 := by
  rcases Net.step_dev hs i with he | ⟨o, ha, ho⟩ | ⟨src, k, keep, x, ha, hget, hr⟩
  · exact .inl he
  · obtain ⟨h, hh, heq⟩ := Option.map_eq_some_iff.mp ho
    rw [← heq]
    exact .inr (.inl ⟨o, ha, hh, rfl⟩)
  · have hmap : (lcmNode.recv (n.dev i).1 x.1).map (fun h => (h, ledger.recv (n.dev i).2 x.2 h)) =
        some (n'.dev i) := hr
    obtain ⟨h, hh, heq⟩ := Option.map_eq_some_iff.mp hmap
    rw [← heq]
    exact .inr (.inr ⟨src, k, keep, x, ha, hget, hh, rfl⟩)

theorem ledger_who (hs : n.step ackNode a = some n') (i : ι) : (n'.dev i).2.who = (n.dev i).2.who := by
  rcases ledger_dev hs i with he | ⟨_, _, _, hg⟩ | ⟨_, _, _, _, _, _, _, hg⟩
  · rw [he]
  · rw [hg]
    rfl
  · rw [hg]
    rfl

theorem ledger_made (hs : n.step ackNode a = some n') (i : ι) :
    (n.dev i).2.made ≤ (n'.dev i).2.made := by
  rcases ledger_dev hs i with he | ⟨_, _, _, hg⟩ | ⟨_, _, _, _, _, _, _, hg⟩
  · rw [he]
  · rw [hg]
    exact Nat.le_add_right _ _
  · rw [hg]
    exact Nat.le_add_right _ _

theorem ledger_applied (hs : n.step ackNode a = some n') (i : ι) :
    (n.dev i).2.applied ⊆ (n'.dev i).2.applied := by
  rcases ledger_dev hs i with he | ⟨_, _, _, hg⟩ | ⟨_, _, _, _, _, _, _, hg⟩
  · rw [he]
    exact List.Subset.refl _
  · rw [hg]
    exact List.Subset.refl _
  · rw [hg]
    exact List.subset_append_left _ _

/-- What a device has applied after a step it had applied before, or it was in flight to it. -/
theorem mem_ledger_applied (hs : n.step ackNode a = some n') {i : ι} {p : ι × Nat}
    (hp : p ∈ (n'.dev i).2.applied) :
    p ∈ (n.dev i).2.applied ∨ ∃ src, ∃ x ∈ n.link src i, p = x.2.push := by
  rcases ledger_dev hs i with he | ⟨_, _, _, hg⟩ | ⟨src, _, _, x, _, hget, _, hg⟩
  · rw [he] at hp
    exact .inl hp
  · rw [hg] at hp
    exact .inl hp
  · rw [hg] at hp
    rcases List.mem_append.mp hp with hold | hnew
    · exact .inl hold
    · exact .inr ⟨src, x, List.mem_of_getElem? hget, List.mem_singleton.mp hnew⟩

/-- What is in flight after a step was so before, or has the stamp of its sender. -/
theorem ledger_link (hs : n.step ackNode a = some n') {src dst : ι} {x : ExlcmLcmJyt × Stamp ι}
    (hx : x ∈ n'.link src dst) : x ∈ n.link src dst ∨ x.2 = ledger.stamp (n'.dev src).2 := by
  have hposted {n : AckSys ι} {i : ι} {s : Host × Ledger ι} (hx : x ∈ (n.post ackNode i s).link src dst) :
      x ∈ n.link src dst ∨ x.2 = ledger.stamp ((n.post ackNode i s).dev src).2 := by
    rcases Net.mem_link_post.mp hx with hold | ⟨rfl, hnew⟩
    · exact .inl hold
    · rw [ackNode, routed_withHistory] at hnew
      obtain ⟨msg, _, rfl⟩ := List.mem_map.mp hnew
      rw [Net.post_dev_self]
      exact .inr rfl
  cases a with
  | own i o =>
      obtain ⟨s, _, rfl⟩ := Net.step_own.mp hs
      exact hposted hx
  | deliver s d k keep =>
      obtain ⟨m, h, _, _, rfl⟩ := Net.step_deliver.mp hs
      rcases hposted hx with hold | hnew
      · cases keep
        · exact .inl (Net.mem_link_drop hold)
        · exact .inl hold
      · exact .inr hnew
  | lose s d k =>
      obtain ⟨_, rfl⟩ := Net.step_lose.mp hs
      exact .inl (Net.mem_link_drop hx)

theorem mem_mark {src dst : ι} {x : ExlcmLcmJyt × Stamp ι} (hx : x ∈ (cfg.mark n).link src dst) :
    ∃ y ∈ n.link src dst,
      x = (y.1, if src = cfg.m ∧ ¬ cfg.Served n dst then y.2.cross else y.2) := by
  unfold Config.mark at hx
  dsimp only at hx
  by_cases hc : src = cfg.m ∧ ¬ cfg.Served n dst
  · rw [if_pos hc] at hx
    obtain ⟨y, hy, rfl⟩ := List.mem_map.mp hx
    exact ⟨y, hy, by rw [if_pos hc]⟩
  · rw [if_neg hc] at hx
    exact ⟨x, hx, by rw [if_neg hc]⟩

end Step

/-! ## The invariant -/

/-- What is true of the histories in every state. -/
structure Ledgers (cfg : Config ι) (n : AckSys ι) : Prop where
  wired : Wired cfg n.erase
  who : ∀ i, (n.dev i).2.who = i
  sent : ∀ src dst, ∀ x ∈ n.link src dst, x.2.push.1 = src ∧ x.2.push.2 ≤ (n.dev src).2.made
  known : ∀ p ∈ (n.dev cfg.m).2.applied, p.2 ≤ (n.dev p.1).2.made
  past : ∀ dst, ∀ x ∈ n.link cfg.m dst, x.2.applied ⊆ (n.dev cfg.m).2.applied
  crossed_iff : ∀ dst, dst ≠ cfg.m → ∀ x ∈ n.link cfg.m dst,
    x.2.crossed = false ↔ AllIn dst (n.dev dst).2.made x.2.applied

theorem ledgers_start : Ledgers cfg cfg.ackStart where
  wired := wired_start
  who _ := rfl
  sent _ _ _ hx := absurd hx List.not_mem_nil
  known _ hp := absurd hp List.not_mem_nil
  past _ _ hx := absurd hx List.not_mem_nil
  crossed_iff _ _ _ hx := absurd hx List.not_mem_nil

section Step
variable {n n' : AckSys ι} {a : LcmAct ι}

/-- Stamps name a publication that was made. -/
theorem sent_step (hn : Ledgers cfg n) (hs : n.step ackNode a = some n') (src dst : ι) :
    ∀ x ∈ n'.link src dst, x.2.push.1 = src ∧ x.2.push.2 ≤ (n'.dev src).2.made := by
  intro x hx
  rcases ledger_link hs hx with hold | hnew
  · obtain ⟨hsrc, hle⟩ := hn.sent src dst x hold
    exact ⟨hsrc, Nat.le_trans hle (ledger_made hs src)⟩
  · rw [hnew]
    exact ⟨(ledger_who hs src).trans (hn.who src), Nat.le_refl _⟩

/-- What a message of the master knows of, the master has applied. -/
theorem past_step (hn : Ledgers cfg n) (hs : n.step ackNode a = some n') (dst : ι) :
    ∀ x ∈ n'.link cfg.m dst, x.2.applied ⊆ (n'.dev cfg.m).2.applied := by
  intro x hx
  rcases ledger_link hs hx with hold | hnew
  · exact List.Subset.trans (hn.past dst x hold) (ledger_applied hs cfg.m)
  · rw [hnew]
    exact List.Subset.refl _

/-- A slave that the master has served after a step has not pushed in it. -/
theorem made_eq_of_served (hn : Ledgers cfg n) (hs : n.step ackNode a = some n') {i : ι} (hi : i ≠ cfg.m)
    (hserved : cfg.Served n' i) : (n'.dev i).2.made = (n.dev i).2.made := by
  by_contra hne
  have hlt : (n.dev i).2.made < (n'.dev i).2.made := Nat.lt_of_le_of_ne (ledger_made hs i) (Ne.symm hne)
  -- the slave has moved, so the master has not
  have hstill : n'.dev cfg.m = n.dev cfg.m := by
    rcases ledger_dev hs i with he | ⟨o, rfl, _⟩ | ⟨_, _, _, _, rfl, _⟩
    · rw [he] at hlt
      exact absurd hlt (Nat.lt_irrefl _)
    · exact Net.step_dev_ne hs (by simp [Act.mover, hi])
    · exact Net.step_dev_ne hs (by simp [Act.mover, hi])
  have hmem := hserved (n.dev i).2.made hlt
  rw [hstill] at hmem
  exact absurd (hn.known _ hmem) (by simp)

/-- **The marks after a step** say which messages do not know of all that their receiver has pushed. -/
theorem crossed_step (hn : Ledgers cfg n) (hs : n.step ackNode a = some n') {dst : ι} (hdst : dst ≠ cfg.m) :
    ∀ x ∈ (cfg.mark n').link cfg.m dst,
      x.2.crossed = false ↔ AllIn dst (n'.dev dst).2.made x.2.applied := by
  intro x hx
  obtain ⟨y, hy, rfl⟩ := mem_mark hx
  by_cases hserved : cfg.Served n' dst
  · rw [if_neg fun h => h.2 hserved]
    show y.2.crossed = false ↔ AllIn dst (n'.dev dst).2.made y.2.applied
    rcases ledger_link hs hy with hold | hnew
    · rw [made_eq_of_served hn hs hdst hserved]
      exact hn.crossed_iff dst hdst y hold
    · rw [hnew]
      exact ⟨fun _ => hserved, fun _ => rfl⟩
  · -- marked: some push of the slave is not applied, and the message cannot know of it
    rw [if_pos ⟨rfl, hserved⟩]
    constructor
    · intro hc
      exact absurd hc (by simp [Stamp.cross])
    · intro hall
      exact absurd (AllIn.mono hall (past_step hn hs dst y hy)) hserved

theorem ledgers_step (hch : cfg.ifname ≠ cfg.host) (hn : Ledgers cfg n) (hs : cfg.ackStep n a = some n') :
    Ledgers cfg n' := by
  have hproject : (cfg.ackStep n a).map Net.erase = n.erase.step lcmNode a := ackStep_erase n a
  have herase : n.erase.step lcmNode a = some n'.erase := by
    rw [← hproject, hs]
    rfl
  obtain ⟨n₁, hs₁, rfl⟩ := Option.map_eq_some_iff.mp hs
  refine ⟨wired_step hch hn.wired herase, ?_, ?_, ?_, ?_, ?_⟩
  · intro i
    exact (ledger_who hs₁ i).trans (hn.who i)
  · intro src dst x hx
    obtain ⟨y, hy, rfl⟩ := mem_mark hx
    have hyp := sent_step hn hs₁ src dst y hy
    dsimp only
    split <;> exact hyp
  · intro p hp
    rcases mem_ledger_applied hs₁ hp with hold | ⟨src, x, hx, rfl⟩
    · exact Nat.le_trans (hn.known p hold) (ledger_made hs₁ p.1)
    · obtain ⟨hsrc, hle⟩ := hn.sent src cfg.m x hx
      rw [hsrc]
      exact Nat.le_trans hle (ledger_made hs₁ src)
  · intro dst x hx
    obtain ⟨y, hy, rfl⟩ := mem_mark hx
    have hyp := past_step hn hs₁ dst y hy
    dsimp only
    split <;> exact hyp
  · intro dst hdst
    exact crossed_step hn hs₁ hdst

end Step

/-! ## Acknowledgement -/

/-- A slave that has `wait_data` after an operation of its own had it before, and has published nothing. -/
theorem own_waitData {h h' : Host} {o : Op} (hm : ¬ h.self.isMaster = true)
    (ho : lcmNode.own h o = some h') (hw : h'.self.waitData = true) :
    published h'.log = [] ∧ h.self.waitData = true := by
  cases o with
  | tick clock =>
      obtain rfl := Option.some.inj ho
      exact ⟨rfl, hw⟩
  | button b =>
      obtain rfl := Option.some.inj ho
      have hlog := congrArg published (press_log h.fresh b)
      have hp := press_pressed h.fresh b
      generalize b.press h.fresh = h' at hp hw hlog
      refine ⟨hlog, ?_⟩
      cases hp <;> exact hw
  | loop =>
      obtain ⟨k, sh, hk⟩ := node_loop ho
      rw [hk.waitData, Bool.and_eq_true] at hw
      obtain ⟨hnone, hbefore⟩ := hw
      have hpub := hk.published
      rw [Option.isNone_iff_eq_none.mp hnone] at hpub
      exact ⟨hpub, hbefore⟩
  | sync =>
      obtain rfl := Option.some.inj ho
      have hsame : lcmNetSync h.fresh = h.fresh := sync_slave (h := h.fresh) hm
      rw [hsame] at hw ⊢
      exact ⟨rfl, hw⟩

/-- A slave does not relay. -/
theorem recv_quiet {h h' : Host} {msg : ExlcmLcmJyt} (hm : ¬ h.self.isMaster = true)
    (hr : lcmNode.recv h msg = some h') : published h'.log = [] := by
  have hpub := node_relays hr
  unfold Host.relays at hpub
  rw [if_neg fun h => hm h.1] at hpub
  exact hpub

/-- **A slave takes a message** of the master: it has `wait_data`, its pushes are as before, and it sees what
    the message knows of. -/
theorem slave_takes {n n' : AckSys ι} (hn : Ledgers cfg n) {src i : ι} {k : Nat} {keep : Bool}
    (hi : i ≠ cfg.m) (hs : n.step ackNode (.deliver src i k keep) = some n') :
    ∃ x, (n.link src i)[k]? = some x ∧ x ∈ n.link cfg.m i ∧ (n'.dev i).1.self.waitData = true ∧
      (n'.dev i).2.made = (n.dev i).2.made ∧ (n'.dev i).2.view = x.2.applied := by
  have hmaster : ¬ (n.dev i).1.self.isMaster = true := mt (isMaster_iff (hn.wired.dev i)).mp hi
  obtain ⟨x, s, hget, hr, rfl⟩ := Net.step_deliver.mp hs
  have hmap : (lcmNode.recv (n.dev i).1 x.1).map (fun h => (h, ledger.recv (n.dev i).2 x.2 h)) = some s := hr
  obtain ⟨h, hh, rfl⟩ := Option.map_eq_some_iff.mp hmap
  have hmem : x ∈ n.link src i := List.mem_of_getElem? hget
  obtain rfl : src = cfg.m := (hn.wired.link src i x.1 (List.mem_map_of_mem hmem)).2.mpr hi
  rw [Net.post_dev_self]
  refine ⟨x, hget, hmem, (node_recv_mode hh).2.2, ?_, rfl⟩
  show (n.dev i).2.made + (published h.log).length = _
  rw [recv_quiet hmaster hh]
  rfl

theorem acknowledged_step {n n' : AckSys ι} {a : LcmAct ι} (hn : Ledgers cfg n)
    (hack : cfg.Acknowledged n) (hok : cfg.Uncrossed n a) (hs : cfg.ackStep n a = some n') :
    cfg.Acknowledged n' := by
  obtain ⟨n₁, hs₁, rfl⟩ := Option.map_eq_some_iff.mp hs
  intro i hi hmade hw
  show AllIn i (n₁.dev i).2.made (n₁.dev cfg.m).2.applied ∧ AllIn i (n₁.dev i).2.made (n₁.dev i).2.view
  have hmade : 0 < (n₁.dev i).2.made := hmade
  have hw : (n₁.dev i).1.self.waitData = true := hw
  have hgrow := ledger_applied hs₁ cfg.m
  rcases ledger_dev hs₁ i with he | ⟨o, -, ho, hg⟩ | ⟨src, k, keep, -, rfl, -⟩
  · rw [he] at hmade hw ⊢
    obtain ⟨hserved, hview⟩ := hack i hi hmade hw
    exact ⟨hserved.mono hgrow, hview⟩
  · -- what it has pushed and seen is as it was
    have hmaster : ¬ (n.dev i).1.self.isMaster = true := mt (isMaster_iff (hn.wired.dev i)).mp hi
    obtain ⟨hquiet, hbefore⟩ := own_waitData hmaster ho hw
    have hsame : (n₁.dev i).2.made = (n.dev i).2.made := by
      rw [hg]
      show (n.dev i).2.made + (published (n₁.dev i).1.log).length = _
      rw [hquiet]
      rfl
    have hview : (n₁.dev i).2.view = (n.dev i).2.view := by
      rw [hg]
      rfl
    rw [hsame] at hmade ⊢
    rw [hview]
    obtain ⟨hserved, hsees⟩ := hack i hi hmade hbefore
    exact ⟨hserved.mono hgrow, hsees⟩
  · obtain ⟨x, hget, hmem, -, hsame, hview⟩ := slave_takes hn hi hs₁
    have hknows := (hn.crossed_iff i hi x hmem).mp (hok hi x hget)
    rw [hsame, hview]
    exact ⟨hknows.mono (List.Subset.trans (hn.past i x hmem) hgrow), hknows⟩

/-- A slave that takes a marked message is told too early that its pushes are applied. -/
theorem not_acknowledged_of_crossed {n n' : AckSys ι} {a : LcmAct ι} (hn : Ledgers cfg n)
    (hcrossed : ¬ cfg.Uncrossed n a) (hs : cfg.ackStep n a = some n') : ¬ cfg.Acknowledged n' := by
  obtain ⟨n₁, hs₁, rfl⟩ := Option.map_eq_some_iff.mp hs
  intro hack
  apply hcrossed
  cases a with
  | own | lose => exact trivial
  | deliver src i k keep =>
      intro hi x hget
      obtain ⟨y, hget', hmem, hw, hsame, hview⟩ := slave_takes hn hi hs₁
      obtain rfl := Option.some.inj (hget'.symm.trans hget)
      rw [hn.crossed_iff i hi y hmem, ← hsame, ← hview]
      by_cases hmade : 0 < (n₁.dev i).2.made
      · exact (hack i hi hmade hw).2
      · -- a slave that has not pushed
        intro m hm
        omega

/-- **When `wait_data` means that the pushes are applied.** Every run of the network has a history; and in all
    its states a slave that has pushed and has `wait_data` has had all its pushes applied by the master before
    the message that it took last was sent, if and only if no slave ever takes a message that has been in
    flight while a push of that slave was not applied. -/
theorem acknowledged_iff (hch : cfg.ifname ≠ cfg.host) {acts : List (LcmAct ι)} {n : LcmSys ι}
    (hr : cfg.Run (fun _ _ => True) acts n) :
    ∃ x : AckSys ι, x.erase = n ∧ cfg.AckRun (fun _ _ => True) acts x ∧
      (Lts.Steps cfg.ackStep (fun _ _ x' => cfg.Acknowledged x') cfg.ackStart acts ↔
        cfg.AckRun cfg.Uncrossed acts x) := by
  have hstart : Lts.Run (Net.step lcmNode) (fun _ _ => True) cfg.ackStart.erase acts n := hr
  obtain ⟨x, hx, hn⟩ := hstart.lift ackStep_erase
  refine ⟨x, hn, hx, hx.steps_iff (I := fun y => Ledgers cfg y ∧ cfg.Acknowledged y) ?_ ?_ ?_⟩
  · refine ⟨ledgers_start, ?_⟩
    intro i _ hmade
    exact absurd hmade (Nat.lt_irrefl 0)
  · rintro y a y' ⟨hy, hack⟩ hok hs
    have hack' := acknowledged_step hy hack hok hs
    exact ⟨⟨ledgers_step hch hy hs, hack'⟩, hack'⟩
  · rintro y a y' ⟨hy, -⟩ hcrossed hs
    exact not_acknowledged_of_crossed hy hcrossed hs

/-- A concrete run beside its history is a computation. -/
theorem Config.ackRun_of_exec (cfg : Config ι) (ok : AckSys ι → LcmAct ι → Prop)
    [∀ n a, Decidable (ok n a)] (acts : List (LcmAct ι)) (p : AckSys ι → Prop) [DecidablePred p]
    (h : ∃ n, n ∈ Lts.exec cfg.ackStep (fun n a => decide (ok n a)) cfg.ackStart acts ∧ p n) :
    ∃ n, cfg.AckRun ok acts n ∧ p n :=
  Lts.Run.of_exec h

set_option maxRecDepth 10000 in
/-- A whole call set-up, in which no broadcast crosses a push. -/
theorem acknowledged_wlan :
    Lts.Steps wlanConfig.ackStep (fun _ _ x' => wlanConfig.Acknowledged x') wlanConfig.ackStart
      Wlan.connected := by
  obtain ⟨x, hx, -⟩ := wlanConfig.ackRun_of_exec wlanConfig.Uncrossed Wlan.connected (fun _ => True)
    (by decide)
  have hr : Lts.Run (Net.step lcmNode) (fun _ _ => True) wlanConfig.ackStart.erase Wlan.connected x.erase :=
    Lts.Run.project ackStep_erase (hx.mono fun _ _ _ => trivial)
  obtain ⟨y, -, hy, hiff⟩ :=
    acknowledged_iff (show wlanConfig.ifname ≠ wlanConfig.host by decide) hr
  obtain rfl := hy.unique hx
  exact hiff.mpr hx

/-- Board 1 pushes its request, and then hears the broadcast that the master made in the meantime. -/
def Wlan.heardStale : List (LcmAct (Fin 4)) :=
  [press 1 .tryReqer, beat, hear 1, loop 1, .own 0 (.tick 1559098680300000), beat, hear 1]

set_option maxRecDepth 10000 in
/-- **Acknowledged by a message that knows nothing of it.** Board 1 has pushed once and has `wait_data`, and
    the master has applied nothing. -/
theorem acknowledged_too_early :
    wlanConfig.ifname ≠ wlanConfig.host ∧
      ∃ x, wlanConfig.AckRun (fun _ a => wlanConfig.orderly a = true) Wlan.heardStale x ∧
        (x.dev 1).2.made = 1 ∧ (x.dev 1).1.self.waitData = true ∧ (x.dev 0).2.applied = [] := by
  obtain ⟨x, hx, hstate⟩ := wlanConfig.ackRun_of_exec (fun _ a => wlanConfig.orderly a = true)
    Wlan.heardStale
    (fun x => (x.dev 1).2.made = 1 ∧ (x.dev 1).1.self.waitData = true ∧ (x.dev 0).2.applied = []) (by decide)
  exact ⟨by decide, x, hx, hstate⟩

end DlsSdk
