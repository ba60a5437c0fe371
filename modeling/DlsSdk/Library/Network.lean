import DlsSdk.Library.Lts
import Mathlib.Logic.Function.Basic

/-!
# `Library.Network` — publish/subscribe systems over unreliable links

A `Node` is what every device runs: its own operations, its reaction to a message, the messages the
last step published and the channel it listens on. A `Net` is one state per device and, for every
ordered pair of devices, the list of messages on their way (oldest first). Publishing on a channel puts
one copy on the link to every device that listens there.

The network is a labelled transition system. A label says which message of a link is delivered, whether
it also stays on the link (a duplicate) and which messages are lost, so every delivery discipline is a
restriction on labels: `Act.inOrder`, `Act.once`, `Act.lossless`.

* `Net.step_own` / `Net.step_deliver` / `Net.step_lose` — what a step can do, said once; `Net.step_dev` —
  what it can do to one device.
* `LocalInv.step` — the frame rule: a property of every device and every message in flight is kept by
  the network as soon as the one device that moves keeps it and publishes only messages that have it.
-/

namespace Network

variable {ι H O M C : Type}

/-- The program of a device: states `H`, own operations `O`, messages `M`, channel names `C`. -/
structure Node (H O M C : Type) where
  own : H → O → Option H
  recv : H → M → Option H
  /-- What the step that led to this state published, in order. -/
  out : H → List (C × M)
  listens : H → C

/-- A network state: the devices, and the messages in flight on every link, oldest first. -/
structure Net (ι H M : Type) where
  dev : ι → H
  link : ι → ι → List M

theorem Net.eq_of {n n' : Net ι H M} (hdev : ∀ i, n.dev i = n'.dev i)
    (hlink : ∀ src dst, n.link src dst = n'.link src dst) : n = n' := by
  obtain ⟨dev, link⟩ := n
  obtain rfl : dev = n'.dev := funext hdev
  obtain rfl : link = n'.link := funext fun src => funext (hlink src)
  rfl

/-- A network step. `deliver` hands the `k`-th message of a link to its receiver, and `keep` leaves a
    copy in flight. -/
inductive Act (ι O : Type) where
  | own (i : ι) (o : O)
  | deliver (src dst : ι) (k : Nat) (keep : Bool)
  | lose (src dst : ι) (k : Nat)

/-- The device that a step moves. -/
def Act.mover : Act ι O → Option ι
  | .own i _ => some i
  | .deliver _ dst _ _ => some dst
  | .lose _ _ _ => none

/-! ## Delivery disciplines -/

/-- Every link is a queue. -/
def Act.inOrder : Act ι O → Bool
  | .deliver _ _ k _ => k == 0
  | _ => true

/-- No message is delivered twice. -/
def Act.once : Act ι O → Bool
  | .deliver _ _ _ keep => !keep
  | _ => true

/-- No message is lost. -/
def Act.lossless : Act ι O → Bool
  | .lose _ _ _ => false
  | _ => true

/-! ## Steps -/

/-- The messages of `h`'s last step that a listener in state `d` is sent. -/
def routed [DecidableEq C] (N : Node H O M C) (h d : H) : List M :=
  (N.out h).filterMap fun p => if p.1 = N.listens d then some p.2 else none

/-- Device `i` has moved to `h`; what it published is now in flight. -/
def Net.post [DecidableEq ι] [DecidableEq C] (N : Node H O M C) (n : Net ι H M) (i : ι) (h : H) :
    Net ι H M where
  dev := Function.update n.dev i h
  link src dst := if src = i then n.link src dst ++ routed N h (n.dev dst) else n.link src dst

/-- The `k`-th message of a link is gone. -/
def Net.drop [DecidableEq ι] (n : Net ι H M) (src dst : ι) (k : Nat) : Net ι H M where
  dev := n.dev
  link s d := if s = src ∧ d = dst then (n.link s d).eraseIdx k else n.link s d

/-- One step of the network; `none` when the device cannot take it or there is no such message. -/
def Net.step [DecidableEq ι] [DecidableEq C] (N : Node H O M C) (n : Net ι H M) :
    Act ι O → Option (Net ι H M)
  | .own i o => (N.own (n.dev i) o).map (n.post N i)
  | .deliver src dst k keep =>
      ((n.link src dst)[k]?).bind fun m =>
        (N.recv (n.dev dst) m).map ((if keep then n else n.drop src dst k).post N dst)
  | .lose src dst k => if k < (n.link src dst).length then some (n.drop src dst k) else none

variable [DecidableEq ι] [DecidableEq C] {N : Node H O M C} {n n' : Net ι H M}

theorem Net.step_own {i : ι} {o : O} :
    n.step N (.own i o) = some n' ↔ ∃ h, N.own (n.dev i) o = some h ∧ n' = n.post N i h := by
  simp only [Net.step, Option.map_eq_some_iff]
  constructor
  · rintro ⟨h, hh, rfl⟩; exact ⟨h, hh, rfl⟩
  · rintro ⟨h, hh, rfl⟩; exact ⟨h, hh, rfl⟩

theorem Net.step_deliver {src dst : ι} {k : Nat} {keep : Bool} :
    n.step N (.deliver src dst k keep) = some n' ↔
      ∃ m h, (n.link src dst)[k]? = some m ∧ N.recv (n.dev dst) m = some h ∧
        n' = (if keep then n else n.drop src dst k).post N dst h := by
  simp only [Net.step, Option.bind_eq_some_iff, Option.map_eq_some_iff]
  constructor
  · rintro ⟨m, hm, h, hh, rfl⟩; exact ⟨m, h, hm, hh, rfl⟩
  · rintro ⟨m, h, hm, hh, rfl⟩; exact ⟨m, hm, h, hh, rfl⟩

theorem Net.step_lose {src dst : ι} {k : Nat} :
    n.step N (.lose src dst k : Act ι O) = some n' ↔
      k < (n.link src dst).length ∧ n' = n.drop src dst k := by
  simp only [Net.step]
  split
  · rename_i hk; simp [hk, eq_comm]
  · rename_i hk; simp [hk]

/-! ## The devices and the links after a step -/

@[simp] theorem Net.post_dev_self {i : ι} {h : H} : (n.post N i h).dev i = h := by
  simp [Net.post]

@[simp] theorem Net.post_dev_ne {i j : ι} {h : H} (hj : j ≠ i) :
    (n.post N i h).dev j = n.dev j := by
  simp [Net.post, hj]

/-- The state a delivery starts from has the same devices, whether or not the message stays. -/
@[simp] theorem Net.taken_dev {src dst : ι} {k : Nat} {keep : Bool} :
    (if keep then n else n.drop src dst k).dev = n.dev := by
  cases keep <;> rfl

theorem Net.post_link_self {i dst : ι} {h : H} :
    (n.post N i h).link i dst = n.link i dst ++ routed N h (n.dev dst) := if_pos rfl

theorem Net.post_link_ne {i src dst : ι} {h : H} (hi : src ≠ i) :
    (n.post N i h).link src dst = n.link src dst := if_neg hi

theorem Net.drop_link_self {src dst : ι} {k : Nat} :
    (n.drop src dst k).link src dst = (n.link src dst).eraseIdx k := if_pos ⟨rfl, rfl⟩

/-- Taking a message off a link leaves the other links alone. -/
theorem Net.taken_link_ne {src dst s d : ι} {k : Nat} {keep : Bool} (h : ¬ (s = src ∧ d = dst)) :
    (if keep then n else n.drop src dst k).link s d = n.link s d := by
  cases keep
  · exact if_neg h
  · rfl

/-- **A step as one device sees it**: nothing has happened to it, it has taken an operation of its own, or
    it has reacted to a message. -/
theorem Net.step_dev {a : Act ι O} (hs : n.step N a = some n') (i : ι) :
    n'.dev i = n.dev i ∨
      (∃ o, a = .own i o ∧ N.own (n.dev i) o = some (n'.dev i)) ∨
      ∃ src k keep m, a = .deliver src i k keep ∧ (n.link src i)[k]? = some m ∧
        N.recv (n.dev i) m = some (n'.dev i) := by
  cases a with
  | own j o =>
      obtain ⟨h, ho, rfl⟩ := Net.step_own.mp hs
      by_cases hj : i = j
      · subst hj
        rw [Net.post_dev_self]
        exact .inr (.inl ⟨o, rfl, ho⟩)
      · exact .inl (Net.post_dev_ne hj)
  | deliver src j k keep =>
      obtain ⟨m, h, hm, hr, rfl⟩ := Net.step_deliver.mp hs
      by_cases hj : i = j
      · subst hj
        rw [Net.post_dev_self]
        exact .inr (.inr ⟨src, k, keep, m, rfl, hm, hr⟩)
      · rw [Net.post_dev_ne hj, Net.taken_dev]
        exact .inl rfl
  | lose src j k =>
      obtain ⟨_, rfl⟩ := Net.step_lose.mp hs
      exact .inl rfl

/-- A device that does not move stays as it is. -/
theorem Net.step_dev_ne {a : Act ι O} (hs : n.step N a = some n') {i : ι} (hi : a.mover ≠ some i) :
    n'.dev i = n.dev i := by
  rcases Net.step_dev hs i with he | ⟨_, rfl, _⟩ | ⟨_, _, _, _, rfl, _⟩
  · exact he
  · exact absurd rfl hi
  · exact absurd rfl hi

theorem Net.mem_link_drop {src dst s d : ι} {k : Nat} {m : M}
    (h : m ∈ (n.drop src dst k).link s d) : m ∈ n.link s d := by
  simp only [Net.drop] at h
  split at h
  · exact List.mem_of_mem_eraseIdx h
  · exact h

theorem Net.mem_link_post {i s d : ι} {h : H} {m : M} :
    m ∈ (n.post N i h).link s d ↔ m ∈ n.link s d ∨ (s = i ∧ m ∈ routed N h (n.dev d)) := by
  simp only [Net.post]
  split
  · rename_i hs; simp [hs]
  · rename_i hs; simp [hs]

theorem mem_routed {h d : H} {m : M} : m ∈ routed N h d ↔ (N.listens d, m) ∈ N.out h := by
  simp only [routed, List.mem_filterMap, Prod.exists]
  constructor
  · rintro ⟨c, m', hmem, hc⟩
    split at hc
    · rename_i he; rw [← he, ← Option.some.inj hc]; exact hmem
    · exact absurd hc (by simp)
  · intro hmem; exact ⟨_, m, hmem, by simp⟩

/-! ## The frame rule -/

/-- A property of every device and of every message in flight. -/
structure LocalInv (P : ι → H → Prop) (Q : ι → ι → M → Prop) (n : Net ι H M) : Prop where
  dev : ∀ i, P i (n.dev i)
  link : ∀ src dst, ∀ m ∈ n.link src dst, Q src dst m

variable {P : ι → H → Prop} {Q : ι → ι → M → Prop}

theorem LocalInv.post {i : ι} {h : H} (hn : LocalInv P Q n) (hP : P i h)
    (hQ : ∀ dst, ∀ m ∈ routed N h (n.dev dst), Q i dst m) : LocalInv P Q (n.post N i h) where
  dev j := by
    by_cases hj : j = i
    · subst hj; rw [Net.post_dev_self]; exact hP
    · rw [Net.post_dev_ne hj]; exact hn.dev j
  link src dst m hm := by
    rcases Net.mem_link_post.mp hm with hold | ⟨rfl, hnew⟩
    · exact hn.link src dst m hold
    · exact hQ dst m hnew

theorem LocalInv.drop {src dst : ι} {k : Nat} (hn : LocalInv P Q n) :
    LocalInv P Q (n.drop src dst k) where
  dev := hn.dev
  link s d m hm := hn.link s d m (Net.mem_link_drop hm)

/-- **Frame rule.** A step keeps a local invariant if the device that moves keeps its part and
    publishes only messages that have theirs; the message it reacts to may be assumed to. -/
theorem LocalInv.step {a : Act ι O} (hn : LocalInv P Q n)
    (hown : ∀ i o h, a = .own i o → N.own (n.dev i) o = some h →
      P i h ∧ ∀ dst, ∀ m ∈ routed N h (n.dev dst), Q i dst m)
    (hrecv : ∀ src dst k keep m h, a = .deliver src dst k keep → (n.link src dst)[k]? = some m →
      Q src dst m → N.recv (n.dev dst) m = some h →
      P dst h ∧ ∀ d, ∀ m' ∈ routed N h (n.dev d), Q dst d m')
    (hs : n.step N a = some n') : LocalInv P Q n' := by
  cases a with
  | own i o =>
      obtain ⟨h, hh, rfl⟩ := Net.step_own.mp hs
      obtain ⟨hP, hQ⟩ := hown i o h rfl hh
      exact hn.post hP hQ
  | deliver src dst k keep =>
      obtain ⟨m, h, hm, hh, rfl⟩ := Net.step_deliver.mp hs
      obtain ⟨hP, hQ⟩ :=
        hrecv src dst k keep m h rfl hm (hn.link src dst m (List.mem_of_getElem? hm)) hh
      -- taking the message off its link comes first
      have ht : LocalInv P Q (if keep then n else n.drop src dst k) := by
        cases keep
        · exact hn.drop
        · exact hn
      exact ht.post hP (by rw [Net.taken_dev]; exact hQ)
  | lose src dst k =>
      obtain ⟨_, rfl⟩ := Net.step_lose.mp hs
      exact hn.drop

end Network
