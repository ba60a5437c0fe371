import DlsSdk.Library.Network
import Mathlib.Data.List.InsertIdx

/-!
# `Library.Transport` — networks whose messages are encoded

A protocol is stated over messages and run over what a codec makes of them. `Encodes enc P Q N N'` says that the
node `N'` does with encoded messages what `N` does with messages, as long as the devices are in `P` and the
messages in `Q`, which neither ever leaves.

* `Encodes.step` — the network of `N'` then takes the steps of the network of `N`, and no others;
* `Encodes.run_iff` — so its runs are those of the network of `N`, encoded.
-/

namespace Network

variable {ι H O M B C : Type}

/-- The network with every message in flight encoded. -/
def Net.encode (enc : M → B) (n : Net ι H M) : Net ι H B where
  dev := n.dev
  link src dst := (n.link src dst).map enc

/-- On devices in `P` and messages in `Q` the node `N'` is `N` with its messages encoded. -/
structure Encodes (enc : M → B) (P : H → Prop) (Q : M → Prop) (N : Node H O M C) (N' : Node H O B C) :
    Prop where
  own : ∀ h o, P h → N'.own h o = N.own h o
  recv : ∀ h m, P h → Q m → N'.recv h (enc m) = N.recv h m
  out : ∀ h, P h → N'.out h = (N.out h).map fun p => (p.1, enc p.2)
  listens : ∀ h, N'.listens h = N.listens h
  own_mem : ∀ h o h', P h → N.own h o = some h' → P h'
  recv_mem : ∀ h m h', P h → Q m → N.recv h m = some h' → P h'
  out_mem : ∀ h, P h → ∀ p ∈ N.out h, Q p.2

variable [DecidableEq ι] [DecidableEq C] {enc : M → B} {P : H → Prop} {Q : M → Prop}
  {N : Node H O M C} {N' : Node H O B C} {n n' : Net ι H M}

theorem Net.encode_drop {src dst : ι} {k : Nat} :
    (n.drop src dst k).encode enc = (n.encode enc).drop src dst k := by
  refine Net.eq_of (fun _ => rfl) fun s d => ?_
  simp only [Net.encode, Net.drop]
  split
  · exact (List.eraseIdx_map enc (n.link s d) k).symm
  · rfl

/-- Every device is in `P` and every message in flight in `Q`. -/
abbrev Coded (P : H → Prop) (Q : M → Prop) (n : Net ι H M) : Prop :=
  LocalInv (fun _ => P) (fun _ _ => Q) n

theorem Encodes.routed (hN : Encodes enc P Q N N') {h d : H} (hh : P h) :
    Network.routed N' h d = (Network.routed N h d).map enc := by
  unfold Network.routed
  rw [hN.out h hh, hN.listens, List.filterMap_map, List.map_filterMap]
  refine List.filterMap_congr fun p _ => ?_
  simp only [Function.comp_apply]
  split <;> rfl

theorem Encodes.post (hN : Encodes enc P Q N N') {i : ι} {h : H} (hh : P h) :
    (n.encode enc).post N' i h = (n.post N i h).encode enc := by
  refine Net.eq_of (fun _ => rfl) fun src dst => ?_
  simp only [Net.encode, Net.post, hN.routed hh]
  split
  · rw [List.map_append]
  · rfl

/-- **Steps.** -/
theorem Encodes.step (hN : Encodes enc P Q N N') (hn : Coded P Q n) (a : Act ι O) :
    (n.encode enc).step N' a = (n.step N a).map (Net.encode enc) := by
  cases a with
  | own i o =>
      show (N'.own (n.dev i) o).map _ = ((N.own (n.dev i) o).map _).map _
      rw [hN.own _ _ (hn.dev i), Option.map_map]
      refine Option.map_congr fun h hh => ?_
      exact hN.post (hN.own_mem _ _ _ (hn.dev i) hh)
  | deliver src dst k keep =>
      show (((n.link src dst).map enc)[k]?).bind _ = (((n.link src dst)[k]?).bind _).map _
      rw [List.getElem?_map]
      cases hm : (n.link src dst)[k]? with
      | none => rfl
      | some m =>
          have hQ : Q m := hn.link src dst m (List.mem_of_getElem? hm)
          have htaken : (if keep then n.encode enc else (n.encode enc).drop src dst k) =
              (if keep then n else n.drop src dst k).encode enc := by
            cases keep
            · exact Net.encode_drop.symm
            · rfl
          have hrecv : N'.recv ((n.encode enc).dev dst) (enc m) = N.recv (n.dev dst) m :=
            hN.recv _ _ (hn.dev dst) hQ
          simp only [Option.map_some, Option.bind_some, htaken, hrecv]
          rw [Option.map_map]
          refine Option.map_congr fun h hh => ?_
          exact hN.post (hN.recv_mem _ _ _ (hn.dev dst) hQ hh)
  | lose src dst k =>
      show (if k < ((n.link src dst).map enc).length then _ else _) =
        (if k < (n.link src dst).length then _ else _ : Option _).map _
      rw [List.length_map]
      split
      · exact congrArg some Net.encode_drop.symm
      · rfl

theorem Encodes.coded_step (hN : Encodes enc P Q N N') (hn : Coded P Q n) {a : Act ι O}
    (hs : n.step N a = some n') : Coded P Q n' := by
  have hrouted : ∀ {h : H}, P h → ∀ dst, ∀ m ∈ Network.routed N h (n.dev dst), Q m :=
    fun hh dst m hm => hN.out_mem _ hh _ (mem_routed.mp hm)
  refine hn.step ?_ ?_ hs
  · intro i o h _ ho
    have hh := hN.own_mem _ _ _ (hn.dev i) ho
    exact ⟨hh, hrouted hh⟩
  · intro src dst k keep m h _ _ hm hr
    have hh := hN.recv_mem _ _ _ (hn.dev dst) hm hr
    exact ⟨hh, hrouted hh⟩

theorem Encodes.coded_run (hN : Encodes enc P Q N N') (hn : Coded P Q n)
    {ok : Net ι H M → Act ι O → Prop} {acts : List (Act ι O)} (hr : Lts.Run (Net.step N) ok n acts n') :
    Coded P Q n' :=
  hr.invariant hn fun _ _ _ hm _ hs => hN.coded_step hm hs

/-- **Runs.** The runs over encoded messages are the runs over messages, encoded. -/
theorem Encodes.run_iff (hN : Encodes enc P Q N N') (hn : Coded P Q n)
    {ok : Net ι H B → Act ι O → Prop} {acts : List (Act ι O)} {w : Net ι H B} :
    Lts.Run (Net.step N') ok (n.encode enc) acts w ↔
      ∃ n', Lts.Run (Net.step N) (fun n a => ok (n.encode enc) a) n acts n' ∧ w = n'.encode enc := by
  constructor
  · intro h
    induction h with
    | nil => exact ⟨n, .nil, rfl⟩
    | @snoc acts w a w' _ hok hs ih =>
        obtain ⟨m, hm, rfl⟩ := ih
        rw [hN.step (hN.coded_run hn hm)] at hs
        obtain ⟨m', hm', rfl⟩ := Option.map_eq_some_iff.mp hs
        exact ⟨m', .snoc hm hok hm', rfl⟩
  · rintro ⟨n', h, rfl⟩
    induction h with
    | nil => exact .nil
    | @snoc acts m a m' hm hok hs ih =>
        refine .snoc ih hok ?_
        rw [hN.step (hN.coded_run hn hm), hs]
        rfl

end Network
