import DlsSdk.Library.Network
import Mathlib.Data.List.InsertIdx

/-!
# `Library.Ghost` — history variables of a network

A device keeps a history beside its state and a message carries a stamp beside its content. Neither is read
by the program: histories are written after the steps they are about, stamps are copied from the history of
the device that publishes (`History`). So the network with histories takes exactly the steps of the network
without (`Net.erase_step`), and what is proved about its runs is proved about all runs.
-/

namespace Network

variable {ι H O M C G T : Type}

/-- How a history is written, from the state that a step led to, and what stamp a device puts on the
    messages of a step. -/
structure History (H O G T : Type) where
  own : G → O → H → G
  recv : G → T → H → G
  stamp : G → T

/-- A device with its history, and messages with stamps. -/
def Node.withHistory (N : Node H O M C) (X : History H O G T) : Node (H × G) O (M × T) C where
  own s o := (N.own s.1 o).map fun h => (h, X.own s.2 o h)
  recv s m := (N.recv s.1 m.1).map fun h => (h, X.recv s.2 m.2 h)
  out s := (N.out s.1).map fun p => (p.1, p.2, X.stamp s.2)
  listens s := N.listens s.1

/-- The network without its histories and stamps. -/
def Net.erase (n : Net ι (H × G) (M × T)) : Net ι H M where
  dev i := (n.dev i).1
  link src dst := (n.link src dst).map Prod.fst

section Erase
variable [DecidableEq C] {N : Node H O M C} {X : History H O G T}

/-- Every message of a step has the stamp of the device's history after the step. -/
theorem routed_withHistory (s d : H × G) : routed (N.withHistory X) s d =
    (routed N s.1 d.1).map fun m => (m, X.stamp s.2) := by
  unfold routed
  rw [show (N.withHistory X).out s = (N.out s.1).map fun p => (p.1, p.2, X.stamp s.2) from rfl,
    List.filterMap_map, List.map_filterMap]
  refine List.filterMap_congr fun p _ => ?_
  show (if p.1 = N.listens d.1 then _ else _) = Option.map _ (if p.1 = N.listens d.1 then _ else _)
  by_cases hp : p.1 = N.listens d.1
  · rw [if_pos hp, if_pos hp]
    rfl
  · rw [if_neg hp, if_neg hp]
    rfl

variable [DecidableEq ι] {n : Net ι (H × G) (M × T)}

theorem Net.erase_post (i : ι) (s : H × G) :
    (n.post (N.withHistory X) i s).erase = n.erase.post N i s.1 := by
  refine Net.eq_of ?_ ?_
  · intro j
    show ((n.post (N.withHistory X) i s).dev j).1 = _
    by_cases hj : j = i
    · subst hj
      rw [Net.post_dev_self, Net.post_dev_self]
    · rw [Net.post_dev_ne hj, Net.post_dev_ne hj]
      rfl
  · intro src dst
    show ((n.post (N.withHistory X) i s).link src dst).map Prod.fst = _
    by_cases hs : src = i
    · subst hs
      have hnew : (routed (N.withHistory X) s (n.dev dst)).map Prod.fst = routed N s.1 (n.dev dst).1 := by
        rw [routed_withHistory, List.map_map]
        exact List.map_id _
      rw [Net.post_link_self, Net.post_link_self, List.map_append, hnew]
      rfl
    · rw [Net.post_link_ne hs, Net.post_link_ne hs]
      rfl

theorem Net.erase_drop (src dst : ι) (k : Nat) : (n.drop src dst k).erase = n.erase.drop src dst k := by
  refine Net.eq_of (fun _ => rfl) ?_
  intro s d
  show List.map Prod.fst (if s = src ∧ d = dst then _ else _) = if s = src ∧ d = dst then _ else _
  by_cases hsd : s = src ∧ d = dst
  · rw [if_pos hsd, if_pos hsd]
    exact (List.eraseIdx_map ..).symm
  · rw [if_neg hsd, if_neg hsd]
    rfl

/-- **Histories change nothing**: a step of the network with histories is a step of the network. -/
theorem Net.erase_step (a : Act ι O) :
    (n.step (N.withHistory X) a).map Net.erase = n.erase.step N a := by
  cases a with
  | own i o =>
      show Option.map _ (Option.map _ (Option.map _ (N.own (n.dev i).1 o))) = Option.map _ _
      rw [Option.map_map, Option.map_map]
      refine congrFun (congrArg _ (funext fun h => ?_)) _
      exact n.erase_post i _
  | deliver src dst k keep =>
      show Option.map _ (((n.link src dst)[k]?).bind _) = (((n.link src dst).map Prod.fst)[k]?).bind _
      rw [List.getElem?_map]
      cases (n.link src dst)[k]? with
      | none => rfl
      | some m =>
          show Option.map _ (Option.map _ (Option.map _ (N.recv (n.dev dst).1 m.1))) = Option.map _ _
          rw [Option.map_map, Option.map_map]
          refine congrFun (congrArg _ (funext fun h => ?_)) _
          have htaken : (if keep then n else n.drop src dst k).erase =
              if keep then n.erase else n.erase.drop src dst k := by
            cases keep
            · exact n.erase_drop src dst k
            · rfl
          rw [← htaken]
          exact Net.erase_post dst _
  | lose src dst k =>
      show Option.map _ (if k < (n.link src dst).length then _ else _) =
        if k < ((n.link src dst).map Prod.fst).length then _ else _
      rw [List.length_map]
      by_cases hk : k < (n.link src dst).length
      · rw [if_pos hk, if_pos hk, ← n.erase_drop]
        rfl
      · rw [if_neg hk, if_neg hk]
        rfl

end Erase

end Network
