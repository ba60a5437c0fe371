import Mathlib.Data.List.Forall2
import Mathlib.Data.List.Infix

/-!
# `Library.ByteBuffer` — C functions that write to and read from a byte buffer

Encoders and decoders in C share a convention: a function is given a buffer, an offset into it and the number
of bytes it may use there, and returns how many it has used, or a negative code. A function that calls others
in turn adds the lengths up and stops at the first negative code.

C defines no access outside of the buffer, and no copy of a negative length; such a run has no result here.

* `Writes w bs` — `w` writes `bs` where there is room for it, and otherwise fails without having touched
  anything outside of its room. `Writes.all`: sequences write one after the other.
* `Reads r p` — what `r` does is what the parser `p` does on the bytes of its room, and on no others.
  `Reads.bind`: sequences parse one after the other.
* `Steady p` — `p` does not take back what it has decided. `Steady.truncated`: it refuses what is cut off.
-/

namespace ByteBuffer

/-! ## Memory -/

/-- `buf[pos++] = b` for one byte after the other. -/
def store (buf : List UInt8) (pos : Int) : List UInt8 → Option (List UInt8)
  | [] => some buf
  | b :: bs =>
      if 0 ≤ pos ∧ pos < buf.length then store (buf.set pos.toNat b) (pos + 1) bs else none

/-- `n` bytes from `&buf[pos]` on. -/
def load (buf : List UInt8) (pos : Int) (n : Nat) : Option (List UInt8) :=
  if 0 ≤ pos ∧ pos + n ≤ buf.length then some ((buf.drop pos.toNat).take n) else none

/-- `buf` with `bs` written over it at `off`. -/
def splice (buf : List UInt8) (off : Nat) (bs : List UInt8) : List UInt8 :=
  buf.take off ++ (bs ++ buf.drop (off + bs.length))

variable {buf buf' buf'' bs bs' : List UInt8} {off max pos : Nat}

@[simp] theorem splice_nil : splice buf off [] = buf := List.take_append_drop off buf

theorem length_splice (h : off + bs.length ≤ buf.length) : (splice buf off bs).length = buf.length := by
  simp only [splice, List.length_append, List.length_take, List.length_drop]
  omega

theorem take_splice (h : off ≤ buf.length) : (splice buf off bs).take off = buf.take off := by
  rw [splice, List.take_left' (by rw [List.length_take]; omega)]

theorem drop_splice (h : off ≤ buf.length) :
    (splice buf off bs).drop (off + bs.length) = buf.drop (off + bs.length) := by
  have hlen : (buf.take off).length = off := by
    rw [List.length_take]
    omega
  rw [splice, ← List.append_assoc]
  exact List.drop_left' (by rw [List.length_append, hlen])

/-- Two writes, the second right behind the first. -/
theorem splice_splice (h : off + bs.length ≤ buf.length) :
    splice (splice buf off bs) (off + bs.length) bs' = splice buf off (bs ++ bs') := by
  have hoff : off ≤ buf.length := by omega
  have htake : (splice buf off bs).take (off + bs.length) = buf.take off ++ bs := by
    rw [splice, ← List.append_assoc]
    exact List.take_left' (by rw [List.length_append, List.length_take]; omega)
  have hdrop : (splice buf off bs).drop (off + bs.length + bs'.length) =
      buf.drop (off + bs.length + bs'.length) := by
    rw [← List.drop_drop, drop_splice hoff, List.drop_drop]
  rw [splice, htake, hdrop, splice, List.length_append, List.append_assoc, List.append_assoc,
    Nat.add_assoc]

theorem splice_cons {b : UInt8} (h : off < buf.length) :
    splice (buf.set off b) (off + 1) bs = splice buf off (b :: bs) := by
  have hset : buf.set off b = splice buf off [b] := by
    rw [List.set_eq_take_append_cons_drop, if_pos h]
    rfl
  rw [hset]
  exact @splice_splice buf [b] bs off (by rw [List.length_singleton]; omega)

/-- A store within the buffer is defined. -/
theorem store_eq (h : off + bs.length ≤ buf.length) : store buf off bs = some (splice buf off bs) := by
  induction bs generalizing buf off with
  | nil => rw [store, splice_nil]
  | cons b bs ih =>
      rw [List.length_cons] at h
      have hin : 0 ≤ (off : Int) ∧ (off : Int) < buf.length := by omega
      have hrec := @ih (buf.set off b) (off + 1) (by rw [List.length_set]; omega)
      rw [store, if_pos hin, Int.toNat_natCast, ← splice_cons (by omega)]
      exact hrec

theorem load_eq {n : Nat} (h : off + n ≤ buf.length) : load buf off n = some ((buf.drop off).take n) := by
  rw [load, if_pos (by omega), Int.toNat_natCast]

/-- From `buf` to `buf'` at most the `max` bytes at `off` have changed. -/
structure Outside (off max : Nat) (buf buf' : List UInt8) : Prop where
  length : buf'.length = buf.length
  before : buf'.take off = buf.take off
  behind : buf'.drop (off + max) = buf.drop (off + max)

theorem Outside.refl : Outside off max buf buf := ⟨rfl, rfl, rfl⟩

theorem Outside.trans (h : Outside off max buf buf') (h' : Outside off max buf' buf'') :
    Outside off max buf buf'' where
  length := h'.length.trans h.length
  before := h'.before.trans h.before
  behind := h'.behind.trans h.behind

/-- A smaller room at the end of the room. -/
theorem Outside.widen {n : Nat} (h : Outside (off + n) (max - n) buf buf') (hn : n ≤ max) :
    Outside off max buf buf' where
  length := h.length
  before := by
    have hb := congrArg (List.take off) h.before
    rw [List.take_take, List.take_take, Nat.min_eq_left (by omega)] at hb
    exact hb
  behind := by
    have hb := h.behind
    rw [Nat.add_assoc, Nat.add_sub_cancel' hn] at hb
    exact hb

theorem outside_splice (h : off + max ≤ buf.length) (hbs : bs.length ≤ max) :
    Outside off max buf (splice buf off bs) where
  length := length_splice (by omega)
  before := take_splice (by omega)
  behind := by
    have hd := congrArg (List.drop (max - bs.length)) (@drop_splice buf bs off (by omega))
    rw [List.drop_drop, List.drop_drop, Nat.add_assoc, Nat.add_sub_cancel' hbs] at hd
    exact hd

/-! ## Writers -/

/-- A function that writes: buffer, offset and room to return value and buffer. -/
abbrev Writer := List UInt8 → Int → Int → Option (Int × List UInt8)

/-- `thislen = w(buf, offset + pos, maxlen - pos); if (thislen < 0) return thislen; else pos += thislen;` for
    one writer after the other, and then `return pos`. -/
def Writer.steps (offset maxlen : Int) : List Writer → Int → List UInt8 → Option (Int × List UInt8)
  | [], pos, buf => some (pos, buf)
  | w :: ws, pos, buf => do
      let (thislen, buf) ← w buf (offset + pos) (maxlen - pos)
      if thislen < 0 then some (thislen, buf) else steps offset maxlen ws (pos + thislen) buf

/-- Writers in turn, from `pos = 0` on. -/
def Writer.all (ws : List Writer) : Writer := fun buf offset maxlen => steps offset maxlen ws 0 buf

/-- The writer writes `bs` where there is room for it. Without, it fails, and what is outside of the room it
    was given is as before. -/
structure Writes (w : Writer) (bs : List UInt8) : Prop where
  fits : ∀ (buf : List UInt8) (off max : Nat), off + max ≤ buf.length → bs.length ≤ max →
    w buf off max = some ((bs.length : Int), splice buf off bs)
  full : ∀ (buf : List UInt8) (off max : Nat), off + max ≤ buf.length → max < bs.length →
    ∃ buf', w buf off max = some (-1, buf') ∧ Outside off max buf buf'

/-- The steps from `pos` on. -/
theorem Writes.steps {ws : List Writer} {bss : List (List UInt8)} (h : List.Forall₂ Writes ws bss) :
    ∀ (buf : List UInt8) (off max pos : Nat), off + max ≤ buf.length → pos ≤ max →
      (pos + bss.flatten.length ≤ max → Writer.steps off max ws pos buf =
        some (((pos + bss.flatten.length : Nat) : Int), splice buf (off + pos) bss.flatten)) ∧
      (max < pos + bss.flatten.length → ∃ buf', Writer.steps off max ws pos buf = some (-1, buf') ∧
        Outside (off + pos) (max - pos) buf buf') := by
  induction h with
  | nil =>
      intro buf off max pos hbuf hpos
      refine ⟨fun _ => ?_, fun hlt => absurd hlt (by simp; omega)⟩
      rw [Writer.steps, List.flatten_nil, splice_nil, List.length_nil, Nat.add_zero]
  | @cons w bs ws bss hw _ ih =>
      intro buf off max pos hbuf hpos
      have hoff : (off : Int) + (pos : Int) = ((off + pos : Nat) : Int) := rfl
      have hmax : (max : Int) - (pos : Int) = ((max - pos : Nat) : Int) := by omega
      rw [List.flatten_cons, List.length_append, Writer.steps, hoff, hmax]
      by_cases hroom : bs.length ≤ max - pos
      · -- this writer is done, the others go on behind what it has written
        have hsplice : (splice buf (off + pos) bs).length = buf.length := length_splice (by omega)
        obtain ⟨hfits, hfull⟩ := ih (splice buf (off + pos) bs) off max (pos + bs.length)
          (by omega) (by omega)
        have hnext : (pos : Int) + (bs.length : Int) = ((pos + bs.length : Nat) : Int) := rfl
        have hneg : ¬ ((bs.length : Int) < 0) := by omega
        rw [hw.fits _ _ _ (by omega) hroom]
        simp only [Option.bind_eq_bind, Option.bind_some, if_neg hneg, hnext]
        constructor
        · intro hle
          rw [hfits (by omega), ← Nat.add_assoc, ← Nat.add_assoc, splice_splice (by omega)]
        · intro hlt
          obtain ⟨buf', hstep, hout⟩ := hfull (by omega)
          rw [← Nat.add_assoc, Nat.sub_add_eq] at hout
          exact ⟨buf', hstep, (outside_splice (by omega) hroom).trans (hout.widen hroom)⟩
      · obtain ⟨buf', hstep, hout⟩ := hw.full buf (off + pos) (max - pos) (by omega) (by omega)
        rw [hstep]
        exact ⟨fun hle => absurd hle (by omega), fun _ => ⟨buf', rfl, hout⟩⟩

/-- A writer that compares its room with the length first and then stores. -/
theorem Writes.of_store {w : Writer}
    (h : ∀ (buf : List UInt8) (offset maxlen : Int), w buf offset maxlen =
      if maxlen < (bs.length : Int) then some (-1, buf)
      else (store buf offset bs).map fun buf => ((bs.length : Int), buf)) : Writes w bs where
  fits buf off max hbuf hle := by
    rw [h, if_neg (by omega), store_eq (by omega)]
    rfl
  full buf off max _ hlt := by
    rw [h, if_pos (by omega)]
    exact ⟨buf, rfl, .refl⟩

/-- **Sequences.** Writers in turn write one after the other. -/
theorem Writes.all {ws : List Writer} {bss : List (List UInt8)} (h : List.Forall₂ Writes ws bss) :
    Writes (Writer.all ws) bss.flatten where
  fits buf off max hbuf hle := by
    have hs := (Writes.steps h buf off max 0 hbuf (Nat.zero_le max)).1 (by omega)
    rw [Nat.zero_add] at hs
    exact hs
  full buf off max hbuf hlt := by
    obtain ⟨buf', hs, hout⟩ := (Writes.steps h buf off max 0 hbuf (Nat.zero_le max)).2 (by omega)
    exact ⟨buf', hs, hout⟩

/-! ## Readers -/

/-- How a function that reads ends: outside of what C defines, with a negative code, or with a result. -/
inductive Outcome (α : Type) where
  | undefined
  | failed (code : Int)
  | done (a : α)
  deriving DecidableEq, Repr

namespace Outcome

variable {α β : Type}

def bind (x : Outcome α) (f : α → Outcome β) : Outcome β :=
  match x with
  | undefined => undefined
  | failed code => failed code
  | done a => f a

instance : Monad Outcome where
  pure := done
  bind := bind

@[simp] theorem pure_eq (a : α) : (pure a : Outcome α) = done a := rfl
@[simp] theorem undefined_bind (f : α → Outcome β) : (undefined >>= f) = undefined := rfl
@[simp] theorem failed_bind (code : Int) (f : α → Outcome β) : (failed code >>= f) = failed code := rfl
@[simp] theorem done_bind (a : α) (f : α → Outcome β) : (done a >>= f) = f a := rfl

instance : LawfulMonad Outcome :=
  .mk' Outcome (fun x => by cases x <;> rfl) (fun _ _ => rfl) (fun x _ _ => by cases x <;> rfl)

/-- A sequence has a result if both its parts do. -/
theorem bind_eq_done {x : Outcome α} {f : α → Outcome β} {b : β} :
    x >>= f = done b ↔ ∃ a, x = done a ∧ f a = done b := by
  cases x with
  | undefined | failed => simp
  | done a => simp

theorem bind_eq_undefined {x : Outcome α} {f : α → Outcome β} :
    x >>= f = undefined ↔ x = undefined ∨ ∃ a, x = done a ∧ f a = undefined := by
  cases x with
  | undefined | failed => simp
  | done a => simp

end Outcome

variable {α β : Type}

/-- A function that reads: buffer, offset and room to the number of bytes read and what they say. -/
def Reader (α : Type) := List UInt8 → Int → Int → Outcome (Int × α)

/-- `thislen = r(buf, offset + pos, maxlen - pos); if (thislen < 0) return thislen; else pos += thislen;` and
    then the rest of the function. -/
def Reader.bind (r : Reader α) (k : α → Reader β) : Reader β := fun buf offset maxlen => do
  let (thislen, a) ← r buf offset maxlen
  let (rest, b) ← k a buf (offset + thislen) (maxlen - thislen)
  return (thislen + rest, b)

instance : Monad Reader where
  pure a := fun _ _ _ => .done (0, a)
  bind := Reader.bind

/-- A parser: the bytes in reach to what they say, and the bytes that are left. -/
abbrev Parser := StateT (List UInt8) Outcome

/-- What the reader does is what the parser does on the bytes of the room, and the parser reads from the
    front. -/
structure Reads (r : Reader α) (p : Parser α) : Prop where
  agree : ∀ {buf : List UInt8} {off max : Nat}, off + max ≤ buf.length →
    r buf off max = do
      let (a, rest) ← p.run ((buf.drop off).take max)
      return ((max - rest.length : Int), a)
  suffix : ∀ {room rest : List UInt8} {a : α}, p.run room = .done (a, rest) → rest <:+ room

theorem Reads.pure (a : α) : Reads (pure a : Reader α) (pure a) where
  agree {buf off max} hbuf := by
    have hlen : ((buf.drop off).take max).length = max := by
      rw [List.length_take, List.length_drop]
      omega
    simp only [StateT.run_pure, Outcome.pure_eq, Outcome.done_bind, hlen, Int.sub_self]
    rfl
  suffix h := by
    obtain ⟨-, rfl⟩ := Prod.mk.inj (Outcome.done.inj h)
    exact List.suffix_refl _

/-- **Sequences.** Readers in turn parse one after the other. -/
theorem Reads.bind {r : Reader α} {k : α → Reader β} {p : Parser α} {q : α → Parser β}
    (hr : Reads r p) (hk : ∀ a, Reads (k a) (q a)) : Reads (r >>= k) (p >>= q) where
  agree {buf off max} hbuf := by
    show Reader.bind r k buf off max = _
    have hlen : ((buf.drop off).take max).length = max := by
      rw [List.length_take, List.length_drop]
      omega
    rw [Reader.bind, hr.agree hbuf, StateT.run_bind]
    cases hp : p.run ((buf.drop off).take max) with
    | undefined | failed => rfl
    | done x =>
        obtain ⟨a, rest⟩ := x
        -- what is left is the end of the room, and the room of the second reader
        obtain ⟨read, hsplit⟩ := hr.suffix hp
        have hsum : read.length + rest.length = max := by
          rw [← hlen, ← hsplit, List.length_append]
        have hrest : (buf.drop (off + read.length)).take rest.length = rest := by
          have hdrop := congrArg (List.drop read.length) hsplit
          rw [List.drop_left, List.drop_take, List.drop_drop, ← hsum, Nat.add_sub_cancel_left] at hdrop
          exact hdrop.symm
        have hoff : (off : Int) + ((max : Int) - rest.length) = ((off + read.length : Nat) : Int) := by omega
        have hmax : (max : Int) - ((max : Int) - rest.length) = (rest.length : Int) := by omega
        simp only [Outcome.done_bind, Outcome.pure_eq, hoff, hmax]
        rw [(hk a).agree (by omega), hrest]
        cases (q a).run rest with
        | undefined | failed => rfl
        | done y =>
            simp only [Outcome.done_bind, Outcome.pure_eq, Outcome.done.injEq, Prod.mk.injEq, and_true]
            omega
  suffix {room rest b} h := by
    rw [StateT.run_bind] at h
    obtain ⟨⟨a, mid⟩, hp, hq⟩ := Outcome.bind_eq_done.mp h
    exact ((hk a).suffix hq).trans (hr.suffix hp)

/-! ## The next bytes -/

/-- The next `n` bytes, or -1. -/
def fetch (n : Nat) : Parser (List UInt8) := fun room =>
  if room.length < n then .failed (-1) else .done (room.take n, room.drop n)

theorem fetch_append (bs rest : List UInt8) : (fetch bs.length).run (bs ++ rest) = .done (bs, rest) := by
  show fetch bs.length (bs ++ rest) = _
  rw [fetch, if_neg (by rw [List.length_append]; omega), List.take_left, List.drop_left]

theorem fetch_eq_done {n : Nat} {room bs rest : List UInt8} :
    (fetch n).run room = .done (bs, rest) ↔ room = bs ++ rest ∧ bs.length = n := by
  constructor
  · intro h
    change fetch n room = _ at h
    unfold fetch at h
    split at h
    · exact absurd h (by simp)
    · obtain ⟨rfl, rfl⟩ := Prod.mk.inj (Outcome.done.inj h)
      exact ⟨(List.take_append_drop n room).symm, by rw [List.length_take]; omega⟩
  · rintro ⟨rfl, rfl⟩
    exact fetch_append bs rest

theorem fetch_ne_undefined {n : Nat} {room : List UInt8} : (fetch n).run room ≠ .undefined := by
  show fetch n room ≠ _
  unfold fetch
  split <;> simp

theorem fetch_map (n : Nat) (f : List UInt8 → α) (room : List UInt8) :
    (f <$> fetch n).run room =
      if room.length < n then .failed (-1) else .done (f (room.take n), room.drop n) := by
  rw [StateT.run_map]
  show _ <$> fetch n room = _
  unfold fetch
  split <;> rfl

/-- A reader that compares its room with the length first and then reads. -/
theorem Reads.fetch {r : Reader α} {n : Nat} {f : List UInt8 → α}
    (h : ∀ (buf : List UInt8) (off max : Nat), off + max ≤ buf.length → r buf off max =
      if max < n then .failed (-1) else .done ((n : Int), f ((buf.drop off).take n))) :
    Reads r (f <$> ByteBuffer.fetch n) where
  agree {buf off max} hbuf := by
    have hlen : ((buf.drop off).take max).length = max := by
      rw [List.length_take, List.length_drop]
      omega
    rw [h buf off max hbuf, fetch_map, hlen]
    by_cases hlt : max < n
    · rw [if_pos hlt, if_pos hlt]
      rfl
    · have hrest : (((buf.drop off).take max).drop n).length = max - n := by
        rw [List.length_drop, hlen]
      have htake : ((buf.drop off).take max).take n = (buf.drop off).take n := by
        rw [List.take_take, Nat.min_eq_left (by omega)]
      rw [if_neg hlt, if_neg hlt]
      simp only [Outcome.done_bind, Outcome.pure_eq, hrest, htake, Outcome.done.injEq, Prod.mk.injEq,
        and_true]
      omega
  suffix {room rest a} hrun := by
    rw [fetch_map] at hrun
    split at hrun
    · exact absurd hrun (by simp)
    · obtain ⟨-, rfl⟩ := Prod.mk.inj (Outcome.done.inj hrun)
      exact List.drop_suffix n room

/-- No parser: the run is not defined. -/
def crash : Parser α := fun _ => .undefined

@[simp] theorem crash_run (room : List UInt8) : (crash : Parser α).run room = .undefined := rfl

theorem Reads.crash {r : Reader α}
    (h : ∀ (buf : List UInt8) (off max : Nat), off + max ≤ buf.length → r buf off max = .undefined) :
    Reads r (ByteBuffer.crash : Parser α) where
  agree hbuf := by
    rw [h _ _ _ hbuf, crash_run]
    rfl
  suffix h := by
    rw [crash_run] at h
    exact absurd h (by simp)

/-- `return code` -/
def stop (code : Int) : Reader α := fun _ _ _ => .failed code

def refuse (code : Int) : Parser α := fun _ => .failed code

@[simp] theorem refuse_run (code : Int) (room : List UInt8) :
    (refuse code : Parser α).run room = .failed code := rfl

theorem Reads.refuse (code : Int) : Reads (stop code : Reader α) (ByteBuffer.refuse code) where
  agree _ := rfl
  suffix h := by
    rw [refuse_run] at h
    exact absurd h (by simp)

/-! ## Parsers that ask for bytes one by one

What such a parser has decided it does not take back when more bytes come. -/

/-- A run that has a result, or is not defined, is the same with more bytes behind. All it refuses with is
    -1. -/
structure Steady (p : Parser α) : Prop where
  done : ∀ {room rest : List UInt8} {a : α}, p.run room = .done (a, rest) →
    ∀ more, p.run (room ++ more) = .done (a, rest ++ more)
  undefined : ∀ {room : List UInt8}, p.run room = .undefined → ∀ more, p.run (room ++ more) = .undefined
  refused : ∀ {room : List UInt8} {code : Int}, p.run room = .failed code → code = -1

theorem Steady.pure (a : α) : Steady (pure a : Parser α) where
  done h more := by
    obtain ⟨rfl, rfl⟩ := Prod.mk.inj (Outcome.done.inj h)
    rfl
  undefined h := absurd h (by simp [StateT.run_pure])
  refused h := absurd h (by simp [StateT.run_pure])

theorem Steady.bind {p : Parser α} {q : α → Parser β} (hp : Steady p) (hq : ∀ a, Steady (q a)) :
    Steady (p >>= q) where
  done {room rest b} h more := by
    rw [StateT.run_bind] at h ⊢
    obtain ⟨⟨a, mid⟩, hrun, hrest⟩ := Outcome.bind_eq_done.mp h
    rw [hp.done hrun more, Outcome.done_bind]
    exact (hq a).done hrest more
  undefined {room} h more := by
    rw [StateT.run_bind] at h ⊢
    obtain hrun | ⟨⟨a, mid⟩, hrun, hrest⟩ := Outcome.bind_eq_undefined.mp h
    · rw [hp.undefined hrun more, Outcome.undefined_bind]
    · rw [hp.done hrun more, Outcome.done_bind]
      exact (hq a).undefined hrest more
  refused {room code} h := by
    rw [StateT.run_bind] at h
    cases hrun : p.run room with
    | undefined =>
        rw [hrun] at h
        exact absurd h (by simp)
    | failed code' =>
        rw [hrun] at h
        obtain rfl := Outcome.failed.inj h
        exact hp.refused hrun
    | done x =>
        rw [hrun] at h
        exact (hq x.1).refused h

theorem Steady.fetch (n : Nat) : Steady (ByteBuffer.fetch n) where
  done {room rest bs} h more := by
    obtain ⟨rfl, rfl⟩ := fetch_eq_done.mp h
    rw [List.append_assoc]
    exact fetch_append bs (rest ++ more)
  undefined h := absurd h fetch_ne_undefined
  refused {room code} h := by
    change ByteBuffer.fetch n room = _ at h
    unfold ByteBuffer.fetch at h
    split at h
    · exact (Outcome.failed.inj h).symm
    · exact absurd h (by simp)

theorem Steady.map {p : Parser α} (hp : Steady p) (f : α → β) : Steady (f <$> p) := by
  rw [map_eq_pure_bind]
  exact hp.bind fun a => .pure (f a)

theorem Steady.crash : Steady (ByteBuffer.crash : Parser α) where
  done h := absurd h (by simp)
  undefined _ _ := rfl
  refused h := absurd h (by simp)

theorem Steady.refuse : Steady (ByteBuffer.refuse (-1) : Parser α) where
  done h := absurd h (by simp)
  undefined h := absurd h (by simp)
  refused h := (Outcome.failed.inj h).symm

/-- **Truncation.** A proper prefix of bytes that are read to the end is refused. -/
theorem Steady.truncated {p : Parser α} (hp : Steady p) {bs more : List UInt8} {a : α}
    (h : p.run (bs ++ more) = .done (a, [])) (hmore : more ≠ []) : p.run bs = .failed (-1) := by
  cases hrun : p.run bs with
  | undefined =>
      rw [hp.undefined hrun more] at h
      exact absurd h (by simp)
  | failed code => rw [hp.refused hrun]
  | done x =>
      obtain ⟨b, rest⟩ := x
      rw [hp.done hrun more] at h
      exact absurd (List.append_eq_nil_iff.mp (Prod.mk.inj (Outcome.done.inj h)).2).2 hmore

end ByteBuffer
