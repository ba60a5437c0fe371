import DlsSdk.Library.Framing
import DlsSdk.Uart.Device
import Mathlib.Data.UInt

/-!
# `Uart.Protocol` — the protocol of whole frames

What the serial line is for, without the machine: a frame with first byte `L` has `L + 4` bytes, the next
one follows at once, byte 2 is the sum of the bytes from 3 on, and byte 3 is the command. `handleFrame` is
the effect of one frame on the image and on the port; it looks at nothing but the frame and the image.
-/

namespace DlsSdk

/-- The bytes of a frame that follow its first byte. -/
def follow (L : UInt8) : Nat := L.toNat + 3

/-- Byte `i` of a frame; absent bytes are 0. -/
def frameByte (f : List UInt8) (i : Nat) : UInt8 := f.getD i 0

/-- The frame's byte 2 is the sum of its bytes from 3 on, modulo 256. -/
def Accepted (f : List UInt8) : Prop := (f.drop 3).sum = frameByte f 2

instance (f : List UInt8) : Decidable (Accepted f) := inferInstanceAs (Decidable (_ = _))

/-- The image: `jpg_data` with its buffer as a list of bytes. -/
structure Image where
  pos : UInt32
  len : UInt32
  bytes : List UInt8
  deriving DecidableEq, Repr

def Jpg.image (jpg : Jpg) : Image := ⟨jpg.pos, jpg.len, jpg.buf.toList⟩

/-- The zero-initialised image. -/
def Image.zero : Image := ⟨0, 0, List.replicate jpgSize 0⟩

/-- The image grows by a payload at the current position. -/
def Image.append (img : Image) (payload : List UInt8) : Image where
  pos := img.pos + UInt32.ofNat payload.length
  len := img.len
  bytes := img.bytes.take img.pos.toNat ++ payload ++ img.bytes.drop (img.pos.toNat + payload.length)

/-- **One frame**: the image and everything written to the port so far, before and after. -/
def handleFrame (s : Image × List UInt8) (f : List UInt8) : Image × List UInt8 :=
  if Accepted f then
    if frameByte f 3 = 0x0A then
      ({ s.1 with
          pos := 0
          len := fileSize (frameByte f 53) (frameByte f 54) (frameByte f 55) (frameByte f 56) },
        s.2 ++ replyBegin)
    else if frameByte f 3 = 0x0B then (s.1.append (f.drop 4), s.2 ++ replyData)
    else if frameByte f 3 = 0x0C then s
    else if frameByte f 3 = 0x04 then (s.1, s.2 ++ replyState)
    else if frameByte f 3 = 0x0F then (s.1, s.2 ++ replyParam)
    else s
  else s

/-- The frame's payload, if it has one for the image, ends inside the buffer. -/
def Fits (img : Image) (f : List UInt8) : Prop :=
  Accepted f → frameByte f 3 = 0x0B → img.pos.toNat + (f.drop 4).length ≤ jpgSize

instance (img : Image) (f : List UInt8) : Decidable (Fits img f) :=
  inferInstanceAs (Decidable (_ → _ → _))

/-- The image payload stays within the buffer all along. -/
def FitsAll (s : Image × List UInt8) : List (List UInt8) → Prop
  | [] => True
  | f :: fs => Fits s.1 f ∧ FitsAll (handleFrame s f) fs

instance : (s : Image × List UInt8) → (fs : List (List UInt8)) → Decidable (FitsAll s fs)
  | _, [] => inferInstanceAs (Decidable True)
  | s, f :: fs =>
      have := instDecidableFitsAll (handleFrame s f) fs
      inferInstanceAs (Decidable (_ ∧ _))

theorem fitsAll_snoc {s : Image × List UInt8} {fs : List (List UInt8)} {f : List UInt8} :
    FitsAll s (fs ++ [f]) ↔ FitsAll s fs ∧ Fits (fs.foldl handleFrame s).1 f := by
  induction fs generalizing s with
  | nil =>
      constructor
      · intro h
        exact ⟨trivial, h.1⟩
      · intro h
        exact ⟨h.2, trivial⟩
  | cons g fs ih =>
      rw [List.cons_append, List.foldl_cons]
      constructor
      · rintro ⟨h1, h2⟩
        obtain ⟨h3, h4⟩ := ih.mp h2
        exact ⟨⟨h1, h3⟩, h4⟩
      · rintro ⟨⟨h1, h3⟩, h4⟩
        exact ⟨h1, ih.mpr ⟨h3, h4⟩⟩

/-! ## Streams -/

/-- The bytes that the polls deliver. -/
def delivered (polls : List Poll) : List UInt8 :=
  polls.filterMap fun p => match p with
    | .byte b => some b
    | _ => none

/-- Every frame of the stream, also one that is not finished, starts with a length byte of at most 251. -/
def Short (stream : List UInt8) : Prop :=
  ∀ f ∈ (Framing.split follow stream).1 ++ [(Framing.split follow stream).2],
    ∀ L ∈ f.head?, L.toNat ≤ 251

end DlsSdk
