import DlsSdk.Library.Buffer

/-!
# `Uart.Device` — the functions of `linux_uart.c`

`struct _ts_` and one call of `linux_uart_loop`, statement by statement. What the poll of a call brings is
an argument (`Poll`). What the code does to the outside and to memory is logged: the frames that reach the
checksum stage (it prints them there), the writes to the port, and the stores and block copies into its two
buffers with the places they go to.

`buf` is the last field of the struct, so what a block copy puts behind its end is not part of the state;
neither is the byte behind `data`, the padding before `jpg_data`. `none` is a call that does not return.
The host is little-endian.
-/

namespace DlsSdk

/-! ## `CheckSum8` -/

/-- The loop of `CheckSum8`. The counter `iX` is a `uint8_t`: after 256 rounds it is 0 again, so a loop
    that has not ended by then never does. -/
def checkSum8Loop (input : List UInt8) (nbrOfBytes : UInt16) : Nat → UInt8 → UInt8 → Option UInt8
  | 0, _, _ => none
  | fuel + 1, sum, iX =>
      if iX.toUInt16 < nbrOfBytes then
        checkSum8Loop input nbrOfBytes fuel (sum + input.getD iX.toNat 0) (iX + 1)
      else some sum

/-- `CheckSum8`; `input` may be `NULL`, and then the loop ends at once. -/
def checkSum8 (seed : UInt8) (input : Option (List UInt8)) (nbrOfBytes : UInt16) : Option UInt8 :=
  let nbrOfBytes := if nbrOfBytes > 0xFFFE then 0xFFFE else nbrOfBytes
  match input with
  | none => some seed
  | some input => checkSum8Loop input nbrOfBytes 257 seed 0

/-! ## `CRC16` -/

/-- The inner loop of `CRC16`: `bit` shifts of the register. -/
def crc16Bits (polynomial : UInt16) : Nat → UInt16 → UInt16
  | 0, crc => crc
  | bit + 1, crc =>
      crc16Bits polynomial bit
        (if crc &&& 0x8000 ≠ 0 then (crc <<< 1) ^^^ polynomial else crc <<< 1)

/-- The outer loop. The counter is as wide as the length, so it gets there before it is 0 again. -/
def crc16Loop (polynomial : UInt16) (input : List UInt8) (nbrOfBytes : UInt16) :
    Nat → UInt16 → UInt16 → Option UInt16
  | 0, _, _ => none
  | fuel + 1, crc, byteCtr =>
      if byteCtr < nbrOfBytes then
        let crc := crc ^^^ ((input.getD byteCtr.toNat 0).toUInt16 <<< 8)
        crc16Loop polynomial input nbrOfBytes fuel (crc16Bits polynomial 8 crc) (byteCtr + 1)
      else some crc

/-- `CRC16` -/
def crc16 (polynomial seed : UInt16) (input : List UInt8) (nbrOfBytes : UInt16) : Option UInt16 :=
  crc16Loop polynomial input nbrOfBytes 65536 seed 0

/-! ## The state -/

/-- `struct pack_t`: the frame being assembled. -/
structure PackT where
  work : UInt16
  size : UInt16
  data : Vector UInt8 255

/-- `sizeof(jpg_data.buf)` -/
abbrev jpgSize : Nat := 100 * 1024

/-- `struct _jpg_`: the image being received. -/
structure Jpg where
  pos : UInt32
  len : UInt32
  buf : Vector UInt8 jpgSize

/-- What one call leaves behind: a store to `pack_data.data[index]`, a frame at the checksum stage, a
    `memcpy` of `size` bytes to `jpg_data.buf + pos`, and a `write` to the port. -/
inductive UartEvent where
  | store (index : Nat)
  | frame (bytes : List UInt8)
  | copy (pos size : Nat)
  | write (bytes : List UInt8)
  deriving DecidableEq, Repr

/-- `struct _ts_`, without the handles of the port, and the events so far, oldest first. -/
structure Ts where
  pack : PackT
  jpg : Jpg
  log : List UartEvent

/-- The zero-initialised global `ts`. -/
def Ts.zero : Ts where
  pack := ⟨0, 0, Vector.replicate 255 0⟩
  jpg := ⟨0, 0, Vector.replicate jpgSize 0⟩
  log := []

def Ts.emit (t : Ts) (e : UartEvent) : Ts := { t with log := t.log ++ [e] }

/-- What `select` and `read` say in one call. -/
inductive Poll where
  | notReady
  | selectFail
  | readFail
  | eof
  | byte (b : UInt8)
  deriving DecidableEq, Repr

/-! ## `linux_uart_loop` -/

/-- The block `work == 0`: a new frame starts with a cleared buffer. -/
def Ts.reset (t : Ts) : Ts :=
  if t.pack.work = 0 then { t with pack := ⟨1, 0, Vector.replicate 255 0⟩ } else t

/-- `data[size] = tmp; size += 1` -/
def Ts.receive (t : Ts) (tmp : UInt8) : Ts :=
  let t := t.emit (.store t.pack.size.toNat)
  { t with
    pack.data := t.pack.data.setIfInBounds t.pack.size.toNat tmp
    pack.size := t.pack.size + 1 }

/-- The two tests after a `read`: a complete frame goes on to the checksum stage, a frame that is too
    long is dropped. -/
def Ts.measure (t : Ts) : Ts :=
  let t :=
    if t.pack.size.toNat = t.pack.data[0].toNat + 4 then { t with pack.work := 2 } else t
  if t.pack.size > 255 then { t with pack.work := 0 } else t

/-- The block `work == 1`. A `read` of 0 bytes is not `-1`: the byte stored is then `tmp`'s initial 0. -/
def Ts.poll (t : Ts) (p : Poll) : Ts :=
  if t.pack.work = 1 then
    match p with
    | .notReady | .selectFail => t
    | .readFail => t.measure
    | .eof => (t.receive 0).measure
    | .byte b => (t.receive b).measure
  else t

/-- The four bytes of `file_size`, most significant first in the frame. -/
def fileSize (b3 b2 b1 b0 : UInt8) : UInt32 :=
  b3.toUInt32 <<< 24 ||| b2.toUInt32 <<< 16 ||| b1.toUInt32 <<< 8 ||| b0.toUInt32

/-- `sizeof` a string literal counts the NUL behind it. -/
def cString (bytes : List UInt8) : List UInt8 := bytes ++ [0]

/-- The replies to `0x0A`, `0x0B`, `0x04` and `0x0F`. -/
def replyBegin : List UInt8 :=
  cString [0x05, 0xAC, 0x0A, 0x0A, 0x00, 0x00, 0x00, 0x00, 0x00]

def replyData : List UInt8 := cString [0x01, 0xAC, 0x0B, 0x0B, 0x00]

def replyState : List UInt8 :=
  cString [0x08, 0xAC, 0x3C, 0x04, 0x01, 0x18, 0x04, 0x02, 0x00, 0x19, 0x00, 0x00]

def replyParam : List UInt8 :=
  cString [0x0D, 0xAC, 0x1B, 0x0F, 0x00, 0x00, 0x7F, 0x00, 0x80, 0x00, 0x71, 0x00, 0x0F, 0x00, 0x0E,
    0x00, 0x7F]

/-- The dispatch on `data[3]` of an accepted frame. -/
def Ts.dispatch (t : Ts) : Ts :=
  let data := t.pack.data
  if data[3] = 0x0A then
    let t := t.emit (.write replyBegin)
    { t with jpg.pos := 0, jpg.len := fileSize data[53] data[54] data[55] data[56] }
  else if data[3] = 0x0B then
    -- the source of the copy is `data + 4`, its size `size - 4`
    let payload := (data.toList.drop 4).take (t.pack.size.toNat - 4)
    let t := t.emit (.copy t.jpg.pos.toNat (t.pack.size.toNat - 4))
    let t := { t with
      jpg.buf := Buffer.blit t.jpg.buf t.jpg.pos.toNat payload
      jpg.pos := t.jpg.pos + (t.pack.size - 4).toUInt32 }
    t.emit (.write replyData)
  else if data[3] = 0x0C then t
  else if data[3] = 0x04 then t.emit (.write replyState)
  else if data[3] = 0x0F then t.emit (.write replyParam)
  else t

/-- The block `work == 2`: the checksum stage. -/
def Ts.check (t : Ts) : Option Ts :=
  if t.pack.work = 2 then
    let t := { t with pack.work := 3 }
    let t := t.emit (.frame (t.pack.data.toList.take t.pack.size.toNat))
    (checkSum8 0 (some (t.pack.data.toList.drop 3)) (t.pack.size - 3)).map fun crc8 =>
      if crc8 = t.pack.data[2] then { t.dispatch with pack.work := 0 }
      else { t with pack.work := 0 }
  else some t

/-- `linux_uart_loop` -/
def linuxUartLoop (t : Ts) (p : Poll) : Option Ts := (t.reset.poll p).check

/-- One call per poll. -/
def linuxUartRun (t : Ts) (polls : List Poll) : Option Ts := polls.foldlM linuxUartLoop t

/-- The frames that have reached the checksum stage. -/
def checked (log : List UartEvent) : List (List UInt8) :=
  log.filterMap fun e => match e with
    | .frame bytes => some bytes
    | _ => none

/-- The bytes written to the port. -/
def written (log : List UartEvent) : List UInt8 :=
  log.flatMap fun e => match e with
    | .write bytes => bytes
    | _ => []

end DlsSdk
