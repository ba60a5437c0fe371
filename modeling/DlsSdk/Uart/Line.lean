import DlsSdk.Library.BitField

/-!
# `Uart.Line` — setting up the serial line

`_get_baud` and `linux_uart_init` of `linux_uart.h`, assignment by assignment, over the constants of
`<termios.h>` (`TermiosH`); what the line is then set to is read back from the flag words with the same
constants (`Honours`). A request is honoured exactly if it is `Supported` (`linuxUartInit_iff`): everything
else is accepted silently, with the line set to something else.

`open` answers a descriptor or a negative value, which is an argument; `tcsetattr` succeeds. The
`clear_custom_speed_flag` of the driver, which is no part of the termios, is left out, and so are the flushes.
-/

namespace DlsSdk

open BitField

/-- `tcflag_t` -/
abbrev Tcflag := BitVec 32

/-- The flags and fields of `c_cflag`. -/
inductive CFlag where
  | clocal | cread | cbaud | csize | cstopb | parenb | parodd | crtscts
  deriving DecidableEq, Repr

/-- The flags of `c_iflag`. -/
inductive IFlag where
  | inpck | istrip | ixon | ixoff
  deriving DecidableEq, Repr

/-- The constants of `<termios.h>`. The flags and fields of one flag word share no bits, and a constant that
    is the value of a field lies in the field. -/
structure TermiosH where
  cflag : CFlag → Tcflag
  iflag : IFlag → Tcflag
  cs5 : Tcflag
  cs6 : Tcflag
  cs7 : Tcflag
  cs8 : Tcflag
  /-- The `B` constants, by the rate they stand for. -/
  speed : Int32 → Option Tcflag
  /-- `linux_uart.h` defines `CRTSCTS` itself. -/
  crtscts_eq : cflag .crtscts = 0o20000000000
  cflag_apart : ∀ f g, f ≠ g → Apart (cflag f) (cflag g)
  iflag_apart : ∀ f g, f ≠ g → Apart (iflag f) (iflag g)
  cflag_ne : ∀ f, cflag f ≠ 0#32
  iflag_ne : ∀ f, iflag f ≠ 0#32
  sizes : ∀ c ∈ [cs5, cs6, cs7, cs8], c &&& cflag .csize = c
  sizes_nodup : [cs5, cs6, cs7, cs8].Nodup
  cs5_eq : cs5 = 0#32
  speeds : ∀ rate code, speed rate = some code → code &&& cflag .cbaud = code
  /-- The full field is the fastest rate's. -/
  speed_top : ∀ rate, speed rate = some (cflag .cbaud) → rate = 4000000

/-- `uart_t` -/
structure UartT where
  baud : Int32
  dataBits : Int32
  stopBits : Int32
  parity : Char
  deriving DecidableEq, Repr

/-- The fields of `struct termios` that `linux_uart_init` sets; the rest stays 0. -/
structure Termios where
  cIflag : Tcflag
  cCflag : Tcflag
  vmin : UInt8
  vtime : UInt8
  deriving DecidableEq, Repr

/-- `memset(&opt, 0, sizeof(opt))` -/
def Termios.zero : Termios := ⟨0, 0, 0, 0⟩

/-! ## The code -/

/-- The rates `_get_baud` has a case for. -/
def baudRates : List Int32 :=
  [9600, 19200, 38400, 57600, 115200, 230400, 460800, 500000, 576000, 921600,
    1000000, 1152000, 1500000, 2000000, 2500000, 3000000, 3500000, 4000000]

namespace TermiosH
variable (T : TermiosH)

/-- `_get_baud`, as it is or-ed into `c_cflag`. The cases from 1000000 on are there if the header has the
    constant. -/
def getBaud (baud : Int32) : Tcflag :=
  if baud ∈ baudRates then (T.speed baud).getD (-1) else -1

/-- The switch over `data_bits`. -/
def setDataBits (dataBits : Int32) (opt : Termios) : Termios :=
  if dataBits = 7 then { opt with cCflag := opt.cCflag ||| T.cs7 }
  else if dataBits = 8 then { opt with cCflag := opt.cCflag ||| T.cs8 }
  else opt

/-- The switch over `parity`. -/
def setParity (parity : Char) (opt : Termios) : Termios :=
  match parity with
  | 'N' | 'n' =>
      { opt with
        cIflag := opt.cIflag &&& ~~~(T.iflag .inpck)
        cCflag := opt.cCflag &&& ~~~(T.cflag .parenb) }
  | 'O' | 'o' =>
      { opt with
        cIflag := opt.cIflag ||| (T.iflag .inpck ||| T.iflag .istrip)
        cCflag := opt.cCflag ||| (T.cflag .parodd ||| T.cflag .parenb) }
  | 'E' | 'e' =>
      { opt with
        cIflag := opt.cIflag ||| (T.iflag .inpck ||| T.iflag .istrip)
        cCflag := (opt.cCflag ||| T.cflag .parenb) &&& ~~~(T.cflag .parodd) }
  | _ => opt

/-- The switch over `stop_bits`. -/
def setStopBits (stopBits : Int32) (opt : Termios) : Termios :=
  if stopBits = 1 then { opt with cCflag := opt.cCflag &&& ~~~(T.cflag .cstopb) }
  else if stopBits = 2 then { opt with cCflag := opt.cCflag ||| T.cflag .cstopb }
  else opt

/-- The first two assignments of `linux_uart_init`: modem lines and receiver, and the rate. -/
def setBaud (baud : Tcflag) (opt : Termios) : Termios :=
  let opt := { opt with cCflag := opt.cCflag ||| (T.cflag .clocal ||| T.cflag .cread) }
  { opt with cCflag := opt.cCflag ||| baud }

/-- The termios that `linux_uart_init` builds. -/
def configure (cfg : UartT) : Termios :=
  let opt := T.setBaud (T.getBaud cfg.baud) Termios.zero
  let opt := T.setDataBits cfg.dataBits opt
  let opt := T.setParity cfg.parity opt
  let opt := T.setStopBits cfg.stopBits opt
  let opt := { opt with cCflag := opt.cCflag &&& ~~~(T.cflag .crtscts) }
  { opt with vmin := 1, vtime := 0 }

/-- `linux_uart_init`, with the answer of `open` given: what it returns, and the termios it has applied. -/
def linuxUartInit (fd : Int32) (cfg : UartT) : Int32 × Option Termios :=
  if fd < 0 then (fd, none) else (fd, some (T.configure cfg))

end TermiosH

/-! ## Reading the line back -/

inductive Parity where
  | none | odd | even
  deriving DecidableEq, Repr

/-- The parity a character asks for. -/
def Parity.ofChar : Char → Option Parity
  | 'N' | 'n' => some .none
  | 'O' | 'o' => some .odd
  | 'E' | 'e' => some .even
  | _ => Option.none

namespace TermiosH
variable (T : TermiosH)

/-- The character size in `c_cflag`. -/
def decodeSize (cCflag : Tcflag) : Option Int32 :=
  if cCflag &&& T.cflag .csize = T.cs5 then some 5
  else if cCflag &&& T.cflag .csize = T.cs6 then some 6
  else if cCflag &&& T.cflag .csize = T.cs7 then some 7
  else if cCflag &&& T.cflag .csize = T.cs8 then some 8
  else none

/-- The stop bits in `c_cflag`. -/
def decodeStop (cCflag : Tcflag) : Int32 := if cCflag &&& T.cflag .cstopb = 0#32 then 1 else 2

/-- The parity in `c_cflag`. -/
def decodeParity (cCflag : Tcflag) : Parity :=
  if cCflag &&& T.cflag .parenb = 0#32 then .none
  else if cCflag &&& T.cflag .parodd = 0#32 then .even
  else .odd

/-- The termios is what was asked for: rate, size, stop bits and parity read back as requested, without
    flow control, with the receiver on and the modem lines ignored, and with the eighth bit stripped only off
    7-bit characters. -/
structure Honours (cfg : UartT) (opt : Termios) : Prop where
  baud : T.speed cfg.baud = some (opt.cCflag &&& T.cflag .cbaud)
  dataBits : T.decodeSize opt.cCflag = some cfg.dataBits
  stopBits : T.decodeStop opt.cCflag = cfg.stopBits
  parity : Parity.ofChar cfg.parity = some (T.decodeParity opt.cCflag)
  hardFlow : opt.cCflag &&& T.cflag .crtscts = 0#32
  softFlow : opt.cIflag &&& (T.iflag .ixon ||| T.iflag .ixoff) = 0#32
  clocal : opt.cCflag &&& T.cflag .clocal = T.cflag .clocal
  cread : opt.cCflag &&& T.cflag .cread = T.cflag .cread
  strip : opt.cIflag &&& T.iflag .istrip ≠ 0#32 → cfg.dataBits = 7

/-- The requests that the code handles: a rate of its table that the header has, 7 or 8 data bits (or 5,
    whose constant is 0), 1 or 2 stop bits, and a parity it knows, which is none unless there are 7 data
    bits. -/
structure Supported (cfg : UartT) : Prop where
  baud : cfg.baud ∈ baudRates ∧ (T.speed cfg.baud).isSome
  dataBits : cfg.dataBits = 5 ∨ cfg.dataBits = 7 ∨ cfg.dataBits = 8
  stopBits : cfg.stopBits = 1 ∨ cfg.stopBits = 2
  parity : Parity.ofChar cfg.parity = some .none ∨
    (Parity.ofChar cfg.parity).isSome ∧ cfg.dataBits = 7

end TermiosH

/-! ## What an assignment does to a field -/

section Fields
variable {T : TermiosH} {f : CFlag}

/-- The switch over `parity`, by what the character asks for. -/
theorem setParity_eq (parity : Char) (opt : Termios) :
    T.setParity parity opt = match Parity.ofChar parity with
      | some .none => { opt with
          cIflag := opt.cIflag &&& ~~~(T.iflag .inpck)
          cCflag := opt.cCflag &&& ~~~(T.cflag .parenb) }
      | some .odd => { opt with
          cIflag := opt.cIflag ||| (T.iflag .inpck ||| T.iflag .istrip)
          cCflag := opt.cCflag ||| (T.cflag .parodd ||| T.cflag .parenb) }
      | some .even => { opt with
          cIflag := opt.cIflag ||| (T.iflag .inpck ||| T.iflag .istrip)
          cCflag := (opt.cCflag ||| T.cflag .parenb) &&& ~~~(T.cflag .parodd) }
      | none => opt := by
  unfold TermiosH.setParity Parity.ofChar
  split <;> rfl

/-- A rate that the table and the header have. -/
theorem getBaud_eq {baud : Int32} {code : Tcflag} (hb : baud ∈ baudRates)
    (hs : T.speed baud = some code) : T.getBaud baud = code := by
  rw [TermiosH.getBaud, if_pos hb, hs]
  rfl

/-- Any other rate sets every bit. -/
theorem getBaud_eq_neg_one {baud : Int32} (h : ¬ (baud ∈ baudRates ∧ (T.speed baud).isSome)) :
    T.getBaud baud = -1 := by
  unfold TermiosH.getBaud
  by_cases hb : baud ∈ baudRates
  · have hs : T.speed baud = none := by
      rw [← Option.not_isSome_iff_eq_none]
      exact fun hs => h ⟨hb, hs⟩
    rw [if_pos hb, hs]
    rfl
  · rw [if_neg hb]

theorem size_apart (hf : f ≠ .csize) {c : Tcflag} (hc : c ∈ [T.cs5, T.cs6, T.cs7, T.cs8]) :
    Apart c (T.cflag f) :=
  (T.cflag_apart .csize f hf.symm).of_within (T.sizes c hc)

theorem setBaud_read (hl : f ≠ .clocal) (hr : f ≠ .cread) (code : Tcflag) :
    (T.setBaud code .zero).cCflag &&& T.cflag f = code &&& T.cflag f := by
  have hmodem : Apart (T.cflag .clocal ||| T.cflag .cread) (T.cflag f) :=
    (T.cflag_apart _ _ hl.symm).or (T.cflag_apart _ _ hr.symm)
  show (0#32 ||| (T.cflag .clocal ||| T.cflag .cread) ||| code) &&& T.cflag f = _
  rw [BitVec.zero_or, BitVec.or_comm, read_or hmodem]

theorem setDataBits_read (hf : f ≠ .csize) (dataBits : Int32) (opt : Termios) :
    (T.setDataBits dataBits opt).cCflag &&& T.cflag f = opt.cCflag &&& T.cflag f := by
  unfold TermiosH.setDataBits
  split
  · exact read_or (size_apart hf (by simp))
  · split
    · exact read_or (size_apart hf (by simp))
    · rfl

theorem setParity_read (hb : f ≠ .parenb) (ho : f ≠ .parodd) (parity : Char) (opt : Termios) :
    (T.setParity parity opt).cCflag &&& T.cflag f = opt.cCflag &&& T.cflag f := by
  have hparenb := T.cflag_apart _ _ hb.symm
  have hparodd := T.cflag_apart _ _ ho.symm
  rw [setParity_eq]
  split
  · exact read_clear hparenb
  · exact read_or (hparodd.or hparenb)
  · exact (read_clear hparodd).trans (read_or hparenb)
  · rfl

theorem setStopBits_read (hf : f ≠ .cstopb) (stopBits : Int32) (opt : Termios) :
    (T.setStopBits stopBits opt).cCflag &&& T.cflag f = opt.cCflag &&& T.cflag f := by
  have hstop := T.cflag_apart _ _ hf.symm
  unfold TermiosH.setStopBits
  split
  · exact read_clear hstop
  · split
    · exact read_or hstop
    · rfl

/-- The last assignments: only the flow control is still to be cleared. -/
theorem configure_read (hf : f ≠ .crtscts) (cfg : UartT) :
    (T.configure cfg).cCflag &&& T.cflag f =
      (T.setStopBits cfg.stopBits (T.setParity cfg.parity (T.setDataBits cfg.dataBits
        (T.setBaud (T.getBaud cfg.baud) .zero)))).cCflag &&& T.cflag f :=
  read_clear (T.cflag_apart _ _ hf.symm)

/-! ## The fields of the finished termios -/

/-- What no switch touches: the rate, the modem lines and the receiver. -/
theorem configure_base (hs : f ≠ .csize) (hb : f ≠ .parenb) (ho : f ≠ .parodd) (ht : f ≠ .cstopb)
    (hc : f ≠ .crtscts) (cfg : UartT) :
    (T.configure cfg).cCflag &&& T.cflag f =
      (T.setBaud (T.getBaud cfg.baud) .zero).cCflag &&& T.cflag f := by
  rw [configure_read hc, setStopBits_read ht, setParity_read hb ho, setDataBits_read hs]

theorem configure_cbaud (cfg : UartT) :
    (T.configure cfg).cCflag &&& T.cflag .cbaud = T.getBaud cfg.baud &&& T.cflag .cbaud := by
  rw [configure_base (by simp) (by simp) (by simp) (by simp) (by simp),
    setBaud_read (by simp) (by simp)]

/-- Modem lines and receiver are set whatever the rate. -/
theorem configure_modem (hf : f = .clocal ∨ f = .cread) (cfg : UartT) :
    (T.configure cfg).cCflag &&& T.cflag f = T.cflag f := by
  have hmodem : (T.cflag .clocal ||| T.cflag .cread) &&& T.cflag f = T.cflag f := by
    rcases hf with rfl | rfl
    · exact full_or (BitVec.and_self ..)
    · exact or_full (BitVec.and_self ..)
  have hbase : (T.configure cfg).cCflag &&& T.cflag f =
      (T.setBaud (T.getBaud cfg.baud) .zero).cCflag &&& T.cflag f := by
    rcases hf with rfl | rfl
    all_goals exact configure_base (by simp) (by simp) (by simp) (by simp) (by simp) cfg
  rw [hbase]
  show (0#32 ||| (T.cflag .clocal ||| T.cflag .cread) ||| _) &&& T.cflag f = T.cflag f
  rw [BitVec.zero_or]
  exact full_or hmodem

theorem configure_crtscts (cfg : UartT) :
    (T.configure cfg).cCflag &&& T.cflag .crtscts = 0#32 := read_clear_self

/-- `c_iflag` depends on the parity alone. -/
theorem configure_cIflag (cfg : UartT) :
    (T.configure cfg).cIflag = match Parity.ofChar cfg.parity with
      | some .odd | some .even => T.iflag .inpck ||| T.iflag .istrip
      | _ => 0#32 := by
  have hdata : (T.setDataBits cfg.dataBits (T.setBaud (T.getBaud cfg.baud) .zero)).cIflag = 0#32 := by
    unfold TermiosH.setDataBits
    repeat' split
    all_goals rfl
  have hstop : ∀ opt, (T.setStopBits cfg.stopBits opt).cIflag = opt.cIflag := by
    intro opt
    unfold TermiosH.setStopBits
    repeat' split
    all_goals rfl
  show (T.setStopBits cfg.stopBits (T.setParity cfg.parity (T.setDataBits cfg.dataBits
    (T.setBaud (T.getBaud cfg.baud) .zero)))).cIflag = _
  rw [hstop, setParity_eq]
  cases Parity.ofChar cfg.parity with
  | none => exact hdata
  | some parity =>
      cases parity with
      | none =>
          dsimp only
          rw [hdata, BitVec.zero_and]
      | odd | even =>
          dsimp only
          rw [hdata, BitVec.zero_or]

/-- Software flow control is never on. -/
theorem configure_softFlow (cfg : UartT) :
    (T.configure cfg).cIflag &&& (T.iflag .ixon ||| T.iflag .ixoff) = 0#32 := by
  have hflow : ∀ g, g ≠ IFlag.ixon → g ≠ .ixoff →
      Apart (T.iflag g) (T.iflag .ixon ||| T.iflag .ixoff) := fun g hon hoff =>
    ((T.iflag_apart _ _ hon.symm).or (T.iflag_apart _ _ hoff.symm)).symm
  have hset := (hflow .inpck nofun nofun).or (hflow .istrip nofun nofun)
  rw [configure_cIflag]
  split
  · exact hset
  · exact hset
  · exact BitVec.zero_and

/-- The eighth bit is stripped exactly for odd and even parity. -/
theorem configure_istrip (cfg : UartT) :
    (T.configure cfg).cIflag &&& T.iflag .istrip ≠ 0#32 ↔
      Parity.ofChar cfg.parity = some .odd ∨ Parity.ofChar cfg.parity = some .even := by
  have hset : (T.iflag .inpck ||| T.iflag .istrip) &&& T.iflag .istrip ≠ 0#32 := by
    rw [or_full (BitVec.and_self ..)]
    exact T.iflag_ne .istrip
  rw [configure_cIflag]
  cases Parity.ofChar cfg.parity with
  | none => simp
  | some parity => cases parity <;> simp [hset]

/-! With a rate of the table, `c_cflag` starts out without any other field. -/

section Rate
variable {cfg : UartT} {code : Tcflag}

theorem setBaud_empty (hcode : code &&& T.cflag .cbaud = code) (hb : f ≠ .cbaud) (hl : f ≠ .clocal)
    (hr : f ≠ .cread) : (T.setBaud code .zero).cCflag &&& T.cflag f = 0#32 := by
  rw [setBaud_read hl hr]
  exact (T.cflag_apart _ _ hb.symm).of_within hcode

theorem configure_csize (hbaud : T.getBaud cfg.baud = code) (hcode : code &&& T.cflag .cbaud = code) :
    (T.configure cfg).cCflag &&& T.cflag .csize =
      if cfg.dataBits = 7 then T.cs7 else if cfg.dataBits = 8 then T.cs8 else 0#32 := by
  have hempty := setBaud_empty (f := .csize) hcode nofun nofun nofun
  rw [configure_read (by simp), setStopBits_read (by simp), setParity_read (by simp) (by simp), hbaud]
  unfold TermiosH.setDataBits
  split
  · exact (read_or_within (T.sizes _ (by simp))).trans (by rw [hempty, BitVec.zero_or])
  · split
    · exact (read_or_within (T.sizes _ (by simp))).trans (by rw [hempty, BitVec.zero_or])
    · exact hempty

theorem configure_cstopb (hbaud : T.getBaud cfg.baud = code) (hcode : code &&& T.cflag .cbaud = code) :
    (T.configure cfg).cCflag &&& T.cflag .cstopb =
      if cfg.stopBits = 2 then T.cflag .cstopb else 0#32 := by
  have hempty := setBaud_empty (f := .cstopb) hcode nofun nofun nofun
  have hbefore : (T.setParity cfg.parity (T.setDataBits cfg.dataBits (T.setBaud code .zero))).cCflag &&&
      T.cflag .cstopb = 0#32 := by
    rw [setParity_read (by simp) (by simp), setDataBits_read (by simp), hempty]
  rw [configure_read (by simp), hbaud]
  unfold TermiosH.setStopBits
  by_cases h1 : cfg.stopBits = 1
  · have h2 : cfg.stopBits ≠ 2 := by rw [h1]; decide
    rw [if_pos h1, if_neg h2]
    exact read_clear_self
  · rw [if_neg h1]
    by_cases h2 : cfg.stopBits = 2
    · rw [if_pos h2, if_pos h2]
      exact (read_or_within (BitVec.and_self ..)).trans (by rw [hbefore, BitVec.zero_or])
    · rw [if_neg h2, if_neg h2]
      exact hbefore

/-- The parity flags spell the parity asked for; a character that asks for none of the three leaves both
    off. -/
theorem configure_parity (hbaud : T.getBaud cfg.baud = code)
    (hcode : code &&& T.cflag .cbaud = code) :
    T.decodeParity (T.configure cfg).cCflag = (Parity.ofChar cfg.parity).getD .none := by
  have hbefore : ∀ g, g ≠ CFlag.cbaud → g ≠ .clocal → g ≠ .cread → g ≠ .csize →
      (T.setDataBits cfg.dataBits (T.setBaud code .zero)).cCflag &&& T.cflag g = 0#32 := by
    intro g hb hl hr hs
    rw [setDataBits_read hs, setBaud_empty hcode hb hl hr]
  have hb := hbefore .parenb nofun nofun nofun nofun
  have ho := hbefore .parodd nofun nofun nofun nofun
  have hapart : Apart (T.cflag .parodd) (T.cflag .parenb) := T.cflag_apart _ _ nofun
  unfold TermiosH.decodeParity
  rw [configure_read (by simp), configure_read (by simp), setStopBits_read (by simp),
    setStopBits_read (by simp), hbaud, setParity_eq]
  generalize (T.setDataBits cfg.dataBits (T.setBaud code .zero)) = opt at hb ho
  cases Parity.ofChar cfg.parity with
  | none =>
      dsimp only
      rw [hb]
      rfl
  | some parity =>
      cases parity with
      | none =>
          dsimp only
          rw [read_clear_self]
          rfl
      | odd =>
          have hsetb : (opt.cCflag ||| (T.cflag .parodd ||| T.cflag .parenb)) &&& T.cflag .parenb =
              T.cflag .parenb := or_full (or_full (BitVec.and_self ..))
          have hseto : (opt.cCflag ||| (T.cflag .parodd ||| T.cflag .parenb)) &&& T.cflag .parodd =
              T.cflag .parodd := or_full (full_or (BitVec.and_self ..))
          dsimp only
          rw [hsetb, hseto, if_neg (T.cflag_ne .parenb), if_neg (T.cflag_ne .parodd)]
          rfl
      | even =>
          have hsetb : (opt.cCflag ||| T.cflag .parenb) &&& T.cflag .parenb = T.cflag .parenb :=
            or_full (BitVec.and_self ..)
          dsimp only
          rw [read_clear hapart, hsetb, read_clear_self, if_neg (T.cflag_ne .parenb), if_pos rfl]
          rfl

end Rate

end Fields

/-! ## Which requests are honoured -/

section Honours
variable {T : TermiosH} {cfg : UartT}

/-- An unknown rate is not honoured: the field is full, which names the fastest rate if any. -/
theorem rate_of_cbaud (hb : T.speed cfg.baud = some ((T.configure cfg).cCflag &&& T.cflag .cbaud)) :
    cfg.baud ∈ baudRates ∧ (T.speed cfg.baud).isSome := by
  by_contra hno
  have hfull : (-1) &&& T.cflag .cbaud = T.cflag .cbaud := BitVec.allOnes_and
  rw [configure_cbaud, getBaud_eq_neg_one hno, hfull] at hb
  have htop := T.speed_top _ hb
  exact hno ⟨by rw [htop]; decide, by rw [hb]; rfl⟩

/-- The character size is read back, 5 bits through the constant 0. -/
theorem decodeSize_iff {c : Tcflag} {d : Int32}
    (hc : c &&& T.cflag .csize = if d = 7 then T.cs7 else if d = 8 then T.cs8 else 0#32) :
    T.decodeSize c = some d ↔ d = 5 ∨ d = 7 ∨ d = 8 := by
  have hnodup := T.sizes_nodup
  have h5 := T.cs5_eq
  simp only [List.nodup_cons, List.mem_cons, List.not_mem_nil, not_or, or_false] at hnodup
  obtain ⟨⟨h56, h57, h58⟩, ⟨h67, h68⟩, h78, -⟩ := hnodup
  unfold TermiosH.decodeSize
  rw [hc]
  by_cases hd7 : d = 7
  · rw [if_pos hd7, if_neg (Ne.symm h57), if_neg (Ne.symm h67), if_pos rfl]
    simp [hd7]
  · rw [if_neg hd7]
    by_cases hd8 : d = 8
    · rw [if_pos hd8, if_neg (Ne.symm h58), if_neg (Ne.symm h68), if_neg (Ne.symm h78), if_pos rfl]
      simp [hd8]
    · rw [if_neg hd8, if_pos h5.symm]
      simp [hd7, hd8, eq_comm]

/-- So are the stop bits. -/
theorem decodeStop_iff {c : Tcflag} {s : Int32}
    (hc : c &&& T.cflag .cstopb = if s = 2 then T.cflag .cstopb else 0#32) :
    T.decodeStop c = s ↔ s = 1 ∨ s = 2 := by
  unfold TermiosH.decodeStop
  rw [hc]
  by_cases h2 : s = 2
  · rw [if_pos h2, if_neg (T.cflag_ne .cstopb)]
    simp [h2]
  · rw [if_neg h2, if_pos rfl]
    simp [h2, eq_comm]

/-- **A request is honoured exactly if it is supported.** -/
theorem configure_honours_iff (T : TermiosH) (cfg : UartT) :
    T.Honours cfg (T.configure cfg) ↔ T.Supported cfg := by
  have hrate : T.Honours cfg (T.configure cfg) ∨ T.Supported cfg →
      cfg.baud ∈ baudRates ∧ (T.speed cfg.baud).isSome :=
    fun h => h.elim (fun hh => rate_of_cbaud hh.baud) fun hs => hs.baud
  by_cases hknown : cfg.baud ∈ baudRates ∧ (T.speed cfg.baud).isSome
  · obtain ⟨code, hspeed⟩ := Option.isSome_iff_exists.mp hknown.2
    have hbaud := getBaud_eq hknown.1 hspeed
    have hcode := T.speeds _ _ hspeed
    have hsize := decodeSize_iff (configure_csize hbaud hcode)
    have hstop := decodeStop_iff (configure_cstopb hbaud hcode)
    have hparity := configure_parity hbaud hcode
    have hstrip := configure_istrip (T := T) cfg
    constructor
    · intro h
      refine ⟨hknown, hsize.mp h.dataBits, hstop.mp h.stopBits, ?_⟩
      have hp := h.parity
      cases hasked : Parity.ofChar cfg.parity with
      | none => rw [hasked] at hp; exact absurd hp (by simp)
      | some parity =>
          cases parity with
          | none => exact .inl rfl
          | odd => exact .inr ⟨rfl, h.strip (hstrip.mpr (.inl hasked))⟩
          | even => exact .inr ⟨rfl, h.strip (hstrip.mpr (.inr hasked))⟩
    · intro h
      refine ⟨?_, hsize.mpr h.dataBits, hstop.mpr h.stopBits, ?_, configure_crtscts cfg,
        configure_softFlow cfg, configure_modem (.inl rfl) cfg, configure_modem (.inr rfl) cfg, ?_⟩
      · rw [configure_cbaud, hbaud, hcode, hspeed]
      · rw [hparity]
        obtain hnone | ⟨hsome, -⟩ := h.parity
        · rw [hnone]
          rfl
        · obtain ⟨parity, hasked⟩ := Option.isSome_iff_exists.mp hsome
          rw [hasked]
          rfl
      · intro hset
        obtain hnone | ⟨-, h7⟩ := h.parity
        · rw [hnone] at hstrip
          exact absurd (hstrip.mp hset) (by simp)
        · exact h7
  · exact ⟨fun h => absurd (hrate (.inl h)) hknown, fun h => absurd (hrate (.inr h)) hknown⟩

end Honours

/-- **The line is set up as requested, or refused**, exactly if `open` fails or the request is supported. -/
theorem linuxUartInit_iff (T : TermiosH) (fd : Int32) (cfg : UartT) :
    ((T.linuxUartInit fd cfg).1 < 0 ∨
        ∃ opt, (T.linuxUartInit fd cfg).2 = some opt ∧ T.Honours cfg opt) ↔
      fd < 0 ∨ T.Supported cfg := by
  unfold TermiosH.linuxUartInit
  by_cases hfd : fd < 0
  · rw [if_pos hfd]
    exact ⟨fun _ => .inl hfd, fun _ => .inl hfd⟩
  · rw [if_neg hfd]
    have hh := configure_honours_iff T cfg
    constructor
    · rintro (h | ⟨opt, hopt, h⟩)
      · exact .inl h
      · obtain rfl := Option.some.inj hopt
        exact .inr (hh.mp h)
    · rintro (h | h)
      · exact .inl h
      · exact .inr ⟨_, rfl, hh.mpr h⟩

/-! ## Linux -/

/-- The flags of `<termios.h>` on Linux. -/
def linuxCFlag : CFlag → Tcflag
  | .clocal => 0o4000
  | .cread => 0o200
  | .cbaud => 0o10017
  | .csize => 0o60
  | .cstopb => 0o100
  | .parenb => 0o400
  | .parodd => 0o1000
  | .crtscts => 0o20000000000

def linuxIFlag : IFlag → Tcflag
  | .inpck => 0o20
  | .istrip => 0o40
  | .ixon => 0o2000
  | .ixoff => 0o10000

/-- The rates of `<termios.h>` on Linux. -/
def linuxSpeeds : List (Int32 × Tcflag) :=
  [(0, 0), (50, 0o1), (75, 0o2), (110, 0o3), (134, 0o4), (150, 0o5), (200, 0o6), (300, 0o7),
    (600, 0o10), (1200, 0o11), (1800, 0o12), (2400, 0o13), (4800, 0o14), (9600, 0o15), (19200, 0o16),
    (38400, 0o17), (57600, 0o10001), (115200, 0o10002), (230400, 0o10003), (460800, 0o10004),
    (500000, 0o10005), (576000, 0o10006), (921600, 0o10007), (1000000, 0o10010), (1152000, 0o10011),
    (1500000, 0o10012), (2000000, 0o10013), (2500000, 0o10014), (3000000, 0o10015), (3500000, 0o10016),
    (4000000, 0o10017)]

/-- A rate that the table gives a constant for stands in it with that constant. -/
theorem linuxSpeeds_mem {rate : Int32} {code : Tcflag} (h : linuxSpeeds.lookup rate = some code) :
    (rate, code) ∈ linuxSpeeds := by
  obtain ⟨before, after, hsplit, -⟩ := List.lookup_eq_some_iff.mp h
  rw [hsplit]
  exact List.mem_append_right _ List.mem_cons_self

theorem linuxSpeeds_within : ∀ p ∈ linuxSpeeds, p.2 &&& linuxCFlag .cbaud = p.2 := by
  have hall : linuxSpeeds.all (fun p => p.2 &&& linuxCFlag .cbaud == p.2) = true := by decide +kernel
  intro p hp
  exact eq_of_beq (List.all_eq_true.mp hall p hp)

theorem linuxSpeeds_top : ∀ p ∈ linuxSpeeds, p.2 = linuxCFlag .cbaud → p.1 = 4000000 := by
  have hall : linuxSpeeds.all (fun p => p.2 != linuxCFlag .cbaud || p.1 == 4000000) = true := by
    decide +kernel
  intro p hp htop
  simpa [htop] using List.all_eq_true.mp hall p hp

def TermiosH.linux : TermiosH where
  cflag := linuxCFlag
  iflag := linuxIFlag
  cs5 := 0
  cs6 := 0o20
  cs7 := 0o40
  cs8 := 0o60
  speed := fun rate => linuxSpeeds.lookup rate
  crtscts_eq := rfl
  cflag_apart := by
    intro f g hfg
    cases f <;> cases g <;> first | exact absurd rfl hfg | decide
  iflag_apart := by
    intro f g hfg
    cases f <;> cases g <;> first | exact absurd rfl hfg | decide
  cflag_ne := by
    intro f
    cases f <;> decide
  iflag_ne := by
    intro f
    cases f <;> decide
  sizes := by simp [linuxCFlag]
  sizes_nodup := by decide
  cs5_eq := rfl
  speeds _ _ h := linuxSpeeds_within _ (linuxSpeeds_mem h)
  speed_top _ h := linuxSpeeds_top _ (linuxSpeeds_mem h) rfl

/-- The usual line is set up. -/
theorem linuxUartInit_usual :
    ((TermiosH.linux.linuxUartInit 3 ⟨115200, 8, 1, 'N'⟩).1 < 0 ∨
      ∃ opt, (TermiosH.linux.linuxUartInit 3 ⟨115200, 8, 1, 'N'⟩).2 = some opt ∧
        TermiosH.linux.Honours ⟨115200, 8, 1, 'N'⟩ opt) :=
  (linuxUartInit_iff .linux 3 ⟨115200, 8, 1, 'N'⟩).mpr
    (.inr ⟨by decide +kernel, by decide, by decide, .inl rfl⟩)

/-- **Even parity on 8 data bits** is accepted and clears the eighth bit of what is received; **300 baud** is
    accepted and runs at 4000000. -/
theorem linuxUartInit_silent :
    (¬ ((TermiosH.linux.linuxUartInit 3 ⟨115200, 8, 1, 'E'⟩).1 < 0 ∨
      ∃ opt, (TermiosH.linux.linuxUartInit 3 ⟨115200, 8, 1, 'E'⟩).2 = some opt ∧
        TermiosH.linux.Honours ⟨115200, 8, 1, 'E'⟩ opt)) ∧
    TermiosH.linux.speed 4000000 =
      some ((TermiosH.linux.configure ⟨300, 8, 1, 'N'⟩).cCflag &&& TermiosH.linux.cflag .cbaud) := by
  constructor
  · rintro (h | ⟨opt, hopt, h⟩)
    · exact absurd h (by decide)
    · obtain rfl := Option.some.inj hopt
      exact absurd (h.strip (by decide +kernel)) (by decide)
  · decide +kernel

end DlsSdk
