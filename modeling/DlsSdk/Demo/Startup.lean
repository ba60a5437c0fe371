import DlsSdk.LcmNet.Loop

/-!
# `Demo.Startup` — the configuration block of `main`

`/tmp/demo.json` is read, parsed and taken apart into four strings, one assignment after the other; then it is
removed. An exception leaves the assignments before it in place. The block has a handler for
`json5pp::syntax_error` alone, so what `as_array`, `at` and `as_string` throw ends the program with the file
still there, and the next start ends the same way.

`startup_iff` says for which files that does not happen. `json5pp::parse` is a parameter that returns a value
or throws `syntax_error`.
-/

namespace DlsSdk

/-- `json5pp::value` -/
inductive Value where
  | null
  | boolean (b : Bool)
  | number (n : Float)
  | integer (i : Int64)
  | string (s : String)
  | array (elems : List Value)
  | object (pairs : List (String × Value))

/-- The exceptions of the block. -/
inductive Thrown where
  | syntaxError (what : String)
  | badCast
  | outOfRange
  deriving DecidableEq, Repr

/-- `value::as_string` -/
def Value.asString : Value → Except Thrown String
  | .string s => .ok s
  | _ => .error .badCast

/-- `value::as_array` -/
def Value.asArray : Value → Except Thrown (List Value)
  | .array elems => .ok elems
  | _ => .error .badCast

/-- `std::vector::at` -/
def vectorAt (elems : List Value) (i : Nat) : Except Thrown Value :=
  match elems[i]? with
  | some v => .ok v
  | none => .error .outOfRange

/-- `cfg.as_array().at(i).as_string()` -/
def Value.stringAt (cfg : Value) (i : Nat) : Except Thrown String := do
  let elems ← cfg.asArray
  let v ← vectorAt elems i
  v.asString

/-- The four local strings of `main`, and the global `lcm_net_debug`. -/
structure Conf where
  ifname : String
  url : String
  host : String
  userData : String
  lcmNetDebug : Bool
  deriving DecidableEq, Repr

/-- The defaults. -/
def Conf.default : Conf where
  ifname := "lo"
  url := "udpm://239.255.76.67:7667?ttl=1"
  host := "127.0.0.1"
  userData := "127.0.0.1"
  lcmNetDebug := false

/-- Code that assigns to the locals and may throw. -/
abbrev Block := ExceptT Thrown (StateM Conf)

/-- One assignment of the block. -/
def assign (cfg : Value) (i : Nat) (set : String → Conf → Conf) : Block Unit := do
  let s ← ofExcept (cfg.stringAt i)
  modify (set s)

/-- What the `try` does with the parsed value. -/
def readValue (cfg : Value) : Block Unit := do
  assign cfg 0 fun s c => { c with ifname := s }
  assign cfg 1 fun s c => { c with url := s }
  assign cfg 2 fun s c => { c with host := s }
  assign cfg 3 fun s c => { c with userData := s }
  if (← get).userData = "debug" then modify fun c => { c with lcmNetDebug := true }

/-- The body of the `try`. -/
def readConf (parse : String → Except String Value) (conf : String) : Block Unit := do
  let cfg ← ofExcept ((parse conf).mapError .syntaxError)
  readValue cfg

/-- `string_read_file` -/
def stringReadFile (file : Option String) : String := file.getD ""

/-- How the block is left: the exception that escapes, the locals, and `/tmp/demo.json`. -/
structure Startup where
  escaped : Option Thrown
  conf : Conf
  file : Option String
  deriving DecidableEq, Repr

/-- The configuration block, with `/tmp/demo.json` given (`none`: there is none). -/
def startup (parse : String → Except String Value) (file : Option String) : Startup :=
  if file.isSome then
    match (readConf parse (stringReadFile file)).run.run Conf.default with
    | (.ok (), c) => ⟨none, c, none⟩
    | (.error (.syntaxError _), c) => ⟨none, c, none⟩
    | (.error e, c) => ⟨some e, c, file⟩
  else ⟨none, .default, none⟩

/-! ## Taking a value apart -/

/-- The value is an array that begins with the four strings. -/
def Value.Loads (cfg : Value) (ifname url host userData : String) : Prop :=
  ∃ rest, cfg = .array (.string ifname :: .string url :: .string host :: .string userData :: rest)

/-- A sequence succeeds if both its parts do. -/
theorem bind_eq_ok {α β : Type} {x : Except Thrown α} {f : α → Except Thrown β} {b : β} :
    x >>= f = .ok b ↔ ∃ a, x = .ok a ∧ f a = .ok b := by
  constructor
  · intro h
    cases x with
    | ok a => exact ⟨a, rfl, h⟩
    | error e => cases h
  · rintro ⟨a, rfl, h⟩
    exact h

/-- What a sequence throws, one of its parts throws. -/
theorem bind_eq_error {α β : Type} {x : Except Thrown α} {f : α → Except Thrown β} {e : Thrown}
    (h : x >>= f = .error e) : x = .error e ∨ ∃ a, f a = .error e := by
  cases x with
  | ok a => exact .inr ⟨a, h⟩
  | error e' =>
      cases h
      exact .inl rfl

theorem asString_eq_ok {v : Value} {s : String} : v.asString = .ok s ↔ v = .string s := by
  cases v <;> simp [Value.asString]

theorem asArray_eq_ok {v : Value} {elems : List Value} : v.asArray = .ok elems ↔ v = .array elems := by
  cases v <;> simp [Value.asArray]

theorem vectorAt_eq_ok {elems : List Value} {i : Nat} {v : Value} :
    vectorAt elems i = .ok v ↔ elems[i]? = some v := by
  unfold vectorAt
  cases elems[i]? <;> simp

/-- A string is read where an array has one. -/
theorem stringAt_eq_ok {cfg : Value} {i : Nat} {s : String} :
    cfg.stringAt i = .ok s ↔ ∃ elems, cfg = .array elems ∧ elems[i]? = some (.string s) := by
  unfold Value.stringAt
  simp only [bind_eq_ok, asArray_eq_ok, vectorAt_eq_ok, asString_eq_ok, exists_eq_right]

/-- Reading an element never throws `syntax_error`. -/
theorem stringAt_error {cfg : Value} {i : Nat} {e : Thrown} (h : cfg.stringAt i = .error e) :
    e = .badCast ∨ e = .outOfRange := by
  obtain h | ⟨elems, h⟩ := bind_eq_error h
  · cases cfg <;> simp [Value.asArray] at h <;> exact .inl h.symm
  · obtain h | ⟨v, h⟩ := bind_eq_error h
    · unfold vectorAt at h
      cases helem : elems[i]? <;> simp [helem] at h
      exact .inr h.symm
    · cases v <;> simp [Value.asString] at h <;> exact .inl h.symm

/-- The four reads succeed on an array that begins with four strings, and only there. -/
theorem loads_iff {cfg : Value} {a b c d : String} : cfg.Loads a b c d ↔
    cfg.stringAt 0 = .ok a ∧ cfg.stringAt 1 = .ok b ∧ cfg.stringAt 2 = .ok c ∧
      cfg.stringAt 3 = .ok d := by
  simp only [stringAt_eq_ok]
  constructor
  · rintro ⟨rest, rfl⟩
    exact ⟨⟨_, rfl, rfl⟩, ⟨_, rfl, rfl⟩, ⟨_, rfl, rfl⟩, ⟨_, rfl, rfl⟩⟩
  · rintro ⟨⟨elems, rfl, h0⟩, ⟨e1, he1, h1⟩, ⟨e2, he2, h2⟩, ⟨e3, he3, h3⟩⟩
    obtain rfl := Value.array.inj he1
    obtain rfl := Value.array.inj he2
    obtain rfl := Value.array.inj he3
    match elems, h0, h1, h2, h3 with
    | v0 :: v1 :: v2 :: v3 :: rest, h0, h1, h2, h3 =>
        obtain rfl := Option.some.inj h0
        obtain rfl := Option.some.inj h1
        obtain rfl := Option.some.inj h2
        obtain rfl := Option.some.inj h3
        exact ⟨rest, rfl⟩

/-! ## The body of the `try` -/

section Body
variable {parse : String → Except String Value} {conf : String} {cfg : Value} {c : Conf}

/-- An assignment and what follows it: either the string is assigned, or the rest is skipped. -/
theorem assign_run (i : Nat) (set : String → Conf → Conf) (k : Block Unit) :
    (do assign cfg i set; k : Block Unit).run.run c = match cfg.stringAt i with
      | .ok s => k.run.run (set s c)
      | .error e => (.error e, c) := by
  unfold assign
  cases cfg.stringAt i <;> rfl

/-- The four strings are assigned. -/
theorem readValue_loads {ifname url host userData : String} (hl : cfg.Loads ifname url host userData) :
    (readValue cfg).run.run c =
      (.ok (), ⟨ifname, url, host, userData, c.lcmNetDebug || userData = "debug"⟩) := by
  obtain ⟨h0, h1, h2, h3⟩ := loads_iff.mp hl
  unfold readValue
  rw [assign_run, h0]
  dsimp only
  rw [assign_run, h1]
  dsimp only
  rw [assign_run, h2]
  dsimp only
  rw [assign_run, h3]
  by_cases hd : userData = "debug"
  · obtain rfl := hd
    simp
    rfl
  · show StateT.run (ExceptT.run (if userData = "debug" then (modify _ : Block Unit) else pure ())) _ = _
    rw [if_neg hd]
    simp [hd]
    rfl

/-- The block ends with one of the two exceptions that have no handler. -/
def Escapes (m : Block Unit) (c : Conf) : Prop :=
  ∃ e c', m.run.run c = (.error e, c') ∧ (e = .badCast ∨ e = .outOfRange)

/-- A block that begins with an assignment escapes if the rest does where the assignment succeeds. -/
theorem assign_escapes {i : Nat} {set : String → Conf → Conf} {k : Block Unit}
    (hk : ∀ s, cfg.stringAt i = .ok s → Escapes k (set s c)) :
    Escapes (do assign cfg i set; k) c := by
  unfold Escapes
  rw [assign_run]
  cases h : cfg.stringAt i with
  | ok s => exact hk s h
  | error e => exact ⟨e, c, rfl, stringAt_error h⟩

/-- Any other value escapes. -/
theorem readValue_escapes (hno : ¬ ∃ a b c d, cfg.Loads a b c d) : Escapes (readValue cfg) c := by
  refine assign_escapes fun s0 h0 => ?_
  refine assign_escapes fun s1 h1 => ?_
  refine assign_escapes fun s2 h2 => ?_
  refine assign_escapes fun s3 h3 => ?_
  exact absurd ⟨s0, s1, s2, s3, loads_iff.mpr ⟨h0, h1, h2, h3⟩⟩ hno

end Body

/-! ## The block -/

section Block
variable {parse : String → Except String Value} {content : String} {cfg : Value}

/-- A text that does not parse is handled: the defaults stay, the file goes. -/
theorem startup_syntaxError {what : String} (hp : parse content = .error what) :
    startup parse (some content) = ⟨none, .default, none⟩ := by
  have hrun : (readConf parse content).run.run .default = (.error (.syntaxError what), .default) := by
    unfold readConf
    rw [hp]
    rfl
  show (match (readConf parse content).run.run .default with
    | (.ok (), c) => ⟨none, c, none⟩
    | (.error (.syntaxError _), c) => ⟨none, c, none⟩
    | (.error e, c) => ⟨some e, c, some content⟩ : Startup) = _
  rw [hrun]

/-- A value is read by `readValue`. -/
theorem startup_ok (hp : parse content = .ok cfg) :
    startup parse (some content) = match (readValue cfg).run.run .default with
      | (.ok (), c) => ⟨none, c, none⟩
      | (.error (.syntaxError _), c) => ⟨none, c, none⟩
      | (.error e, c) => ⟨some e, c, some content⟩ := by
  have hrun : (readConf parse content).run.run .default = (readValue cfg).run.run .default := by
    unfold readConf
    rw [hp]
    rfl
  rw [← hrun]
  rfl

theorem startup_loads {ifname url host userData : String} (hp : parse content = .ok cfg)
    (hl : cfg.Loads ifname url host userData) :
    startup parse (some content) =
      ⟨none, ⟨ifname, url, host, userData, userData = "debug"⟩, none⟩ := by
  rw [startup_ok hp, readValue_loads hl]
  rfl

/-- What escapes leaves the file where it is. -/
theorem startup_escapes (hp : parse content = .ok cfg) (hno : ¬ ∃ a b c d, cfg.Loads a b c d) :
    (startup parse (some content)).escaped ≠ none ∧
      (startup parse (some content)).file = some content := by
  obtain ⟨e, c, hrun, he⟩ := readValue_escapes (c := .default) hno
  rw [startup_ok hp, hrun]
  obtain rfl | rfl := he
  · exact ⟨by simp, rfl⟩
  · exact ⟨by simp, rfl⟩

end Block

/-- The block is left without an exception, the file is removed, and the four strings are either those of the
    array in it or the defaults. -/
structure AllOrNothing (parse : String → Except String Value) (content : String) (s : Startup) : Prop where
  escaped : s.escaped = none
  removed : s.file = none
  conf : (∃ cfg, parse content = .ok cfg ∧
      cfg.Loads s.conf.ifname s.conf.url s.conf.host s.conf.userData) ∨
    (s.conf.ifname = Conf.default.ifname ∧ s.conf.url = Conf.default.url ∧
      s.conf.host = Conf.default.host ∧ s.conf.userData = Conf.default.userData)

/-- Nothing escapes exactly if the text does not parse, or is an array that begins with four strings. -/
theorem startup_escaped_iff {parse : String → Except String Value} {content : String} :
    (startup parse (some content)).escaped = none ↔
      (∃ what, parse content = .error what) ∨
        ∃ cfg a b c d, parse content = .ok cfg ∧ cfg.Loads a b c d := by
  cases hp : parse content with
  | error what =>
      rw [startup_syntaxError hp]
      exact ⟨fun _ => .inl ⟨what, rfl⟩, fun _ => rfl⟩
  | ok cfg =>
      by_cases hl : ∃ a b c d, cfg.Loads a b c d
      · obtain ⟨a, b, c, d, hl⟩ := hl
        rw [startup_loads hp hl]
        exact ⟨fun _ => .inr ⟨cfg, a, b, c, d, rfl, hl⟩, fun _ => rfl⟩
      · constructor
        · intro h
          exact absurd h (startup_escapes hp hl).1
        · rintro (⟨what, he⟩ | ⟨cfg', a, b, c, d, hc, h⟩)
          · cases he
          · obtain rfl := Except.ok.inj hc
            exact absurd ⟨a, b, c, d, h⟩ hl

/-- Where nothing escapes the rest is as it should be. -/
theorem allOrNothing_iff_escaped {parse : String → Except String Value} {content : String} :
    AllOrNothing parse content (startup parse (some content)) ↔
      (startup parse (some content)).escaped = none := by
  refine ⟨fun h => h.escaped, fun hescaped => ?_⟩
  obtain ⟨what, hp⟩ | ⟨cfg, a, b, c, d, hp, hl⟩ := startup_escaped_iff.mp hescaped
  · rw [startup_syntaxError hp]
    exact ⟨rfl, rfl, .inr ⟨rfl, rfl, rfl, rfl⟩⟩
  · rw [startup_loads hp hl]
    exact ⟨rfl, rfl, .inl ⟨cfg, hp, hl⟩⟩

/-- **All or nothing** is what the block does exactly with a text that does not parse, and with an array that
    begins with four strings. -/
theorem startup_iff (parse : String → Except String Value) (content : String) :
    AllOrNothing parse content (startup parse (some content)) ↔
      (∃ what, parse content = .error what) ∨
        ∃ cfg a b c d, parse content = .ok cfg ∧ cfg.Loads a b c d :=
  allOrNothing_iff_escaped.trans startup_escaped_iff

/-- A file with one address too few, as `json5pp::parse` reads it. -/
def parseShort (conf : String) : Except String Value :=
  if conf = "[\"eth0\"]" then .ok (.array [.string "eth0"]) else .error "JSON syntax error"

/-- **A configuration that kills the program at every start.** The array is too short: `at` throws, nothing
    catches, the interface is already changed, and the file is still there. -/
theorem startup_killed :
    ¬ AllOrNothing parseShort "[\"eth0\"]" (startup parseShort (some "[\"eth0\"]")) ∧
      (startup parseShort (some "[\"eth0\"]")).escaped = some .outOfRange ∧
      (startup parseShort (some "[\"eth0\"]")).conf = { Conf.default with ifname := "eth0" } ∧
      (startup parseShort (some "[\"eth0\"]")).file = some "[\"eth0\"]" := by
  have hescaped : (startup parseShort (some "[\"eth0\"]")).escaped = some .outOfRange := by decide
  refine ⟨fun h => ?_, hescaped, by decide, by decide⟩
  rw [h.escaped] at hescaped
  exact absurd hescaped (by simp)

end DlsSdk
