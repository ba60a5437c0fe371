import DlsSdk.Demo.Startup
import DlsSdk.Json.Errors
import DlsSdk.Json.RoundTrip

/-!
# `Demo.Config` — the configuration and the parser that reads it

`Startup` leaves `json5pp::parse` open. With the parser of `Json` the files that the program survives are known
by their text, over any number of starts (`restart_iff`), and a configuration that `stringify` has written is
loaded as it was (`config_written`).
-/

namespace DlsSdk

open Json

/-- `json5pp::parse`, as the block sees it: a value, or what the `syntax_error` says. -/
def parseConf (conf : String) : Except String Value := (Json.parse conf).mapError Stop.what

/-- The configuration block; `none` if an integer overflows in the parser. -/
def configure (file : Option String) : Option Startup :=
  match file.map Json.parse with
  | some (.error (.undefined _)) => none
  | _ => some (startup parseConf file)

/-- The program is started with `/tmp/demo.json` given, and then again and again with what is left of it. -/
def starts (file : Option String) : Nat → Option Startup
  | 0 => configure file
  | n + 1 => (starts file n).bind fun s => configure s.file

section Configure
variable {content : String} {v : Value}

theorem configure_undefined {ch : Option Char} (h : Json.parse content = .error (.undefined ch)) :
    configure (some content) = none := by
  rw [configure, Option.map_some, h]

/-- A text that is not parsed leaves the defaults. -/
theorem configure_syntaxError {ch : Option Char} {context : String}
    (h : Json.parse content = .error (.syntaxError ch context)) :
    configure (some content) = some ⟨none, .default, none⟩ := by
  have hconf : parseConf content = .error (Stop.what (.syntaxError ch context)) := by rw [parseConf, h]; rfl
  rw [configure, Option.map_some, h]
  exact congrArg some (startup_syntaxError hconf)

/-- A text is read as its value. -/
theorem configure_ok (h : JsonText v content.toList) :
    configure (some content) = some (startup parseConf (some content)) ∧ parseConf content = .ok v := by
  refine ⟨?_, ?_⟩
  · rw [configure, Option.map_some, h.parse]
  · rw [parseConf, h.parse]
    rfl

theorem configure_loads {ifname url host userData : String} (h : JsonText v content.toList)
    (hl : v.Loads ifname url host userData) :
    configure (some content) = some ⟨none, ⟨ifname, url, host, userData, userData = "debug"⟩, none⟩ := by
  obtain ⟨hstart, hconf⟩ := configure_ok h
  rw [hstart, startup_loads hconf hl]

theorem configure_escapes (h : JsonText v content.toList) (hno : ¬ ∃ a b c d, v.Loads a b c d) :
    ∃ s, configure (some content) = some s ∧ s.escaped ≠ none ∧ s.file = some content := by
  obtain ⟨hstart, hconf⟩ := configure_ok h
  exact ⟨_, hstart, startup_escapes hconf hno⟩

end Configure

/-! ## Starting again -/

/-- How a start with this text ends. -/
inductive Ends (content : String) : Option Startup → Prop where
  | overflows (h : Overflows content.toList) : Ends content none
  | survives (h : ¬ Overflows content.toList) (hl : ∀ v, JsonText v content.toList → ∃ a b c d, v.Loads a b c d)
      (conf : Conf) : Ends content (some ⟨none, conf, none⟩)
  | escapes {v : Value} (h : JsonText v content.toList) (hno : ¬ ∃ a b c d, v.Loads a b c d) {s : Startup}
      (hescaped : s.escaped ≠ none) (hfile : s.file = some content) : Ends content (some s)

/-- The first start. -/
theorem configure_ends (content : String) : Ends content (configure (some content)) := by
  cases hparse : Json.parse content with
  | ok v =>
      have htext : JsonText v content.toList := jsonText_of_parse hparse
      by_cases hl : ∃ a b c d, v.Loads a b c d
      · obtain ⟨a, b, c, d, hl⟩ := hl
        rw [configure_loads htext hl]
        refine .survives htext.not_overflows (fun v' htext' => ?_) _
        exact ⟨a, b, c, d, htext.unique htext' ▸ hl⟩
      · obtain ⟨s, hs, hescaped, hfile⟩ := configure_escapes htext hl
        rw [hs]
        exact .escapes htext hl hescaped hfile
  | error e =>
      have hno : ∀ v, ¬ JsonText v content.toList := by
        intro v htext
        rw [htext.parse] at hparse
        cases hparse
      have hdo : doParse .ecma404 content.toList = .error e := parse_eq_error.mp hparse
      cases e with
      | outOfFuel => exact absurd hdo (doParse_fuel _ _)
      | undefined ch =>
          rw [configure_undefined hparse]
          exact .overflows ((doParse_undefined_iff _).mp ⟨ch, hdo⟩)
      | syntaxError ch context =>
          rw [configure_syntaxError hparse]
          refine .survives (fun hover => ?_) (fun v htext => absurd htext (hno v)) _
          obtain ⟨ch', hundef⟩ := (doParse_undefined_iff _).mpr hover
          rw [hdo] at hundef
          cases hundef

/-- Every start: a file that has been removed does not come back, and one that is there is the first one. -/
theorem starts_ends (content : String) (n : Nat) : Ends content (starts (some content) n) := by
  induction n with
  | zero => exact configure_ends content
  | succ n ih =>
      rw [starts]
      generalize starts (some content) n = s at ih
      cases ih with
      | overflows h => exact .overflows h
      | survives h hl conf => exact .survives h hl .default
      | escapes htext hno hescaped hfile =>
          rw [Option.bind_some, hfile]
          exact configure_ends content

/-- **Starting again.** What the text of the file is decides over every start alike: past its configuration the
    program gets where the text is no JSON text, or is one of an array that begins with four strings; where it is
    one of another value an exception ends the program and the file is still there; and the parser leaves what C
    defines where a text has left the bounds. -/
theorem restart_iff (content : String) (n : Nat) :
    (starts (some content) n = none ↔ Overflows content.toList) ∧
    ((∃ s, starts (some content) n = some s ∧ s.escaped = none) ↔
      ¬ Overflows content.toList ∧ ∀ v, JsonText v content.toList → ∃ a b c d, v.Loads a b c d) ∧
    ((∃ s, starts (some content) n = some s ∧ s.escaped ≠ none ∧ s.file = some content) ↔
      ∃ v, JsonText v content.toList ∧ ¬ ∃ a b c d, v.Loads a b c d) := by
  have hends := starts_ends content n
  generalize starts (some content) n = s at hends
  cases hends with
  | overflows h =>
      refine ⟨⟨fun _ => h, fun _ => rfl⟩, ⟨?_, fun ⟨hno, _⟩ => absurd h hno⟩, ⟨?_, ?_⟩⟩
      · rintro ⟨s, hs, -⟩
        cases hs
      · rintro ⟨s, hs, -⟩
        cases hs
      · rintro ⟨v, htext, -⟩
        exact absurd h htext.not_overflows
  | survives h hl conf =>
      refine ⟨⟨nofun, fun hover => absurd hover h⟩, ⟨fun _ => ⟨h, hl⟩, fun _ => ⟨_, rfl, rfl⟩⟩,
        ⟨?_, ?_⟩⟩
      · rintro ⟨s, hs, hescaped, -⟩
        obtain rfl := Option.some.inj hs
        exact absurd rfl hescaped
      · rintro ⟨v, htext, hno⟩
        exact absurd (hl v htext) hno
  | @escapes v htext hno s hescaped hfile =>
      refine ⟨⟨nofun, fun hover => absurd hover htext.not_overflows⟩, ⟨?_, ?_⟩,
        ⟨fun _ => ⟨v, htext, hno⟩, fun _ => ⟨s, rfl, hescaped, hfile⟩⟩⟩
      · rintro ⟨s', hs, hnone⟩
        obtain rfl := Option.some.inj hs
        exact absurd hnone hescaped
      · rintro ⟨-, hl⟩
        exact absurd (hl v htext) hno

/-- **A configuration that has been written is loaded**, in any layout without the flags for NaN and infinity and
    with anything behind the four strings. -/
theorem config_written {numeral : Float → Numeral} {L : Layout} (hL : L.Ecma) (hn : Writes numeral)
    (ifname url host userData : String) {rest : List Value} (ho : OrderedItems rest) :
    configure (some (stringify numeral L
        (.array (.string ifname :: .string url :: .string host :: .string userData :: rest)))) =
      some ⟨none, ⟨ifname, url, host, userData, userData = "debug"⟩, none⟩ :=
  have hordered : Ordered (.array (.string ifname :: .string url :: .string host :: .string userData :: rest)) :=
    ⟨trivial, trivial, trivial, trivial, ho⟩
  configure_loads (jsonText_stringify hL hn hordered) ⟨_, rfl⟩

/-- The file of the comment over `main`, with a number behind it. -/
theorem config_written_wlan :
    configure (some (stringify numeralHalves {}
        (.array [.string "wlan0", .string "udpm://239.255.76.67:7667?ttl=1", .string "192.168.137.192",
          .string "work", .number 1.5]))) =
      some ⟨none, ⟨"wlan0", "udpm://239.255.76.67:7667?ttl=1", "192.168.137.192", "work", "work" = "debug"⟩,
        none⟩ := by
  have hrest : OrderedItems [.number 1.5] := ⟨trivial, trivial⟩
  exact config_written ⟨rfl, rfl⟩ writes_halves "wlan0" "udpm://239.255.76.67:7667?ttl=1" "192.168.137.192" "work"
    hrest

end DlsSdk
