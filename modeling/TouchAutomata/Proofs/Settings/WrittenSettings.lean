import TouchAutomata.Settings.File
import TouchAutomata.Proofs.Toml.WrittenSections

/-!
# Settings that were written

The document of settings consists of four sections (`lineFeed_toToml`), so it is read as the record
of these (`read_toToml`). Each setting is read back from its section, and none is left to its
default (`ofData?_toData`). So settings that were written to a file are loaded from it
(`load_toToml`).
-/

set_option autoImplicit false

namespace TouchAutomata

open Toml (IsBare StandsFor WrittenPair WrittenSection standsFor_quoted standsFor_toString)

/-- A policy is read back from its name. -/
theorem Policy.ofName?_name (p : Policy) : Policy.ofName? p.name = some p := by
  cases p <;> decide

/-- A format is read back from its name. -/
theorem OutputFormat.ofName?_name (f : OutputFormat) : OutputFormat.ofName? f.name = some f := by
  cases f <;> decide

/-- A count of 64 bits is read back. -/
theorem Data.count?_ofNat {n : Nat} (h : n < Numeral.bitRange 64) :
    (Data.ofNat n).count? = some n := by
  have hrange : 0 ≤ (n : Int) ∧ (n : Int) < Numeral.bitRange 64 := by omega
  rw [Data.ofNat, Data.count?, if_pos hrange, Int.toNat_natCast]

namespace Settings

variable {s : Settings}

/-! ## The sections of settings -/

/-- A section with one setting. -/
def oneSetting (name key : String) {text : String} {data : Data} (bare : IsBare name ∧ IsBare key)
    (stands : StandsFor text data) : WrittenSection where
  name := name
  pairs := [⟨key, text, data, bare.2, stands⟩]
  bare := bare.1
  distinct := by simp

/-- What stands in front of the value in a section with one setting. -/
def heading (name key : String) : List Char :=
  '[' :: (name.toList ++ ']' :: '\n' :: (key.toList ++ [' ', '=', ' ']))

/-- A section with one setting has a heading and the value, with a line feed behind it. -/
theorem chars_oneSetting (name key : String) {text : String} {data : Data}
    (bare : IsBare name ∧ IsBare key) (stands : StandsFor text data) :
    (oneSetting name key bare stands).chars = heading name key ++ (text.toList ++ ['\n']) := by
  simp [oneSetting, heading, WrittenSection.chars, WrittenPair.chars]

/-- The sections, if the count of states can be written. -/
def sections (s : Settings) (count : s.maxStates < Numeral.bitRange 64) : List WrittenSection :=
  [oneSetting "symbols" "policy" (by decide) (standsFor_quoted s.policy.name),
    oneSetting "conversion" "max_dfa_states" (by decide) (standsFor_toString count),
    oneSetting "export" "format" (by decide) (standsFor_quoted s.format.name),
    oneSetting "logging" "level" (by decide) (standsFor_quoted s.logLevel)]

/-- The document of settings has its four sections, with a line feed in front of each but the
first. -/
theorem lineFeed_toToml (count : s.maxStates < Numeral.bitRange 64) :
    '\n' :: s.toToml.toList = (sections s count).flatMap fun t => '\n' :: t.chars := by
  have hsymbols : "[symbols]\npolicy = ".toList = heading "symbols" "policy" := rfl
  have hconversion : "\n\n[conversion]\nmax_dfa_states = ".toList =
      '\n' :: '\n' :: heading "conversion" "max_dfa_states" := rfl
  have hexport : "\n\n[export]\nformat = ".toList =
      '\n' :: '\n' :: heading "export" "format" := rfl
  have hlogging : "\n\n[logging]\nlevel = ".toList =
      '\n' :: '\n' :: heading "logging" "level" := rfl
  have hend : "\n".toList = ['\n'] := rfl
  -- rewriting with the equation of `toToml` would first evaluate its literals
  unfold toToml
  simp only [String.toList_append, hsymbols, hconversion, hexport, hlogging, hend, sections,
    List.flatMap_cons, List.flatMap_nil, chars_oneSetting, List.append_assoc, List.cons_append,
    List.nil_append]

/-- The record of settings. -/
def toData (s : Settings) : Data :=
  .ofFields [("symbols", .ofFields [("policy", .ofText s.policy.name)]),
    ("conversion", .ofFields [("max_dfa_states", .ofNat s.maxStates)]),
    ("export", .ofFields [("format", .ofText s.format.name)]),
    ("logging", .ofFields [("level", .ofText s.logLevel)])]

/-- The document of settings is read as their record. -/
theorem read_toToml (count : s.maxStates < Numeral.bitRange 64) :
    Toml.read s.toToml = some s.toData := by
  have distinct : ["symbols", "conversion", "export", "logging"].Nodup := by decide
  exact Toml.read_of_sections (lineFeed_toToml count) distinct

/-! ## Settings from their sections -/

/-- A section with one setting is read as its value. -/
theorem ofSection?_ofFields {α : Type} (name : String) (default : α) (value? : Data → Option α)
    (data : Data) :
    ofSection? name default value? (some (.ofFields [(name, data)])) = value? data := by
  simp [ofSection?, Data.ofFields, Data.fields?, Data.isAdmissible, Data.field?]

/-- Settings are read back from their record. -/
theorem ofData?_toData (count : s.maxStates < Numeral.bitRange 64) :
    ofData? s.toData = some s := by
  have hfields : s.toData.fields? Toml.surplus sectionNames =
      some [some (.ofFields [("policy", .ofText s.policy.name)]),
        some (.ofFields [("max_dfa_states", .ofNat s.maxStates)]),
        some (.ofFields [("format", .ofText s.format.name)]),
        some (.ofFields [("level", .ofText s.logLevel)])] := by
    simp [toData, Data.ofFields, Data.fields?, sectionNames, Data.isAdmissible, Data.field?]
  have hpolicy : (Data.ofText s.policy.name).choice?.bind Policy.ofName? = some s.policy :=
    Policy.ofName?_name s.policy
  have hformat : (Data.ofText s.format.name).choice?.bind OutputFormat.ofName? = some s.format :=
    OutputFormat.ofName?_name s.format
  have hlevel : (Data.ofText s.logLevel).text? = some s.logLevel := rfl
  simp only [ofData?, hfields, ofSection?_ofFields, hpolicy, Data.count?_ofNat count, hformat,
    hlevel, Option.bind_eq_bind, Option.bind_some]

/-- Settings are loaded from a file that holds their document, every one of them as it was, the text
of the log level whatever its characters are. -/
theorem load_toToml (s : Settings) (count : s.maxStates < Numeral.bitRange 64) (files : FileView)
    (path : String) (stored : files.readText path = .ok s.toToml) : load files path = .ok s := by
  have hparse : parse s.toToml = some s := by
    rw [parse, read_toToml count, Option.bind_some, ofData?_toData count]
  rw [load, stored]
  simp only [hparse]

/-- The settings with the greatest count of states, and a log level with delimiters of both kinds, a
line feed, a backslash and a control character. -/
def unusual : Settings where
  policy := .strict
  maxStates := 18446744073709551615
  format := .table
  logLevel := "\"\"\"\'\'\'\n\\\x1b"

/-- The unusual settings are loaded from the file they were written to. -/
theorem load_toToml_unusual :
    unusual.maxStates < Numeral.bitRange 64 ∧
      load (Workspace.view ⟨[(["touch.toml"], .text unusual.toToml)]⟩) "touch.toml" = .ok unusual :=
  ⟨by decide, load_toToml unusual (by decide) _ _ rfl⟩

end Settings

end TouchAutomata
