import Mathlib
import RobotControl.Config.File
import RobotControl.Proofs.Toml.Pages

/-!
# Configuration files

A text gives some of the settings of a configuration, in whatever form and order the language of
the file allows (`Settings.GivenBy`), and is loaded as these with the defaults of the others
(`Config.load_of_givenBy`).  The text that a configuration is saved as gives all its settings, if
each of its integers is one of 63 bits; otherwise nothing is written, and the file stays as it was
(`Config.files_round_trip`).
-/
set_option autoImplicit false

namespace RobotControl

open Toml (Tree Entries Field Table Page)

/-! ### Settings -/

/-- The settings of a profile that a table gives. -/
structure ProfileSettings where
  schedulerThreads : Option UInt64 := none
  periodicRateMs : Option UInt64 := none
  maxGamepadAgeMs : Option UInt64 := none
  actionPeriodMs : Option UInt64 := none
  watchdogTimeoutMs : Option UInt64 := none
  deriving DecidableEq, Repr

namespace ProfileSettings

def words (s : ProfileSettings) : List (String × Option UInt64) :=
  [("main_scheduler_threads", s.schedulerThreads),
    ("periodic_function_rate_ms", s.periodicRateMs),
    ("max_gamepad_data_age_ms", s.maxGamepadAgeMs),
    ("action_function_period_ms", s.actionPeriodMs),
    ("watchdog_timeout_ms", s.watchdogTimeoutMs)]

def word (n : UInt64) : Tree := .whole n.toNat

/-- The table gives these settings and none of the others. -/
def In (s : ProfileSettings) (table : Entries) : Prop :=
  ∀ w ∈ s.words, table.get? w.1 = w.2.map word

/-- What is given, and the defaults. -/
def profile (s : ProfileSettings) : Profile :=
  let d : Profile := {}
  { schedulerThreads := s.schedulerThreads.getD d.schedulerThreads
    periodicRateMs := s.periodicRateMs.getD d.periodicRateMs
    maxGamepadAgeMs := s.maxGamepadAgeMs.getD d.maxGamepadAgeMs
    actionPeriodMs := s.actionPeriodMs.getD d.actionPeriodMs
    watchdogTimeoutMs := (s.watchdogTimeoutMs.map some).getD d.watchdogTimeoutMs }

def integers (s : ProfileSettings) : List UInt64 := s.words.filterMap (·.2)

def InRange (s : ProfileSettings) : Prop := ∀ n ∈ s.integers, n.toNat ≤ 2 ^ 63 - 1

end ProfileSettings

/-- The settings that a document gives. -/
structure Settings where
  autoEnable : Option Bool := none
  logFormat : Option LogFormat := none
  profile : Option ProfileSettings := none
  deriving DecidableEq, Repr

namespace Settings

structure In (s : Settings) (document : Entries) : Prop where
  autoEnable : document.get? "auto_enable" = s.autoEnable.map .flag
  logFormat : document.get? "log_format" = s.logFormat.map fun f => .text f.name
  no_profile : s.profile = none → document.get? "profile" = none
  profile : ∀ p, s.profile = some p →
    ∃ shape table, document.get? "profile" = some (.table shape table) ∧ p.In table

/-- The text gives these settings and none of the others. -/
def GivenBy (s : Settings) (text : String) : Prop :=
  ∃ document, Toml.parse text = some document ∧ s.In document

def config (s : Settings) : Config :=
  let d : Config := {}
  { autoEnable := s.autoEnable.getD d.autoEnable
    logFormat := s.logFormat.getD d.logFormat
    profile := (s.profile.map ProfileSettings.profile).getD d.profile }

def InRange (s : Settings) : Prop := ∀ p, s.profile = some p → p.InRange

end Settings

namespace Config

/-! ### Loading -/

theorem fieldOr_eq {α β : Type} (read : Tree → Option α) {es : Entries} {name : String}
    {given : Option β} {tree : β → Tree} {result : β → α}
    (found : es.get? name = given.map tree) (reads : ∀ b, read (tree b) = some (result b))
    (dflt : α) : fieldOr read dflt es name = some ((given.map result).getD dflt) := by
  unfold fieldOr
  rw [found]
  cases given with
  | none => rfl
  | some b => exact reads b

theorem readWord_word (n : UInt64) : readWord (ProfileSettings.word n) = some n := by
  have natural : (0 : Int) ≤ n.toNat := Int.natCast_nonneg _
  show (if (0 : Int) ≤ n.toNat then some (n.toNat : Int).toNat.toUInt64 else none) = _
  rw [if_pos natural, Int.toNat_natCast]
  simp

theorem readProfileFields_eq {s : ProfileSettings} {table : Entries} (gives : s.In table) :
    readProfileFields table = some s.profile := by
  have read : ∀ w ∈ s.words, ∀ dflt,
      fieldOr readWord dflt table w.1 = some (w.2.getD dflt) := by
    intro w member dflt
    rw [fieldOr_eq readWord (gives w member) readWord_word, Option.map_id']
  have present : ∀ n, (readWord (ProfileSettings.word n)).map some = some (some n) := fun n =>
    congrArg (Option.map some) (readWord_word n)
  have timeout : ∀ w ∈ s.words, ∀ dflt, fieldOr (fun v => (readWord v).map some) dflt table w.1 =
      some ((w.2.map some).getD dflt) := fun w member dflt =>
    fieldOr_eq _ (gives w member) present dflt
  simp only [ProfileSettings.words, List.forall_mem_cons] at read timeout
  obtain ⟨threads, rate, age, period, _⟩ := read
  obtain ⟨_, _, _, _, watchdog, _⟩ := timeout
  unfold readProfileFields
  dsimp only
  rw [threads, rate, age, period, watchdog]
  rfl

theorem readEntries_eq {s : Settings} {document : Entries} (gives : s.In document) :
    readEntries document = some s.config := by
  have autoEnable := fieldOr_eq readFlag gives.autoEnable (fun _ => rfl) false
  have logFormat := fieldOr_eq readFormat gives.logFormat LogFormat.ofName?_name .compact
  have profile : fieldOr readProfile {} document "profile" =
      some ((s.profile.map ProfileSettings.profile).getD {}) := by
    unfold fieldOr
    cases given : s.profile with
    | none =>
        rw [gives.no_profile given]
        rfl
    | some p =>
        obtain ⟨shape, table, found, inside⟩ := gives.profile p given
        rw [found]
        exact readProfileFields_eq inside
  unfold readEntries
  rw [autoEnable, logFormat, profile, Option.map_id', Option.map_id']
  rfl

theorem fromUTF8?_toUTF8 (s : String) : String.fromUTF8? s.toUTF8 = some s := by
  rw [String.fromUTF8?, String.toUTF8_eq_toByteArray, dif_pos s.isValidUTF8]
  rfl

theorem load_of_givenBy {s : Settings} {text : String} (given : s.GivenBy text) (path : String) :
    load path (.bytes text.toUTF8) = .ok (some s.config) := by
  obtain ⟨document, parsed, gives⟩ := given
  have read : ofText? text = some s.config := by
    rw [ofText?, parsed]
    exact readEntries_eq gives
  unfold load
  dsimp only
  rw [fromUTF8?_toUTF8]
  dsimp only
  rw [read]

end Config

/-! ### Texts that give settings -/

namespace ProfileSettings

def field (name : String) (n : UInt64) : Field := ⟨name, toString n.toNat, word n⟩

def given (words : List (String × Option UInt64)) : List Field :=
  words.filterMap fun w => w.2.map (field w.1)

theorem names_sublist (words : List (String × Option UInt64)) :
    List.Sublist (((given words).map Field.entry).map (·.1)) (words.map (·.1)) := by
  induction words with
  | nil => exact List.Sublist.refl _
  | cons w words ih =>
      obtain ⟨name, n⟩ := w
      cases n with
      | none => exact ih.cons name
      | some n => exact ih.cons_cons name

theorem get?_given {words : List (String × Option UInt64)} (distinct : (words.map (·.1)).Nodup) :
    ∀ w ∈ words, Entries.get? ((given words).map Field.entry) w.1 = w.2.map word := by
  induction words with
  | nil => nofun
  | cons u words ih =>
      obtain ⟨name, n⟩ := u
      obtain ⟨fresh, others⟩ := List.nodup_cons.mp distinct
      intro w member
      cases n with
      | none =>
          show Entries.get? ((given words).map Field.entry) w.1 = _
          rcases List.mem_cons.mp member with rfl | member
          · exact Toml.get?_of_fresh fun absent => fresh ((names_sublist words).subset absent)
          · exact ih others w member
      | some n =>
          show List.lookup w.1 ((name, word n) :: (given words).map Field.entry) = _
          rcases List.mem_cons.mp member with rfl | member
          · exact List.lookup_cons_self
          · have other : w.1 ≠ name := fun same =>
              fresh (List.mem_map.mpr ⟨w, member, same⟩)
            rw [List.lookup_cons, beq_false_of_ne other]
            exact ih others w member

theorem distinct_words (s : ProfileSettings) : (s.words.map (·.1)).Nodup := by
  show ["main_scheduler_threads", "periodic_function_rate_ms", "max_gamepad_data_age_ms",
    "action_function_period_ms", "watchdog_timeout_ms"].Nodup
  decide

theorem bare_of_mem_words {s : ProfileSettings} :
    ∀ w ∈ s.words, Toml.IsBare w.1.toList := by
  simp only [words, List.forall_mem_cons]
  exact ⟨by decide, by decide, by decide, by decide, by decide, nofun⟩

def table (s : ProfileSettings) : Table := ⟨"profile", given s.words⟩

theorem table_readable {s : ProfileSettings} (small : s.InRange) : s.table.Readable := by
  have bare : Toml.IsBare "profile".toList := by decide
  refine ⟨bare, fun f member => ?_, s.distinct_words.sublist (names_sublist s.words)⟩
  obtain ⟨w, inside, written⟩ := List.mem_filterMap.mp member
  obtain ⟨n, value, rfl⟩ := Option.map_eq_some_iff.mp written
  have limit : Toml.integerLimit = 2 ^ 63 := rfl
  have bound := small n (List.mem_filterMap.mpr ⟨w, inside, value⟩)
  exact ⟨bare_of_mem_words w inside, Toml.writes_word (by omega)⟩

end ProfileSettings

namespace Settings

def flagField (b : Bool) : Field := ⟨"auto_enable", if b then "true" else "false", .flag b⟩

def formatField (f : LogFormat) : Field := ⟨"log_format", "\"" ++ f.name ++ "\"", .text f.name⟩

def page (s : Settings) : Page where
  fields := (s.autoEnable.map flagField).toList ++ (s.logFormat.map formatField).toList
  tables := (s.profile.map ProfileSettings.table).toList

theorem flagField_readable (b : Bool) : (flagField b).Readable :=
  have bare : Toml.IsBare "auto_enable".toList := by decide
  ⟨bare, Toml.writes_flag b⟩

theorem formatField_readable (f : LogFormat) : (formatField f).Readable := by
  have plain : f.name.toList.all Toml.isPlain = true := by
    cases f <;> decide
  have bare : Toml.IsBare "log_format".toList := by decide
  refine ⟨bare, ?_⟩
  have writes := Toml.writes_quoted (List.all_eq_true.mp plain)
  rw [String.ofList_toList] at writes
  have literal : (formatField f).literal.toList = '"' :: f.name.toList ++ ['"'] := by
    simp [formatField]
  rw [literal]
  exact writes

theorem page_readable {s : Settings} (small : s.InRange) : s.page.Readable := by
  refine ⟨fun f member => ?_, fun t member => ?_, ?_⟩
  · rcases List.mem_append.mp member with member | member
    · obtain ⟨b, _, rfl⟩ := Option.map_eq_some_iff.mp (Option.mem_toList.mp member)
      exact flagField_readable b
    · obtain ⟨format, _, rfl⟩ := Option.map_eq_some_iff.mp (Option.mem_toList.mp member)
      exact formatField_readable format
  · obtain ⟨p, given, rfl⟩ := Option.map_eq_some_iff.mp (Option.mem_toList.mp member)
    exact ProfileSettings.table_readable (small p given)
  · rcases s with ⟨_ | a, _ | f, _ | p⟩ <;>
      simp [page, Page.entries, Field.entry, Table.entry, flagField, formatField,
        ProfileSettings.table]

theorem in_page (s : Settings) : s.In s.page.entries where
  autoEnable := by rcases s with ⟨_ | a, _ | f, _ | p⟩ <;> rfl
  logFormat := by rcases s with ⟨_ | a, _ | f, _ | p⟩ <;> rfl
  no_profile := by
    rcases s with ⟨_ | a, _ | f, _ | p⟩ <;> first | exact fun _ => rfl | exact nofun
  profile := by
    intro p given
    have inside : p.In (p.table.fields.map Field.entry) :=
      ProfileSettings.get?_given p.distinct_words
    refine ⟨.opened, _, ?_, inside⟩
    rcases s with ⟨_ | a, _ | f, _ | q⟩ <;> cases given <;> rfl

/-- A text that gives the settings. -/
def text (s : Settings) : String := s.page.text

theorem givenBy_text {s : Settings} (small : s.InRange) : s.GivenBy s.text :=
  ⟨s.page.entries, (page_readable small).parse_text, s.in_page⟩

end Settings

/-! ### Saving -/

namespace Profile

def integers (p : Profile) : List UInt64 :=
  [p.schedulerThreads, p.periodicRateMs, p.maxGamepadAgeMs, p.actionPeriodMs] ++
    p.watchdogTimeoutMs.toList

/-- All settings of a profile; a timeout that is derived is not one. -/
def settings (p : Profile) : ProfileSettings where
  schedulerThreads := some p.schedulerThreads
  periodicRateMs := some p.periodicRateMs
  maxGamepadAgeMs := some p.maxGamepadAgeMs
  actionPeriodMs := some p.actionPeriodMs
  watchdogTimeoutMs := p.watchdogTimeoutMs

theorem integers_settings (p : Profile) : p.settings.integers = p.integers := by
  obtain ⟨threads, rate, age, period, _ | timeout⟩ := p <;> rfl

theorem profile_settings (p : Profile) : p.settings.profile = p := by
  obtain ⟨threads, rate, age, period, _ | timeout⟩ := p <;> rfl

end Profile

namespace Config

def settings (c : Config) : Settings where
  autoEnable := some c.autoEnable
  logFormat := some c.logFormat
  profile := some c.profile.settings

theorem config_settings (c : Config) : c.settings.config = c := by
  show Config.mk c.autoEnable c.logFormat c.profile.settings.profile = c
  rw [Profile.profile_settings]

theorem text_settings (c : Config) : c.text = c.settings.text := by
  rw [← String.toList_inj]
  obtain ⟨enable, format, ⟨threads, rate, age, period, _ | timeout⟩⟩ := c <;>
    simp [text, line, settings, Profile.settings, Settings.text, Settings.page, Page.text,
      Table.text, Field.text, Settings.flagField, Settings.formatField, ProfileSettings.table,
      ProfileSettings.given, ProfileSettings.words, ProfileSettings.field]

/-- Every integer is one of a file. -/
def Fits (c : Config) : Prop := ∀ n ∈ c.profile.integers, n.toNat ≤ 2 ^ 63 - 1

theorem fits_iff (n : UInt64) : fits n = true ↔ n.toNat ≤ 2 ^ 63 - 1 := by
  have limit : Toml.integerLimit = 2 ^ 63 := rfl
  rw [fits, decide_eq_true_eq]
  omega

theorem isSavable_iff (c : Config) : isSavable c.profile = true ↔ c.Fits := by
  obtain ⟨enable, format, ⟨threads, rate, age, period, timeout⟩⟩ := c
  cases timeout <;> simp [isSavable, Fits, Profile.integers, fits_iff, and_assoc]

theorem settings_inRange {c : Config} (fits : c.Fits) : c.settings.InRange := by
  rintro p ⟨⟩ n member
  rw [Profile.integers_settings] at member
  exact fits n member

/-- A configuration of integers in range is saved, and loaded again as it was; of another one
nothing is written, whatever the file holds.  A text is loaded as the settings it gives and the
defaults of the others, and any settings in range are given by some text. -/
theorem files_round_trip (path : String) :
    (∀ c : Config, c.Fits → c.save = .ok c.text ∧
      ∀ old, load path (c.stored old) = .ok (some c)) ∧
    (∀ c : Config, ¬ c.Fits → (∃ reason, c.save = .error (.config reason)) ∧
      ∀ old, c.stored old = old) ∧
    (∀ (given : Settings) (text : String), given.GivenBy text →
      load path (.bytes text.toUTF8) = .ok (some given.config)) ∧
    (∀ given : Settings, given.InRange → ∃ text, given.GivenBy text) := by
  refine ⟨fun c fits => ?_, fun c large => ?_, fun given text gives => load_of_givenBy gives path,
    fun given small => ⟨given.text, Settings.givenBy_text small⟩⟩
  · have saved : c.save = .ok c.text := if_pos ((isSavable_iff c).mpr fits)
    refine ⟨saved, fun old => ?_⟩
    have gives : c.settings.GivenBy c.text := by
      rw [text_settings]
      exact Settings.givenBy_text (settings_inRange fits)
    have loaded := load_of_givenBy gives path
    rw [config_settings] at loaded
    rw [stored, saved]
    exact loaded
  · have failed : c.save = .error (.config "failed to serialize config") :=
      if_neg (mt (isSavable_iff c).mp large)
    refine ⟨⟨_, failed⟩, fun old => ?_⟩
    rw [stored, failed]

/-- Two of the settings, one at each level. -/
def sparse : Settings where
  logFormat := some .json
  profile := some { watchdogTimeoutMs := some 70 }

def sparseText : String := "log_format = \"json\"\n\n[profile]\nwatchdog_timeout_ms = 70\n"

theorem sparse_givenBy : sparse.GivenBy sparseText := by
  have small : sparse.InRange := by
    rintro p ⟨⟩
    show ∀ n ∈ [(70 : UInt64)], n.toNat ≤ 2 ^ 63 - 1
    simp
  have same : sparse.text = sparseText := rfl
  rw [← same]
  exact Settings.givenBy_text small

def widest : Config := { profile := { watchdogTimeoutMs := some 9223372036854775807 } }

def tooWide : Config := { profile := { watchdogTimeoutMs := some 9223372036854775808 } }

theorem files_round_trip_sparse :
    load "config.toml" (widest.stored .missing) = .ok (some widest) ∧
    tooWide.stored (.bytes sparseText.toUTF8) = .bytes sparseText.toUTF8 ∧
    load "config.toml" (.bytes sparseText.toUTF8) =
      .ok (some { logFormat := .json, profile := { watchdogTimeoutMs := some 70 } }) := by
  obtain ⟨saves, keeps, loads, _⟩ := files_round_trip "config.toml"
  have fits : widest.Fits := (isSavable_iff widest).mp rfl
  have large : ¬ tooWide.Fits := mt (isSavable_iff tooWide).mpr (by decide)
  exact ⟨(saves widest fits).2 .missing, (keeps tooWide large).2 _,
    loads sparse sparseText sparse_givenBy⟩

end Config

end RobotControl
