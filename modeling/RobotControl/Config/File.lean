import RobotControl.Config.Basic
import RobotControl.Toml.Reader

/-!
# Configuration files

The text a configuration is saved as and how a text is loaded: fields that are absent keep their
defaults, fields the configuration does not know are ignored, and a field of a wrong type makes the
whole text unreadable.
-/
set_option autoImplicit false

namespace RobotControl.Config

open Toml (Tree Entries)

inductive Stored where
  | missing
  | directory
  | bytes (b : ByteArray)

def readWord : Tree → Option UInt64
  | .whole n => if 0 ≤ n then some n.toNat.toUInt64 else none
  | _ => none

def readFlag : Tree → Option Bool
  | .flag b => some b
  | _ => none

def isEmptyTree : Tree → Bool
  | .array items => items.isEmpty
  | .table _ es => es.isEmpty
  | .tables items => items.isEmpty
  | _ => false

/-- A format by its name, or by a table whose one key is that name. -/
def readFormat : Tree → Option LogFormat
  | .text s => LogFormat.ofName? s
  | .table _ [(name, v)] => if isEmptyTree v then LogFormat.ofName? name else none
  | _ => none

def fieldOr {α : Type} (read : Tree → Option α) (dflt : α) (es : Entries) (name : String) :
    Option α :=
  match es.get? name with
  | none => some dflt
  | some v => read v

def readProfileFields (es : Entries) : Option Profile := do
  let d : Profile := {}
  let schedulerThreads ← fieldOr readWord d.schedulerThreads es "main_scheduler_threads"
  let periodicRateMs ← fieldOr readWord d.periodicRateMs es "periodic_function_rate_ms"
  let maxGamepadAgeMs ← fieldOr readWord d.maxGamepadAgeMs es "max_gamepad_data_age_ms"
  let actionPeriodMs ← fieldOr readWord d.actionPeriodMs es "action_function_period_ms"
  let watchdogTimeoutMs ←
    fieldOr (fun v => (readWord v).map some) d.watchdogTimeoutMs es "watchdog_timeout_ms"
  return { schedulerThreads, periodicRateMs, maxGamepadAgeMs, actionPeriodMs, watchdogTimeoutMs }

def itemOr {α : Type} (read : Tree → Option α) (dflt : α) (items : List Tree) (place : Nat) :
    Option α :=
  match items[place]? with
  | none => some dflt
  | some v => read v

def readProfileItems (items : List Tree) : Option Profile := do
  let d : Profile := {}
  let schedulerThreads ← itemOr readWord d.schedulerThreads items 0
  let periodicRateMs ← itemOr readWord d.periodicRateMs items 1
  let maxGamepadAgeMs ← itemOr readWord d.maxGamepadAgeMs items 2
  let actionPeriodMs ← itemOr readWord d.actionPeriodMs items 3
  let watchdogTimeoutMs ← itemOr (fun v => (readWord v).map some) d.watchdogTimeoutMs items 4
  return { schedulerThreads, periodicRateMs, maxGamepadAgeMs, actionPeriodMs, watchdogTimeoutMs }

/-- A profile from a table or a list; a point in time holds none of its fields. -/
def readProfile : Tree → Option Profile
  | .table _ es => readProfileFields es
  | .moment _ => some {}
  | .array items => readProfileItems items
  | .tables items => readProfileItems (items.map (Tree.table .opened))
  | _ => none

def readEntries (es : Entries) : Option Config := do
  let autoEnable ← fieldOr readFlag false es "auto_enable"
  let logFormat ← fieldOr readFormat .compact es "log_format"
  let profile ← fieldOr readProfile {} es "profile"
  return { autoEnable, logFormat, profile }

def ofText? (s : String) : Option Config := (Toml.parse s).bind readEntries

/-- Loads what stands at `path`; nothing is there to load where no file is. -/
def load (path : String) : Stored → Except Fault (Option Config)
  | .missing => .ok none
  | .directory => .error (.config ("failed to read " ++ path))
  | .bytes b =>
      match String.fromUTF8? b with
      | none => .error (.config ("failed to read " ++ path))
      | some s =>
          match ofText? s with
          | some c => .ok (some c)
          | none => .error (.config ("failed to parse " ++ path))

/-- A file holds integers of at most 63 bits. -/
def fits (n : UInt64) : Bool := n.toNat < Toml.integerLimit

def isSavable (p : Profile) : Bool :=
  fits p.schedulerThreads && fits p.periodicRateMs && fits p.maxGamepadAgeMs &&
    fits p.actionPeriodMs && (p.watchdogTimeoutMs.map fits).getD true

def line (name value : String) : String := name ++ " = " ++ value ++ "\n"

def text (c : Config) : String :=
  let p := c.profile
  line "auto_enable" (if c.autoEnable then "true" else "false") ++
    line "log_format" ("\"" ++ c.logFormat.name ++ "\"") ++
    "\n[profile]\n" ++
    line "main_scheduler_threads" (toString p.schedulerThreads.toNat) ++
    line "periodic_function_rate_ms" (toString p.periodicRateMs.toNat) ++
    line "max_gamepad_data_age_ms" (toString p.maxGamepadAgeMs.toNat) ++
    line "action_function_period_ms" (toString p.actionPeriodMs.toNat) ++
    match p.watchdogTimeoutMs with
    | some ms => line "watchdog_timeout_ms" (toString ms.toNat)
    | none => ""

/-- What saving writes: the whole text, or nothing where it cannot be written down. -/
def save (c : Config) : Except Fault String :=
  if isSavable c.profile then .ok c.text else .error (.config "failed to serialize config")

def stored (c : Config) (old : Stored) : Stored :=
  match c.save with
  | .ok s => .bytes s.toUTF8
  | .error _ => old

end RobotControl.Config
