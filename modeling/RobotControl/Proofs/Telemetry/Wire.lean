import RobotControl.Schedule.Basic
import RobotControl.Telemetry.NetworkTable

/-!
# One line on the wire

The wire to the operator takes line after line.  A log line is one line exactly when the texts that
go out as they are have no line break: the target, the message, the names of the fields and the
values that are shown; quoted texts, numbers and truth values cannot break it.  A table entry is one
line exactly when its value is, whatever its key (`Wire.one_line_iff`).  Messages, shown values and
entries come from outside, the text of a caught panic among them, and nothing takes their line
breaks out (`Wire.broken_in_two`).
-/
set_option autoImplicit false

namespace RobotControl

namespace Text

def OneLine (s : String) : Prop := '\n' ∉ s.toList

instance (s : String) : Decidable (OneLine s) := inferInstanceAs (Decidable ('\n' ∉ s.toList))

@[simp]
theorem oneLine_append (s t : String) : OneLine (s ++ t) ↔ OneLine s ∧ OneLine t := by
  simp [OneLine, not_or]

@[simp]
theorem oneLine_ofList (cs : List Char) : OneLine (String.ofList cs) ↔ '\n' ∉ cs := by
  simp [OneLine]

@[simp]
theorem oneLine_join (l : List String) : OneLine (String.join l) ↔ ∀ s ∈ l, OneLine s := by
  simp [OneLine, String.toList_join]

/-! ### Quoted texts -/

theorem hexDigit_ne_newline (n : Nat) : Value.hexDigit n ≠ '\n' := by
  have all : ∀ d : Fin 16, Value.hexDigit d ≠ '\n' := by decide
  have last : Value.hexDigit n = Value.hexDigit (n % 16) := by
    simp [Value.hexDigit]
  rw [last]
  exact all ⟨n % 16, Nat.mod_lt n (by decide)⟩

theorem newline_not_mem_hexText (n : Nat) : '\n' ∉ hexText n := by
  have digits : ∀ fuel n, '\n' ∉ hexText.digits fuel n := by
    intro fuel
    induction fuel with
    | zero => intro n; simp [hexText.digits]
    | succ fuel ih =>
        intro n
        unfold hexText.digits
        split
        · simp [(hexDigit_ne_newline n).symm]
        · simp [ih, (hexDigit_ne_newline n).symm]
  exact digits 8 n

/-- A line break has a short form of its own; what is left to stand for itself is none. -/
theorem newline_not_mem_quotedChar (c : Char) : '\n' ∉ quotedChar c := by
  unfold quotedChar
  repeat' split
  all_goals simp [newline_not_mem_hexText, eq_comm, *]

theorem oneLine_quoted (s : String) : OneLine (quoted s) := by
  have inside : '\n' ∉ s.toList.flatMap quotedChar := fun found => by
    obtain ⟨c, _, member⟩ := List.mem_flatMap.mp found
    exact newline_not_mem_quotedChar c member
  simp only [quoted, oneLine_append, oneLine_ofList]
  exact ⟨⟨by decide, inside⟩, by decide⟩

/-! ### Numbers -/

theorem newline_not_mem_digits (n : Nat) : '\n' ∉ Nat.toDigits 10 n := fun found => by
  have digit := Nat.isDigit_of_mem_toDigits (by decide) (by decide) found
  exact absurd digit (by decide)

theorem newline_not_mem_nat (n : Nat) : '\n' ∉ (toString n).toList := by
  rw [Nat.toString_eq_repr, Nat.toList_repr]
  exact newline_not_mem_digits n

theorem oneLine_int (n : Int) : OneLine (toString n) := by
  cases n with
  | ofNat n => exact newline_not_mem_nat n
  | negSucc n =>
      show OneLine ("-" ++ toString (n + 1))
      exact (oneLine_append ..).mpr ⟨by decide, newline_not_mem_nat (n + 1)⟩

theorem newline_not_mem_zeros (n : Nat) : '\n' ∉ List.replicate n '0' := by
  simp [List.mem_replicate]

theorem oneLine_positional (d : Number.Decimal) : OneLine (Number.positional d) := by
  have digits := newline_not_mem_nat d.digits
  unfold Number.positional
  dsimp only
  split
  · simp only [oneLine_append, oneLine_ofList, List.mem_append, not_or]
    exact ⟨⟨digits, newline_not_mem_zeros _⟩, by decide⟩
  · have padded : ∀ zeros, '\n' ∉ List.replicate zeros '0' ++ (toString d.digits).toList := by
      intro zeros
      rw [List.mem_append, not_or]
      exact ⟨newline_not_mem_zeros zeros, digits⟩
    simp only [oneLine_append, oneLine_ofList]
    exact ⟨⟨fun found => padded _ (List.mem_of_mem_take found), by decide⟩,
      fun found => padded _ (List.mem_of_mem_drop found)⟩

theorem oneLine_scientific (d : Number.Decimal) : OneLine (Number.scientific d) := by
  have digits := newline_not_mem_nat d.digits
  unfold Number.scientific
  dsimp only
  refine (oneLine_append ..).mpr ⟨(oneLine_append ..).mpr ⟨?_, by decide⟩, oneLine_int _⟩
  split
  · decide
  · next c shape =>
      rw [shape] at digits
      exact (oneLine_ofList ..).mpr digits
  · next c rest shape =>
      rw [shape, List.mem_cons, not_or] at digits
      rw [oneLine_ofList, List.mem_cons, List.mem_cons, not_or, not_or]
      exact ⟨digits.1, by decide, digits.2⟩

theorem oneLine_plain (x : Float) : OneLine (Number.plain x) := by
  have sign : OneLine (if (Number.Double.ofFloat x).negative then "-" else "") := by
    split <;> decide
  unfold Number.plain
  dsimp only
  split
  · decide
  · exact (oneLine_append ..).mpr ⟨sign, by decide⟩
  · split
    · exact (oneLine_append ..).mpr ⟨sign, by decide⟩
    · refine (oneLine_append ..).mpr ⟨sign, ?_⟩
      split
      · exact oneLine_positional _
      · exact oneLine_scientific _

end Text

open Text

/-! ### Log lines -/

namespace FieldValue

/-- The texts of a value that go out as they are. -/
def raw : FieldValue → List String
  | .shown s => [s]
  | _ => []

theorem oneLine_render {v : FieldValue} {text : String} (rendered : v.render = some text) :
    OneLine text ↔ ∀ s ∈ v.raw, OneLine s := by
  cases v with
  | shown s =>
      cases rendered
      exact (List.forall_mem_singleton (p := OneLine)).symm
  | quoted s =>
      cases rendered
      exact iff_of_true (oneLine_quoted s) (List.forall_mem_nil _)
  | whole n =>
      cases rendered
      exact iff_of_true (oneLine_int n) (List.forall_mem_nil _)
  | real x =>
      cases rendered
      exact iff_of_true (oneLine_plain x) (List.forall_mem_nil _)
  | flag b =>
      cases rendered
      exact iff_of_true (by cases b <;> decide) (List.forall_mem_nil _)
  | optional n =>
      obtain ⟨i, rfl, rfl⟩ := Option.map_eq_some_iff.mp rendered
      exact iff_of_true (oneLine_int i) (List.forall_mem_nil _)

end FieldValue

namespace Line

/-- The texts of a field that go out as they are; a field without a value leaves no trace. -/
def rawOf (f : String × FieldValue) : List String :=
  match f.2.render with
  | none => []
  | some _ => f.1 :: f.2.raw

/-- The texts of a line that go out as they are. -/
def raw (l : Line) : List String := l.target :: l.message :: l.fields.flatMap rawOf

theorem oneLine_renderField (f : String × FieldValue) :
    OneLine (renderField f) ↔ ∀ s ∈ rawOf f, OneLine s := by
  have nothing : OneLine "" := by decide
  unfold renderField rawOf
  cases rendered : f.2.render with
  | none => exact iff_of_true nothing (List.forall_mem_nil _)
  | some text =>
      have space : OneLine " " := by decide
      have equals : OneLine "=" := by decide
      simp [space, equals, FieldValue.oneLine_render rendered]

theorem oneLine_render (l : Line) : OneLine l.render ↔ ∀ s ∈ l.raw, OneLine s := by
  have label : OneLine l.level.label := by cases l.level <;> decide
  have opening : OneLine "[" := by decide
  have closing : OneLine "]: " := by decide
  have dash : OneLine " - " := by decide
  simp only [render, raw, oneLine_append, oneLine_join, List.mem_map, forall_exists_index, and_imp,
    forall_apply_eq_imp_iff₂, oneLine_renderField, List.mem_cons, List.mem_flatMap,
    forall_eq_or_imp, opening, label, closing, dash, true_and, and_true]
  grind

end Line

/-! ### Table entries -/

namespace NetworkTable

theorem oneLine_cleanKey (key : String) : OneLine (cleanKey key) := by
  rw [cleanKey, oneLine_ofList, List.mem_filter]
  exact fun found => absurd found.2 (by decide)

theorem oneLine_entryLine (key value : String) :
    OneLine (Sink.entryLine (cleanKey key) value) ↔ OneLine value := by
  have equals : OneLine "=" := by decide
  simp only [Sink.entryLine, oneLine_append, oneLine_cleanKey, equals, true_and]

end NetworkTable

/-! ### What goes out -/

namespace Wire

/-- A log line goes out as one line exactly when all of its raw texts are; a table entry, through a
sink that knows lines only, exactly when its value is. -/
theorem one_line_iff (l : Line) (entries : Assoc String String) (delivered : List Delivery)
    (key value : String) :
    (OneLine l.render ↔ ∀ s ∈ l.raw, OneLine s) ∧
      ∃ line, (NetworkTable.set ⟨entries, .lines, delivered⟩ key value).sink.delivered =
        delivered ++ [.line line] ∧ (OneLine line ↔ OneLine value) :=
  ⟨Line.oneLine_render l, Sink.entryLine (NetworkTable.cleanKey key) value, rfl,
    NetworkTable.oneLine_entryLine key value⟩

/-- A job that panics with two lines, and an entry with a value of two. -/
theorem broken_in_two :
    ¬ OneLine (Schedule.failure "drive" (.panic (.text "stalled\nat full speed"))).render ∧
      ∃ line, (NetworkTable.set { sink := { form := .lines } } "state" "on\noff").sink.delivered =
        [.line line] ∧ ¬ OneLine line := by
  refine ⟨?_, _, rfl, ?_⟩
  · rw [Line.oneLine_render]
    decide
  · rw [NetworkTable.oneLine_entryLine]
    decide

end Wire

end RobotControl
