import RobotControl.Proofs.Toml.Numbers
import RobotControl.Toml.Reader

/-!
# Reading what was written line by line

A line that gives a bare name a flag, a word or a plain text is read as that pair, and a bare name
between brackets as a header (`reads_pair`, `reads_header`).  A line is read before whatever stands
on the lines after it, so that a text of such lines builds the document of their statements
(`parse_written`).
-/
set_option autoImplicit false

namespace RobotControl.Toml

/-! ### Names -/

/-- A name that needs no quotes. -/
structure IsBare (name : List Char) : Prop where
  nonempty : name ≠ []
  all_bare : ∀ c ∈ name, isBareKeyChar c = true

instance (name : List Char) : Decidable (IsBare name) :=
  decidable_of_iff ((!name.isEmpty && name.all isBareKeyChar) = true) <| by
    rw [Bool.and_eq_true, Bool.not_eq_true', List.isEmpty_eq_false_iff, List.all_eq_true]
    exact ⟨fun h => ⟨h.1, h.2⟩, fun h => ⟨h.nonempty, h.all_bare⟩⟩

theorem IsBare.ne_cons {name : List Char} (bare : IsBare name) {c : Char}
    (other : isBareKeyChar c = false) (rest left : Rest) : name ++ rest ≠ c :: left :=
  append_ne_cons bare.nonempty bare.all_bare other rest left

theorem keyPart_bare {name : List Char} (bare : IsBare name) {c : Char}
    (stop : isBareKeyChar c = false) (rest : Rest) :
    keyPart (name ++ c :: rest) = some (String.ofList name, c :: rest) := by
  unfold keyPart
  split
  · next shape => exact absurd shape (bare.ne_cons (by decide) _ _)
  · next shape => exact absurd shape (bare.ne_cons (by decide) _ _)
  · have taken : (name ++ c :: rest).takeWhile isBareKeyChar = name := by
      rw [List.takeWhile_append_of_pos bare.all_bare, List.takeWhile_cons_of_neg (by simp [stop]),
        List.append_nil]
    have left : (name ++ c :: rest).dropWhile isBareKeyChar = c :: rest := by
      rw [List.dropWhile_append_of_pos bare.all_bare, List.dropWhile_cons_of_neg (by simp [stop])]
    rw [taken, left]
    simp [bare.nonempty]

theorem key_bare {name : List Char} (bare : IsBare name) {c : Char}
    (stop : isBareKeyChar c = false) {rest : Rest}
    (single : ∀ left, skipSpaces (c :: rest) ≠ '.' :: left) :
    key (name ++ c :: rest) = some ([String.ofList name], c :: rest) := by
  unfold key maxDepth keyParts
  rw [keyPart_bare bare stop]
  dsimp only [Option.bind_eq_bind, Option.bind_some]
  split
  · next left shape => exact absurd shape (single left)
  · rfl

/-! ### Scalars -/

/-- The text of a scalar, which is read back up to the end of the line. -/
structure Writes (literal : List Char) (v : Tree) : Prop where
  starts : ∃ c more, literal = c :: more ∧ isSpace c = false ∧ c ≠ '[' ∧ c ≠ '\x7b'
  reads : ∀ rest, scalar (literal ++ '\n' :: rest) = some (v, '\n' :: rest)

theorem Writes.value {literal : List Char} {v : Tree} (writes : Writes literal v) (depth : Nat)
    (rest : Rest) : value depth (literal ++ '\n' :: rest) = some (v, '\n' :: rest) := by
  obtain ⟨c, more, rfl, _, list, table⟩ := writes.starts
  rw [← writes.reads rest, List.cons_append]
  unfold Toml.value
  split
  · next shape => exact absurd (List.cons.inj shape).1 list
  · next shape => exact absurd (List.cons.inj shape).1 table
  · rfl

theorem writes_flag (b : Bool) : Writes (if b then "true" else "false").toList (.flag b) := by
  cases b with
  | true => exact ⟨⟨'t', _, rfl, by decide, by decide, by decide⟩, fun _ => rfl⟩
  | false => exact ⟨⟨'f', _, rfl, by decide, by decide, by decide⟩, fun _ => rfl⟩

theorem writes_word {n : Nat} (small : n < integerLimit) :
    Writes (toString n).toList (.whole n) := by
  refine ⟨?_, scalar_word small⟩
  rw [Nat.toString_eq_repr, Nat.toList_repr]
  cases shape : Nat.toDigits 10 n with
  | nil => exact absurd shape Nat.toDigits_ne_nil
  | cons c more =>
      have digit : c.isDigit = true :=
        isDigit_of_mem_toDigits n c (shape ▸ List.mem_cons_self)
      have other : ∀ d, d.isDigit = false → c ≠ d := fun d => ne_of_kind digit
      refine ⟨c, more, rfl, ?_, other '[' (by decide), other '\x7b' (by decide)⟩
      simp [isSpace, other ' ' (by decide), other '\t' (by decide)]

/-- What stands between quotes as it is. -/
def isPlain (c : Char) : Bool := isInLine c && c ≠ '"' && c ≠ '\\'

theorem basicBody_plain {cs : List Char} (plain : ∀ c ∈ cs, isPlain c = true) (rest : Rest) :
    ∀ {fuel : Nat}, cs.length < fuel → basicBody fuel (cs ++ '"' :: rest) = some (cs, rest) := by
  induction cs with
  | nil =>
      rintro (_ | fuel) enough
      · cases enough
      · rfl
  | cons c cs ih =>
      rintro (_ | fuel) enough
      · cases enough
      · have first : isPlain c = true := plain c List.mem_cons_self
        simp only [isPlain, Bool.and_eq_true, decide_eq_true_eq] at first
        obtain ⟨⟨in_line, no_quote⟩, no_escape⟩ := first
        have left : cs.length < fuel := Nat.lt_of_succ_lt_succ enough
        have later : basicBody fuel (cs ++ '"' :: rest) = some (cs, rest) :=
          ih (fun d member => plain d (List.mem_cons_of_mem _ member)) left
        rw [List.cons_append, basicBody.eq_4 _ _ _ no_quote no_escape, if_pos in_line, later]
        rfl

theorem string_plain {cs : List Char} (plain : ∀ c ∈ cs, isPlain c = true) (rest : Rest) :
    string ('"' :: (cs ++ '"' :: '\n' :: rest)) = some (String.ofList cs, '\n' :: rest) := by
  -- Two quotes follow the first one only where nothing is quoted, and then no third one.
  have short : ∀ left, cs ++ '"' :: '\n' :: rest ≠ '"' :: '"' :: left := by
    intro left shape
    cases cs with
    | nil => cases shape
    | cons c cs =>
        have quote : c = '"' := (List.cons.inj shape).1
        exact absurd (plain c List.mem_cons_self) (by rw [quote]; decide)
  unfold string
  split
  · next shape => exact absurd (List.cons.inj shape).2 (short _)
  · next shape =>
      cases shape
      have enough : cs.length < (cs ++ '"' :: '\n' :: rest).length + 1 := by
        rw [List.length_append]
        omega
      rw [basicBody_plain plain _ enough]
      rfl
  · next shape => cases shape
  · next shape => cases shape
  · next other _ _ => exact absurd rfl (other _)

theorem writes_quoted {cs : List Char} (plain : ∀ c ∈ cs, isPlain c = true) :
    Writes ('"' :: cs ++ ['"']) (.text (String.ofList cs)) := by
  refine ⟨⟨'"', cs ++ ['"'], rfl, by decide, by decide, by decide⟩, fun rest => ?_⟩
  rw [List.append_assoc, List.cons_append]
  exact congrArg (Option.map fun r => (Tree.text r.1, r.2)) (string_plain plain rest)

/-! ### Lines -/

/-- A line is read as its statement, in front of any other lines. -/
structure Reads (line : List Char) (s : Statement) : Prop where
  unmarked : ∀ rest, skipMark (line ++ rest) = line ++ rest
  reads : ∀ fuel rest,
    statements (fuel + 1) (line ++ '\n' :: rest) = (statements fuel rest).map (s :: ·)

/-- What a line with a statement may start with. -/
def isVisible (c : Char) : Bool :=
  !isSpace c && c ≠ '#' && c ≠ '\n' && c ≠ '\x0d' && c.toNat ≠ 0xfeff

theorem skipSpaces_cons {c : Char} (no_space : isSpace c = false) (rest : Rest) :
    skipSpaces (c :: rest) = c :: rest :=
  List.dropWhile_cons_of_neg (by rw [no_space]; exact Bool.false_ne_true)

theorem skipBlankLines_visible {c : Char} (visible : isVisible c = true) (fuel : Nat)
    (rest : Rest) : skipBlankLines (fuel + 1) (c :: rest) = c :: rest := by
  simp only [isVisible, Bool.and_eq_true, Bool.not_eq_true', decide_eq_true_eq] at visible
  obtain ⟨⟨⟨⟨no_space, no_comment⟩, no_newline⟩, no_return⟩, _⟩ := visible
  have comment : skipComment (c :: rest) = c :: rest := by
    unfold skipComment
    split
    · next shape => exact absurd (List.cons.inj shape).1 no_comment
    · rfl
  have no_end : newline (c :: rest) = none := by
    unfold newline
    split
    · next shape => exact absurd (List.cons.inj shape).1 no_newline
    · next shape => exact absurd (List.cons.inj shape).1 no_return
    · rfl
  rw [skipBlankLines, skipSpaces_cons no_space, comment, no_end]

theorem skipMark_visible {c : Char} (visible : isVisible c = true) (rest : Rest) :
    skipMark (c :: rest) = c :: rest := by
  simp only [isVisible, Bool.and_eq_true, decide_eq_true_eq] at visible
  exact if_neg visible.2

theorem reads_of_statement {line : List Char} {s : Statement}
    (starts : ∃ c more, line = c :: more ∧ isVisible c = true)
    (first : ∀ rest, statement (line ++ '\n' :: rest) = some (s, '\n' :: rest)) :
    Reads line s := by
  obtain ⟨c, more, rfl, visible⟩ := starts
  refine ⟨fun rest => skipMark_visible visible _, fun fuel rest => ?_⟩
  have ends : lineEnd ('\n' :: rest) = some rest := rfl
  have here : skipBlankLines ((c :: more ++ '\n' :: rest).length + 1) (c :: more ++ '\n' :: rest) =
      c :: more ++ '\n' :: rest := skipBlankLines_visible visible _ _
  rw [statements, here]
  show (statement (c :: more ++ '\n' :: rest)).bind _ = _
  rw [first, Option.bind_some]
  dsimp only
  rw [ends, Option.bind_eq_bind, Option.bind_some]
  cases statements fuel rest <;> rfl

theorem IsBare.starts {name : List Char} (bare : IsBare name) (rest : List Char) :
    ∃ c more, name ++ rest = c :: more ∧ isVisible c = true := by
  cases name with
  | nil => exact absurd rfl bare.nonempty
  | cons c more =>
      refine ⟨c, more ++ rest, rfl, ?_⟩
      have other : ∀ d, isBareKeyChar d = false → c ≠ d := fun d =>
        ne_of_kind (bare.all_bare c List.mem_cons_self)
      have no_mark : c.toNat ≠ 0xfeff := fun mark =>
        other (Char.ofNat 0xfeff) (by decide) (Char.toNat_inj.mp mark)
      simp [isVisible, isSpace, no_mark, other ' ' (by decide), other '\t' (by decide),
        other '#' (by decide), other '\n' (by decide), other '\x0d' (by decide)]

theorem IsBare.skipSpaces {name : List Char} (bare : IsBare name) (rest : Rest) :
    skipSpaces (name ++ rest) = name ++ rest := by
  obtain ⟨c, more, shape, visible⟩ := bare.starts rest
  simp only [isVisible, Bool.and_eq_true, Bool.not_eq_true'] at visible
  rw [shape]
  exact skipSpaces_cons visible.1.1.1.1 more

theorem Writes.skipSpaces {literal : List Char} {v : Tree} (writes : Writes literal v)
    (rest : Rest) : skipSpaces (literal ++ rest) = literal ++ rest := by
  obtain ⟨c, more, rfl, no_space, _⟩ := writes.starts
  exact skipSpaces_cons no_space (more ++ rest)

theorem reads_pair {name literal : List Char} {v : Tree} (bare : IsBare name)
    (writes : Writes literal v) :
    Reads (name ++ ' ' :: '=' :: ' ' :: literal) (.pair [String.ofList name] v) := by
  refine reads_of_statement (bare.starts _) fun rest => ?_
  have single : ∀ left : Rest,
      Toml.skipSpaces (' ' :: '=' :: ' ' :: (literal ++ '\n' :: rest)) ≠ '.' :: left := nofun
  rw [List.append_assoc]
  unfold statement
  split
  · next shape => exact absurd shape (bare.ne_cons (by decide) _ _)
  · next shape => exact absurd shape (bare.ne_cons (by decide) _ _)
  · show (key (name ++ ' ' :: '=' :: ' ' :: (literal ++ '\n' :: rest))).bind _ = _
    rw [key_bare bare (by decide) single, Option.bind_some]
    show (value maxDepth (Toml.skipSpaces (literal ++ '\n' :: rest))).bind _ = _
    rw [writes.skipSpaces, writes.value]
    rfl

theorem reads_header {name : List Char} (bare : IsBare name) :
    Reads ('[' :: (name ++ [']'])) (.header [String.ofList name]) := by
  refine reads_of_statement ⟨'[', _, rfl, by decide⟩ fun rest => ?_
  have single : ∀ left : Rest, skipSpaces (']' :: '\n' :: rest) ≠ '.' :: left := nofun
  rw [List.cons_append, List.append_assoc]
  unfold statement
  split
  · next shape => exact absurd (List.cons.inj shape).2 (bare.ne_cons (by decide) _ _)
  · next shape =>
      cases shape
      show (key (skipSpaces (name ++ ']' :: '\n' :: rest))).bind _ = _
      rw [bare.skipSpaces, key_bare bare (by decide) single]
      rfl
  · next other => exact absurd rfl (other _)

theorem Reads.blank {line : List Char} {s : Statement} (reads : Reads line s) :
    Reads ('\n' :: line) s :=
  ⟨fun _ => rfl, fun fuel rest => reads.reads fuel rest⟩

/-! ### Texts of several lines -/

def written (lines : List (List Char × Statement)) : Rest := lines.flatMap fun l => l.1 ++ ['\n']

theorem length_le_length_written (lines : List (List Char × Statement)) :
    lines.length ≤ (written lines).length := by
  induction lines with
  | nil => exact Nat.zero_le _
  | cons l lines ih =>
      simp only [written, List.flatMap_cons, List.length_append, List.length_cons,
        List.length_nil] at ih ⊢
      omega

theorem statements_written {lines : List (List Char × Statement)}
    (reads : ∀ l ∈ lines, Reads l.1 l.2) :
    ∀ {fuel : Nat}, lines.length < fuel →
      statements fuel (written lines) = some (lines.map (·.2)) := by
  induction lines with
  | nil =>
      rintro (_ | fuel) enough
      · cases enough
      · rfl
  | cons l lines ih =>
      rintro (_ | fuel) enough
      · cases enough
      · have others := ih (fun k member => reads k (List.mem_cons_of_mem _ member))
          (Nat.lt_of_succ_lt_succ enough)
        have shape : written (l :: lines) = l.1 ++ '\n' :: written lines := by
          simp [written]
        rw [shape, (reads l List.mem_cons_self).reads, others]
        rfl

theorem parse_written {lines : List (List Char × Statement)} (reads : ∀ l ∈ lines, Reads l.1 l.2)
    {s : String} (shape : s.toList = written lines) : parse s = build (lines.map (·.2)) := by
  have unmarked : skipMark (written lines) = written lines := by
    cases lines with
    | nil => rfl
    | cons l lines =>
        simp only [written, List.flatMap_cons, List.append_assoc]
        exact (reads l List.mem_cons_self).unmarked _
  have read : statements ((written lines).length + 1) (written lines) = some (lines.map (·.2)) :=
    statements_written reads (Nat.lt_succ_of_le (length_le_length_written lines))
  unfold parse
  dsimp only
  rw [shape, unmarked, read]
  rfl

end RobotControl.Toml
