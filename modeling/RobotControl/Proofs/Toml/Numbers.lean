import RobotControl.Toml.Scalar

/-!
# Reading decimal numbers

The decimal digits of a natural number at the end of a line are read as an integer again, if it is
in range: neither a point in time nor a number with a fraction begins that way (`scalar_word`).
-/
set_option autoImplicit false

namespace RobotControl.Toml

/-! ### Characters of one kind -/

theorem ne_of_kind {kind : Char → Bool} {c d : Char} (member : kind c = true)
    (other : kind d = false) : c ≠ d := by
  rintro rfl
  rw [member] at other
  cases other

theorem append_ne_cons {kind : Char → Bool} {cs : List Char} (nonempty : cs ≠ [])
    (all : ∀ c ∈ cs, kind c = true) {c : Char} (other : kind c = false) (rest left : Rest) :
    cs ++ rest ≠ c :: left := by
  cases cs with
  | nil => exact absurd rfl nonempty
  | cons d more =>
      exact fun shape => ne_of_kind (all d List.mem_cons_self) other (List.cons.inj shape).1

/-! ### Runs of digits -/

theorem digitRun_of_not_digit {isDigit : Char → Bool} {c : Char} (stops : isDigit c = false)
    (rest : Rest) : digitRun isDigit (c :: rest) = ([], c :: rest) := by
  unfold digitRun
  split
  · next shape => cases shape
  · next d e more shape =>
      cases shape
      simp [stops]
  · next d more _ shape =>
      cases shape
      simp [stops]

theorem digitRun_append {ds : List Char} (digits : ∀ c ∈ ds, c.isDigit = true) (rest : Rest) :
    digitRun Char.isDigit (ds ++ '\n' :: rest) = (ds, '\n' :: rest) := by
  induction ds with
  | nil => exact digitRun_of_not_digit (by decide) rest
  | cons d ds ih =>
      have first : d.isDigit = true := digits d List.mem_cons_self
      have later : ∀ c ∈ ds, c.isDigit = true := fun c member =>
        digits c (List.mem_cons_of_mem _ member)
      have no_gap : ∀ e more, ds ++ '\n' :: rest = '_' :: e :: more → False := by
        intro e more shape
        cases ds with
        | nil => cases shape
        | cons c ds => exact append_ne_cons (List.cons_ne_nil c ds) later (by decide) _ _ shape
      rw [List.cons_append, digitRun.eq_3 _ _ _ no_gap, if_pos first, ih later]

theorem expect_digits {ds : List Char} (digits : ∀ c ∈ ds, c.isDigit = true) (mark : Char)
    (other : mark.isDigit = false) (inside : mark ≠ '\n') (rest : Rest) :
    expect mark (ds ++ '\n' :: rest) = none := by
  cases ds with
  | nil => exact if_neg (Ne.symm inside)
  | cons d ds => exact if_neg (ne_of_kind (digits d List.mem_cons_self) other)

/-! ### Numbers at the end of a line -/

section Line

variable {ds : List Char} (digits : ∀ c ∈ ds, c.isDigit = true) (rest : Rest)
include digits

theorem digits_append {count n : Nat} {left : Rest}
    (read : Toml.digits count (ds ++ '\n' :: rest) = some (n, left)) :
    ∃ ds', left = ds' ++ '\n' :: rest ∧ ∀ c ∈ ds', c.isDigit = true := by
  unfold Toml.digits at read
  dsimp only at read
  split at read
  · next taken =>
      rw [Bool.and_eq_true, decide_eq_true_eq, List.all_eq_true] at taken
      cases read
      by_cases long : count ≤ ds.length
      · exact ⟨ds.drop count, List.drop_append_of_le_length long,
          fun c member => digits c (List.mem_of_mem_drop member)⟩
      · have stop : '\n' ∈ (ds ++ '\n' :: rest).take count := by
          have : count = ds.length + (count - ds.length - 1 + 1) := by omega
          rw [this, List.take_length_add_append]
          simp
        exact absurd (taken.2 _ stop) (by decide)
  · cases read

theorem date_digits : date (ds ++ '\n' :: rest) = none := by
  unfold date
  cases read : Toml.digits 4 (ds ++ '\n' :: rest) with
  | none => rfl
  | some r =>
      obtain ⟨year, left⟩ := r
      obtain ⟨ds', rfl, digits'⟩ := digits_append digits rest read
      simp [expect_digits digits' '-' (by decide) (by decide) rest]

theorem time_digits : time (ds ++ '\n' :: rest) = none := by
  unfold time
  cases read : Toml.digits 2 (ds ++ '\n' :: rest) with
  | none => rfl
  | some r =>
      obtain ⟨hour, left⟩ := r
      obtain ⟨ds', rfl, digits'⟩ := digits_append digits rest read
      simp [expect_digits digits' ':' (by decide) (by decide) rest]

theorem moment_digits : moment (ds ++ '\n' :: rest) = none := by
  unfold moment
  rw [date_digits digits rest, time_digits digits rest]
  rfl

variable (some_digit : ds ≠ []) (no_leading_zero : ∀ more, ds = '0' :: more → more = [])
include some_digit

theorem takeSign_digits : takeSign (ds ++ '\n' :: rest) = (false, ds ++ '\n' :: rest) := by
  unfold takeSign
  split
  · next shape => exact absurd shape (append_ne_cons some_digit digits (by decide) _ _)
  · next shape => exact absurd shape (append_ne_cons some_digit digits (by decide) _ _)
  · rfl

include no_leading_zero

theorem decimalDigits_digits :
    decimalDigits (ds ++ '\n' :: rest) = some (ds, '\n' :: rest) := by
  unfold decimalDigits
  split
  · next left shape =>
      cases ds with
      | nil => exact absurd rfl some_digit
      | cons d more =>
          obtain ⟨rfl, same⟩ := List.cons.inj shape
          rw [no_leading_zero more rfl] at same ⊢
          rw [← same]
          rfl
  · rw [digitRun_append digits]
    cases ds with
    | nil => exact absurd rfl some_digit
    | cons d more => rfl

theorem real_digits : real (ds ++ '\n' :: rest) = none := by
  unfold real
  rw [takeSign_digits digits rest some_digit]
  dsimp only
  split
  · next shape => exact absurd shape (append_ne_cons some_digit digits (by decide) _ _)
  · next shape => exact absurd shape (append_ne_cons some_digit digits (by decide) _ _)
  · rw [decimalDigits_digits digits rest some_digit no_leading_zero]
    rfl

theorem integer_digits (small : ofDigits 10 ds < integerLimit) :
    integer (ds ++ '\n' :: rest) = some ((ofDigits 10 ds : Int), '\n' :: rest) := by
  have in_range : inRange (ofDigits 10 ds) = true := by
    unfold inRange
    rw [Bool.and_eq_true, decide_eq_true_eq, decide_eq_true_eq]
    omega
  have read : decimalDigits (ds ++ '\n' :: rest) = some (ds, '\n' :: rest) :=
    decimalDigits_digits digits rest some_digit no_leading_zero
  -- A leading zero is the only digit, so that the mark of another base cannot follow it.
  have plain : ∀ c left, c ≠ '\n' → ds ++ '\n' :: rest ≠ '0' :: c :: left := by
    intro c left inside shape
    cases ds with
    | nil => exact some_digit rfl
    | cons d more =>
        obtain ⟨rfl, after⟩ := List.cons.inj shape
        rw [no_leading_zero more rfl] at after
        exact inside (List.cons.inj after).1.symm
  unfold integer
  split
  · next shape => exact absurd shape (plain 'x' _ (by decide))
  · next shape => exact absurd shape (plain 'o' _ (by decide))
  · next shape => exact absurd shape (plain 'b' _ (by decide))
  · rw [takeSign_digits digits rest some_digit]
    dsimp only
    rw [read, Option.map_some, Option.bind_some, if_neg Bool.false_ne_true, if_pos in_range]

theorem scalar_digits (small : ofDigits 10 ds < integerLimit) :
    scalar (ds ++ '\n' :: rest) = some (.whole (ofDigits 10 ds), '\n' :: rest) := by
  unfold scalar
  split
  · next shape => exact absurd shape (append_ne_cons some_digit digits (by decide) _ _)
  · next shape => exact absurd shape (append_ne_cons some_digit digits (by decide) _ _)
  · next shape => exact absurd shape (append_ne_cons some_digit digits (by decide) _ _)
  · next shape => exact absurd shape (append_ne_cons some_digit digits (by decide) _ _)
  · rw [moment_digits digits, real_digits digits rest some_digit no_leading_zero]
    dsimp only
    rw [integer_digits digits rest some_digit no_leading_zero small]
    rfl

end Line

/-! ### The digits of a natural number -/

theorem isDigit_of_mem_toDigits (n : Nat) : ∀ c ∈ Nat.toDigits 10 n, c.isDigit = true :=
  fun _ member => Nat.isDigit_of_mem_toDigits (by decide) (by decide) member

theorem toDigits_leading {n : Nat} :
    ∀ {more : List Char}, Nat.toDigits 10 n = '0' :: more → more = [] := by
  induction n using Nat.strongRecOn with
  | ind n ih =>
      intro more shape
      by_cases short : n < 10
      · rw [Nat.toDigits_of_lt_base short] at shape
        exact (List.cons.inj shape).2.symm
      · rw [Nat.toDigits_of_base_le (by decide) (Nat.le_of_not_lt short)] at shape
        cases front : Nat.toDigits 10 (n / 10) with
        | nil => exact absurd front Nat.toDigits_ne_nil
        | cons d ds =>
            rw [front] at shape
            obtain ⟨rfl, _⟩ := List.cons.inj shape
            -- The digits in front would be a single zero, and the number below ten.
            have alone : ds = [] := ih (n / 10) (by omega) front
            have value : Nat.ofDigitChars 10 ('0' :: ds) 0 = n / 10 :=
              front ▸ Nat.ofDigitChars_ten_toDigits
            rw [alone] at value
            have : 0 = n / 10 := value
            omega

theorem foldl_digits {ds : List Char} (digits : ∀ c ∈ ds, c.isDigit = true) (start : Nat) :
    ds.foldl (fun n c => 10 * n + (hexValue c).getD 0) start = Nat.ofDigitChars 10 ds start := by
  induction ds generalizing start with
  | nil => rfl
  | cons d ds ih =>
      have first : (hexValue d).getD 0 = d.toNat - '0'.toNat := by
        rw [hexValue, if_pos (digits d List.mem_cons_self)]
        rfl
      rw [List.foldl_cons, Nat.ofDigitChars_cons, first]
      exact ih (fun c member => digits c (List.mem_cons_of_mem _ member)) _

theorem ofDigits_toDigits (n : Nat) : ofDigits 10 (Nat.toDigits 10 n) = n :=
  (foldl_digits (isDigit_of_mem_toDigits n) 0).trans Nat.ofDigitChars_ten_toDigits

/-- The decimal digits of a number in range, up to the end of the line, are that number. -/
theorem scalar_word {n : Nat} (small : n < integerLimit) (rest : Rest) :
    scalar ((toString n).toList ++ '\n' :: rest) = some (.whole n, '\n' :: rest) := by
  have digits := isDigit_of_mem_toDigits n
  have value : ofDigits 10 (Nat.toDigits 10 n) = n := ofDigits_toDigits n
  have read := scalar_digits digits rest Nat.toDigits_ne_nil (fun _ => toDigits_leading)
    (by rw [value]; exact small)
  rw [value] at read
  rw [Nat.toString_eq_repr, Nat.toList_repr]
  exact read

end RobotControl.Toml
