import RobotControl.Profile

/-!
# Which profiles are accepted

A profile is accepted exactly when each of its durations is a period, from one millisecond up to an
hour, and its watchdog waits longer than the periodic rate.  The checks multiply machine words, but
only after they have bounded the factor, so that no product is lost (`Profile.validate?`).  The
durations derived from an accepted profile are in order: a look of the monitor, a period, and the
patience of the watchdog, which is never cut off (`Profile.validation_exact`).
-/
set_option autoImplicit false

namespace RobotControl

namespace Profile

/-! ### What is accepted -/

def IsPeriod (ms : UInt64) : Prop := 1 ≤ ms.toNat ∧ ms.toNat ≤ 3600000

structure Acceptable (p : Profile) : Prop where
  threads : 1 ≤ p.schedulerThreads.toNat
  rate : IsPeriod p.periodicRateMs
  gamepadAge : IsPeriod p.maxGamepadAgeMs
  actionPeriod : IsPeriod p.actionPeriodMs
  given : ∀ timeout, p.watchdogTimeoutMs = some timeout →
    IsPeriod timeout ∧ p.periodicRateMs.toNat < timeout.toNat
  derived : p.watchdogTimeoutMs = none → 3 * p.periodicRateMs.toNat ≤ 3600000

/-- Milliseconds of the timeout that the profile asks for, whatever their number. -/
def wantedTimeoutMs (p : Profile) : Nat :=
  match p.watchdogTimeoutMs with
  | some timeout => timeout.toNat
  | none => 3 * p.periodicRateMs.toNat

structure TimingInOrder (p : Profile) : Prop where
  timeout : p.watchdogTimeout = p.wantedTimeoutMs * millisecond
  rate_lt_timeout : p.periodicRate < p.watchdogTimeout
  timeout_le : p.watchdogTimeout ≤ 3600000 * millisecond
  le_poll : millisecond ≤ p.pollInterval
  poll_le_rate : p.pollInterval ≤ p.periodicRate

/-! ### Validation in two stages -/

theorem validate_of_given {p : Profile} {timeout : UInt64}
    (given : p.watchdogTimeoutMs = some timeout) :
    p.validate = p.checkSettings >>= fun _ => p.checkGiven timeout := by
  unfold validate validateWith
  rw [given]
  cases p.checkSettings <;> rfl

theorem validate_of_derived {p : Profile} (derived : p.watchdogTimeoutMs = none) :
    p.validate = p.checkSettings >>= fun _ =>
      checkDerived (p.periodicRateMs * timeoutFactor) := by
  unfold validate validateWith
  rw [derived]
  cases p.checkSettings <;> rfl

theorem bind_eq_ok_iff {x y : Except Fault Unit} :
    (x >>= fun _ => y) = .ok () ↔ x = .ok () ∧ y = .ok () := by
  cases x with
  | error fault => simp [bind, Except.bind]
  | ok done => simp [bind, Except.bind]

theorem checkPeriod_eq_ok_iff {field : String} {ms : UInt64} :
    checkPeriod field ms = .ok () ↔ IsPeriod ms := by
  have zero : ms = 0 ↔ ms.toNat = 0 := UInt64.toNat_inj.symm
  have above : maxPeriodMs < ms ↔ 3600000 < ms.toNat := UInt64.lt_iff_toNat_lt
  unfold checkPeriod IsPeriod
  split
  · next nothing =>
      refine ⟨nofun, fun bounds => ?_⟩
      have := zero.mp nothing
      omega
  · next nonzero =>
      split
      · next long =>
          refine ⟨nofun, fun bounds => ?_⟩
          have := above.mp long
          omega
      · next short =>
          refine ⟨fun _ => ?_, fun _ => rfl⟩
          have := mt zero.mpr nonzero
          have := mt above.mpr short
          omega

theorem checkSettings_eq_ok_iff {p : Profile} :
    p.checkSettings = .ok () ↔ 1 ≤ p.schedulerThreads.toNat ∧ IsPeriod p.periodicRateMs ∧
      IsPeriod p.maxGamepadAgeMs ∧ IsPeriod p.actionPeriodMs := by
  have zero : p.schedulerThreads = 0 ↔ p.schedulerThreads.toNat = 0 := UInt64.toNat_inj.symm
  unfold checkSettings
  split
  · next nothing =>
      refine ⟨nofun, fun accepted => ?_⟩
      have := zero.mp nothing
      omega
  · next nonzero =>
      have threads : 1 ≤ p.schedulerThreads.toNat := Nat.pos_of_ne_zero (mt zero.mpr nonzero)
      dsimp only
      rw [bind_eq_ok_iff, bind_eq_ok_iff, checkPeriod_eq_ok_iff, checkPeriod_eq_ok_iff,
        checkPeriod_eq_ok_iff]
      exact (and_iff_right threads).symm

theorem toNat_derived {p : Profile} (rate : IsPeriod p.periodicRateMs) :
    (p.periodicRateMs * timeoutFactor).toNat = 3 * p.periodicRateMs.toNat := by
  have factor : timeoutFactor.toNat = 3 := rfl
  have bound := rate.2
  rw [UInt64.toNat_mul, factor]
  omega

theorem checkGiven_eq_ok_iff {p : Profile} {timeout : UInt64} :
    p.checkGiven timeout = .ok () ↔
      IsPeriod timeout ∧ p.periodicRateMs.toNat < timeout.toNat := by
  unfold checkGiven
  rw [bind_eq_ok_iff, checkPeriod_eq_ok_iff]
  refine and_congr_right fun _ => ?_
  split
  · next short =>
      have bound := UInt64.le_iff_toNat_le.mp short
      exact ⟨nofun, fun longer => absurd longer (Nat.not_lt.mpr bound)⟩
  · next long =>
      have longer := Nat.lt_of_not_le (mt UInt64.le_iff_toNat_le.mpr long)
      exact ⟨fun _ => longer, fun _ => rfl⟩

theorem checkDerived_eq_ok_iff {p : Profile} (rate : IsPeriod p.periodicRateMs) :
    checkDerived (p.periodicRateMs * timeoutFactor) = .ok () ↔
      3 * p.periodicRateMs.toNat ≤ 3600000 := by
  have above : maxPeriodMs < p.periodicRateMs * timeoutFactor ↔
      3600000 < 3 * p.periodicRateMs.toNat := by
    rw [UInt64.lt_iff_toNat_lt, toNat_derived rate]
    rfl
  unfold checkDerived
  split
  · next long => exact ⟨nofun, fun bound => absurd (above.mp long) (Nat.not_lt.mpr bound)⟩
  · next short => exact ⟨fun _ => Nat.le_of_not_lt (mt above.mpr short), fun _ => rfl⟩

theorem validate_eq_ok_iff {p : Profile} : p.validate = .ok () ↔ p.Acceptable := by
  cases timeout : p.watchdogTimeoutMs with
  | some ms =>
      rw [validate_of_given timeout, bind_eq_ok_iff, checkSettings_eq_ok_iff, checkGiven_eq_ok_iff]
      constructor
      · rintro ⟨⟨threads, rate, gamepadAge, actionPeriod⟩, given⟩
        refine ⟨threads, rate, gamepadAge, actionPeriod, fun ms' same => ?_, fun none => ?_⟩
        · obtain rfl := Option.some.inj (timeout.symm.trans same)
          exact given
        · exact nomatch timeout.symm.trans none
      · rintro ⟨threads, rate, gamepadAge, actionPeriod, given, _⟩
        exact ⟨⟨threads, rate, gamepadAge, actionPeriod⟩, given ms timeout⟩
  | none =>
      rw [validate_of_derived timeout, bind_eq_ok_iff, checkSettings_eq_ok_iff]
      constructor
      · rintro ⟨⟨threads, rate, gamepadAge, actionPeriod⟩, checked⟩
        refine ⟨threads, rate, gamepadAge, actionPeriod, fun ms given => ?_, fun _ => ?_⟩
        · exact nomatch timeout.symm.trans given
        · exact (checkDerived_eq_ok_iff rate).mp checked
      · rintro ⟨threads, rate, gamepadAge, actionPeriod, _, derived⟩
        exact ⟨⟨threads, rate, gamepadAge, actionPeriod⟩,
          (checkDerived_eq_ok_iff rate).mpr (derived timeout)⟩

/-! ### Products of machine words -/

theorem product?_derived {p : Profile} (rate : IsPeriod p.periodicRateMs) :
    product? p.periodicRateMs timeoutFactor = some (p.periodicRateMs * timeoutFactor) :=
  if_pos (Nat.lt_of_le_of_lt (Nat.mul_le_mul_right _ rate.2) (by decide))

/-- The rate has been found to be a period before anything is multiplied by it. -/
theorem validate?_eq (p : Profile) : p.validate? = some p.validate := by
  unfold validate? validate validateWith
  cases checked : p.checkSettings with
  | error fault => rfl
  | ok done =>
      obtain ⟨_, rate, _, _⟩ := checkSettings_eq_ok_iff.mp checked
      dsimp only
      rw [product?_derived rate]
      cases p.watchdogTimeoutMs <;> rfl

/-! ### The durations of an accepted profile -/

theorem timeoutMs_eq {p : Profile} (accepted : p.Acceptable) : p.timeoutMs = p.wantedTimeoutMs := by
  unfold timeoutMs wantedTimeoutMs
  cases timeout : p.watchdogTimeoutMs with
  | some ms => rfl
  | none =>
      have bound := accepted.derived timeout
      have factor : timeoutFactor.toNat = 3 := rfl
      show min (p.periodicRateMs.toNat * timeoutFactor.toNat) (UInt64.size - 1) = _
      rw [factor]
      simp only [UInt64.size]
      omega

theorem wantedTimeoutMs_bounds {p : Profile} (accepted : p.Acceptable) :
    p.periodicRateMs.toNat < p.wantedTimeoutMs ∧ p.wantedTimeoutMs ≤ 3600000 := by
  unfold wantedTimeoutMs
  cases timeout : p.watchdogTimeoutMs with
  | some ms =>
      obtain ⟨period, longer⟩ := accepted.given ms timeout
      exact ⟨longer, period.2⟩
  | none =>
      have positive := accepted.rate.1
      have bound := accepted.derived timeout
      show _ < 3 * _ ∧ 3 * _ ≤ _
      omega

theorem pollInterval_bounds {p : Profile} (accepted : p.Acceptable) :
    millisecond ≤ p.pollInterval ∧ p.pollInterval ≤ p.periodicRate := by
  have positive : millisecond ≤ p.periodicRate :=
    Nat.le_mul_of_pos_left millisecond accepted.rate.1
  exact ⟨Nat.le_max_right _ _, Nat.max_le.mpr ⟨Nat.div_le_self _ _, positive⟩⟩

theorem timingInOrder {p : Profile} (accepted : p.Acceptable) : p.TimingInOrder := by
  obtain ⟨longer, bound⟩ := wantedTimeoutMs_bounds accepted
  obtain ⟨le_poll, poll_le_rate⟩ := pollInterval_bounds accepted
  have timeout : p.watchdogTimeout = p.wantedTimeoutMs * millisecond :=
    congrArg (· * millisecond) (timeoutMs_eq accepted)
  refine ⟨timeout, ?_, ?_, le_poll, poll_le_rate⟩
  · rw [timeout]
    exact Nat.mul_lt_mul_of_pos_right longer (by decide)
  · rw [timeout]
    exact Nat.mul_le_mul_right _ bound

/-- Validation never loses a product, accepts the acceptable profiles and no others, and what it
accepts has its durations in order, with the very timeout that was asked for. -/
theorem validation_exact (p : Profile) :
    p.validate? = some p.validate ∧ (p.validate = .ok () ↔ p.Acceptable) ∧
      (p.validate = .ok () → p.TimingInOrder) :=
  ⟨validate?_eq p, validate_eq_ok_iff,
    fun accepted => timingInOrder (validate_eq_ok_iff.mp accepted)⟩

/-- The slowest rate from which a timeout can be derived. -/
def slowest : Profile := { periodicRateMs := 1200000 }

theorem validation_exact_slowest :
    slowest.validate = .ok () ∧ slowest.TimingInOrder ∧ slowest.watchdogTimeout = 3600000000000 ∧
      slowest.validate? = some (.ok ()) := by
  have accepted : slowest.validate = .ok () := rfl
  obtain ⟨lossless, _, inOrder⟩ := validation_exact slowest
  exact ⟨accepted, inOrder accepted, rfl, accepted ▸ lossless⟩

/-- A slower one needs a timeout of its own. -/
example : ({ slowest with periodicRateMs := 1200001, watchdogTimeoutMs := some 1200002 } :
      Profile).validate = .ok () ∧
    ({ slowest with periodicRateMs := 1200001 } : Profile).validate =
      .error (.invalidProfile "periodic_function_rate_ms"
        "derived watchdog timeout must not exceed 3600000 ms") :=
  ⟨rfl, rfl⟩

end Profile

end RobotControl
