import RobotControl.Proofs.Action.Ticks
import RobotControl.Proofs.Action.Tickets

/-!
# The order of callbacks

When `begin` and `process` of an action are entered.  `process` is always entered in order.  For
`begin` this takes a start that finds nothing left of an earlier one and that is not followed by
the end of the run before `begin` is entered (`Undisturbed`): a begin that is due is entered
whatever happens to its action.
-/
set_option autoImplicit false

namespace RobotControl

variable {ε Ω σ : Type}

namespace Machine

/-- The action runs and owns every device that it claims. -/
def InCharge (m : Machine ε Ω σ) (a : ActionId) : Prop :=
  m.table.phase a = .running ∧ ∀ d ∈ m.table.claims a, m.table.owner d = some a

/-- The step makes an action run that did not. -/
def Rises (h : Host ε Ω σ) (m : Machine ε Ω σ) (a : ActionId) : Prop :=
  m.table.isRunning a = false ∧ (m.step h).table.isRunning a = true

/-- `begin` was entered since the action became running for the last time. -/
def Begun (h : Host ε Ω σ) (a : ActionId) : List (Machine ε Ω σ) → Prop
  | [] => False
  | m :: past => m.Enters a .begin ∨ (¬ m.Rises h a ∧ Begun h a past)

/-- At least so many begins of the action are still to come, each hand-over counted once. -/
def Tokens (m : Machine ε Ω σ) (a : ActionId) (n : Nat) : Prop :=
  ∃ tickets : List Nat, tickets.Nodup ∧ (∀ k ∈ tickets, m.Waits a k) ∧
    n ≤ m.due a + m.held a + tickets.length

/-- Nothing is left of an earlier start of the action. -/
def Fresh (m : Machine ε Ω σ) (a : ActionId) : Prop :=
  m.table.isRunning a = false ∧ ¬ m.Tokens a 1

/-- The last start of the action found nothing left of an earlier one, and the action has not
ended its run since. -/
def Undisturbed (h : Host ε Ω σ) (a : ActionId) : List (Machine ε Ω σ) → Prop
  | [] => True
  | m :: past =>
      (m.Starts h a ∧ m.Fresh a) ∨ (¬ m.Starts h a ∧ ¬ m.Leaves h a ∧ Undisturbed h a past)

/-! ### Starts and ends of runs -/

section Running

variable {h : Host ε Ω σ} {m : Machine ε Ω σ}

theorem Starts.unique {a b : ActionId} (startsA : m.Starts h a) (startsB : m.Starts h b) :
    a = b := by
  obtain ⟨_, frontA, _⟩ := startsA
  obtain ⟨_, frontB, _⟩ := startsB
  rw [frontA] at frontB
  exact Task.launch.inj (List.cons.inj frontB).1

theorem Accounted.runs_of_starts (accounted : Accounted h m (m.step h).table (m.step h).agenda)
    {a : ActionId} (starts : m.Starts h a) : (m.step h).table.isRunning a = true := by
  obtain ⟨_, makes, _⟩ := accounted
  cases makes with
  | starts _ _ _ other _ _ runs => simp [runs, starts.unique other]
  | nothing _ quiet _ => exact absurd starts (quiet a)
  | served _ _ quiet _ => exact absurd starts (quiet a)
  | ends _ _ _ quiet _ _ _ => exact absurd starts (quiet a)
  | posts _ _ quiet _ => exact absurd starts (quiet a)
  | handsOver _ _ _ quiet _ => exact absurd starts (quiet a)
  | turns _ quiet _ => exact absurd starts (quiet a)

theorem Accounted.starts_of_rises (accounted : Accounted h m (m.step h).table (m.step h).agenda)
    {a : ActionId} (rises : m.Rises h a) : m.Starts h a := by
  obtain ⟨stands, runs⟩ := rises
  obtain ⟨_, makes, _⟩ := accounted
  cases makes with
  | @starts b _ _ _ starts _ _ runs' =>
      by_cases same : a = b
      · exact same ▸ starts
      · simp [runs', stands, same] at runs
  | ends _ _ _ _ _ _ runs' => simp [runs', stands] at runs
  | nothing _ _ same => simp [same, stands] at runs
  | served _ _ _ same => simp [same, stands] at runs
  | posts _ _ _ same => simp [same, stands] at runs
  | handsOver _ _ _ _ same => simp [same, stands] at runs
  | turns _ _ same => simp [same, stands] at runs

theorem Starts.outside {a b : ActionId} {cb : Callback} (starts : m.Starts h a) :
    ¬ m.Enters b cb := by
  obtain ⟨_, front, _⟩ := starts
  intro inside
  cases inside <;> simp_all

end Running

/-! ### Tokens and steps -/

section Tokens

variable {h : Host ε Ω σ} {m : Machine ε Ω σ} {a : ActionId} {n : Nat}

theorem tokens_zero (m : Machine ε Ω σ) (a : ActionId) : m.Tokens a 0 :=
  ⟨[], List.nodup_nil, by simp, Nat.zero_le _⟩

theorem Tokens.mono {k : Nat} (tokens : m.Tokens a n) (less : k ≤ n) : m.Tokens a k := by
  obtain ⟨tickets, nodup, waits, bound⟩ := tokens
  exact ⟨tickets, nodup, waits, Nat.le_trans less bound⟩

theorem due_pos_of_front {rest : List (Task ε Ω σ)} (front : m.agenda = .serve a .begin :: rest) :
    0 < m.due a :=
  Nat.lt_of_lt_of_le (List.count_pos_iff.mpr (front ▸ List.mem_cons_self ..))
    (Nat.le_add_right _ _)

theorem tokens_of_front {rest : List (Task ε Ω σ)} (front : m.agenda = .serve a .begin :: rest) :
    m.Tokens a 1 := by
  have here := due_pos_of_front front
  exact ⟨[], List.nodup_nil, by simp, by simp; omega⟩

theorem not_tokens (none : ∀ w : Item, w.2 ≠ some .process →
    pending m.table m.agenda w = 0) : ¬ m.Tokens a 1 := by
  rintro ⟨tickets, _, waits, bound⟩
  cases tickets with
  | nil => simp [due, held, none] at bound
  | cons k _ =>
      obtain ⟨o, left⟩ := waits k (List.mem_cons_self ..)
      simp [none] at left

theorem Evolves.tokens_start (evolves : m.Evolves h a) (starts : m.Starts h a) :
    (m.step h).Tokens a (n + 1) ↔ m.Tokens a n := by
  have whole : (∀ k, (m.step h).Waits a k ↔ m.Waits a k) ∧
      (m.step h).due a + (m.step h).held a = m.due a + m.held a + 1 := by
    cases evolves with
    | begins _ due held waits => exact ⟨waits, by omega⟩
    | holds _ due held waits => exact ⟨waits, by omega⟩
    | still quiet => exact absurd starts quiet
    | posts _ quiet => exact absurd starts quiet
    | handsOver _ quiet => exact absurd starts quiet
    | enters quiet => exact absurd starts quiet
  unfold Tokens
  simp only [whole.1, whole.2]
  refine exists_congr fun tickets => and_congr_right fun _ => and_congr_right fun _ => ?_
  omega

theorem Evolves.tokens_enter (evolves : m.Evolves h a) (inside : m.Enters a .begin) :
    (m.step h).Tokens a n ↔ m.Tokens a (n + 1) := by
  have whole : (∀ k, (m.step h).Waits a k ↔ m.Waits a k) ∧
      (m.step h).due a + (m.step h).held a + 1 = m.due a + m.held a := by
    cases evolves with
    | enters _ _ due held waits => exact ⟨waits, by omega⟩
    | still _ outside => exact absurd inside outside
    | begins starts => exact absurd inside starts.outside
    | holds starts => exact absurd inside starts.outside
    | posts front =>
        cases inside with
        | begin other => rw [front] at other; cases other
    | handsOver _ _ outside => exact absurd inside outside
  unfold Tokens
  simp only [whole.1, ← whole.2]
  refine exists_congr fun tickets => and_congr_right fun _ => and_congr_right fun _ => ?_
  omega

theorem Evolves.tokens_of_step (evolves : m.Evolves h a) (quiet : ¬ m.Starts h a)
    (outside : ¬ m.Enters a .begin) (tokens : (m.step h).Tokens a n) : m.Tokens a n := by
  obtain ⟨tickets, nodup, waits, bound⟩ := tokens
  cases evolves with
  | still _ _ due held fewer _ =>
      exact ⟨tickets, nodup, fun k member => fewer k (waits k member), by omega⟩
  | posts _ _ due held _ added =>
      -- the new ticket stands for the begin that was held back
      refine ⟨tickets.erase m.table.nextTicket, nodup.erase _, fun k member => ?_, ?_⟩
      · obtain ⟨new, member⟩ := nodup.mem_erase_iff.mp member
        exact ((added k).mp (waits k member)).resolve_right new
      · have shorter := List.length_erase (a := m.table.nextTicket) (l := tickets)
        split at shorter <;> omega
  | handsOver ticket _ _ _ waited due held kept =>
      refine ⟨ticket :: tickets, List.nodup_cons.mpr ⟨fun member => ?_, nodup⟩, fun k member => ?_,
        by rw [List.length_cons]; omega⟩
      · exact ((kept ticket).mp (waits ticket member)).2 rfl
      · rcases List.mem_cons.mp member with rfl | later
        · exact waited
        · exact ((kept k).mp (waits k later)).1
  | begins starts => exact absurd starts quiet
  | holds starts => exact absurd starts quiet
  | enters _ inside => exact absurd inside outside

theorem Evolves.tokens_step (evolves : m.Evolves h a) (quiet : ¬ m.Starts h a)
    (outside : ¬ m.Enters a .begin) (ticketed : m.Ticketed)
    (runs : m.table.isRunning a = true) (tokens : m.Tokens a n) : (m.step h).Tokens a n := by
  obtain ⟨tickets, nodup, waits, bound⟩ := tokens
  cases evolves with
  | still _ _ due held _ stays =>
      exact ⟨tickets, nodup, fun k member => stays runs k (waits k member), by omega⟩
  | posts _ _ due held _ added =>
      refine ⟨m.table.nextTicket :: tickets, List.nodup_cons.mpr ⟨fun member => ?_, nodup⟩,
        fun k member => ?_, by rw [List.length_cons]; omega⟩
      · exact Nat.lt_irrefl _ (ticketed.old a _ (waits _ member))
      · rcases List.mem_cons.mp member with rfl | later
        · exact (added _).mpr (.inr rfl)
        · exact (added k).mpr (.inl (waits k later))
  | handsOver ticket _ _ _ _ due held kept =>
      refine ⟨tickets.erase ticket, nodup.erase _, fun k member => ?_, ?_⟩
      · obtain ⟨other, member⟩ := nodup.mem_erase_iff.mp member
        exact (kept k).mpr ⟨waits k member, other⟩
      · have shorter := List.length_erase (a := ticket) (l := tickets)
        split at shorter <;> omega
  | begins starts => exact absurd starts quiet
  | holds starts => exact absurd starts quiet
  | enters _ inside => exact absurd inside outside

end Tokens

/-! ### Runs -/

namespace Run

variable {h : Host ε Ω σ} {m : Machine ε Ω σ} {past : List (Machine ε Ω σ)} {a : ActionId}

theorem not_tokens_of_idle (run : Run h m past) (idle : m.agenda = []) : ¬ m.Tokens a 1 :=
  not_tokens fun w _ => run.pending_eq_zero idle w

theorem undisturbed_of_isLight (run : Run h m past) (light : ∀ x ∈ m.agenda, x.isLight = true)
    (stands : m.table.isRunning a = false) (starts : m.Starts h a) :
    Undisturbed h a (m :: past) :=
  .inl ⟨starts, stands, not_tokens fun w _ => run.pending_eq_zero_of_isLight light w⟩

theorem not_tokens_asked (run : Run h m past) (idle : m.agenda = []) (r : Request) :
    ¬ (m.asked r).Tokens a 1 := by
  refine not_tokens fun w _ => ?_
  have same : pending (m.asked r).table (m.asked r).agenda w = pending m.table m.agenda w := by
    rw [idle]
    rfl
  exact same.trans (run.pending_eq_zero idle w)

theorem not_tokens_of_process (run : Run h m past) (tickless : h.Tickless)
    {rest : List (Task ε Ω σ)} (front : m.agenda = .serve a .process :: rest) :
    ¬ m.Tokens a 1 := by
  obtain ⟨nothing, below, rfl, outer⟩ := (run.paced tickless).serve a rest front
  have tasks : items m.agenda = [(a, some .process)] := by
    rw [front]
    exact congrArg (List.cons (a, some .process)) (items_of_isLight outer.isLight)
  have inside : frames m.agenda = [a] := by
    rw [front]
    exact congrArg (List.cons a) outer.frames
  have owed : ∀ o, m.table.owed o = [] := by
    intro o
    by_contra owes
    have busy := run.sound.owed_busy o owes
    rw [run.sound.busy_iff, inside, List.mem_singleton] at busy
    exact owes (busy ▸ nothing)
  apply not_tokens
  intro w other
  have apart : (a, some .process) ≠ w := fun same => other (same ▸ rfl)
  unfold pending ActionTable.owes
  rw [tasks, owed, List.count_singleton, if_neg (by simpa using apart)]
  cases w.2 <;> rfl

theorem tokens_of_not_begun (run : Run h m past) (runs : m.table.isRunning a = true)
    (waiting : ¬ Begun h a past) : m.Tokens a 1 := by
  induction run with
  | fresh w own =>
      simp [ActionTable.isRunning, ActionTable.phase, ActionTable.entry, Assoc.getD,
        Assoc.get?_empty] at runs
  | ask r run idle ih => exact absurd (ih runs waiting) (run.not_tokens_of_idle idle)
  | drift w own run ih => exact ih runs waiting
  | @step m past run ih =>
      have evolves := run.evolves a
      obtain ⟨outside, waiting⟩ := not_or.mp waiting
      by_cases starts : m.Starts h a
      · exact (evolves.tokens_start starts).mpr (tokens_zero m a)
      · have level : ¬ m.Rises h a := fun rises =>
          starts (run.accounted.starts_of_rises rises)
        have ran : m.table.isRunning a = true := by
          by_contra stands
          exact level ⟨by simpa using stands, runs⟩
        exact evolves.tokens_step starts outside run.ticketed ran
          (ih ran fun begun => waiting ⟨level, begun⟩)

/-- An undisturbed action whose begin is to come runs, has not begun, and will begin once. -/
theorem single_token (run : Run h m past) (undisturbed : Undisturbed h a past)
    (tokens : m.Tokens a 1) :
    m.table.isRunning a = true ∧ ¬ Begun h a past ∧ ¬ m.Tokens a 2 := by
  induction run with
  | fresh w own =>
      exact absurd tokens ((Run.fresh (h := h) w own).not_tokens_of_idle rfl)
  | ask r run idle ih => exact absurd tokens (run.not_tokens_asked idle r)
  | drift w own run ih => exact ih undisturbed tokens
  | @step m past run ih =>
      have evolves := run.evolves a
      rcases undisturbed with ⟨starts, stood, fresh⟩ | ⟨quiet, stays, undisturbed⟩
      · have runs := run.accounted.runs_of_starts starts
        refine ⟨runs, ?_, fun two => fresh ((evolves.tokens_start starts).mp two)⟩
        rintro (inside | ⟨level, _⟩)
        · exact starts.outside inside
        · exact level ⟨stood, runs⟩
      · by_cases inside : m.Enters a .begin
        · have two := (evolves.tokens_enter inside).mp tokens
          exact absurd two (ih undisturbed (two.mono (by omega))).2.2
        · have before : ∀ n, (m.step h).Tokens a n → m.Tokens a n := fun n =>
            evolves.tokens_of_step quiet inside
          obtain ⟨runs, waiting, single⟩ := ih undisturbed (before 1 tokens)
          refine ⟨?_, ?_, fun two => single (before 2 two)⟩
          · by_contra stands
            exact stays ⟨runs, by simpa using stands⟩
          · rintro (enters | ⟨_, begun⟩)
            · exact inside enters
            · exact waiting begun

/-- A begin that is due when the run of its action ends is entered while the action does not
run, unless the action is started again before. -/
theorem enters_of_leaves (run : Run h m past) {newer older : List (Machine ε Ω σ)}
    {m₀ : Machine ε Ω σ} (split : past = newer ++ m₀ :: older) (leaves : m₀.Leaves h a)
    (due : 0 < (m₀.step h).due a) (quiet : ∀ x ∈ newer, ¬ x.Starts h a) :
    m.table.isRunning a = false ∧
      (0 < m.due a ∨ ∃ x ∈ newer, x.Enters a .begin ∧ x.table.isRunning a = false) := by
  induction run generalizing newer with
  | fresh w own => cases newer <;> cases split
  | @ask m past r run idle ih =>
      obtain ⟨stands, due | entered⟩ := ih split quiet
      · have none := run.pending_eq_zero idle (a, some .begin)
        unfold Machine.due at due
        omega
      · exact ⟨stands, .inr entered⟩
  | drift w own run ih => exact ih split quiet
  | @step m past run ih =>
      cases newer with
      | nil =>
          cases split
          exact ⟨leaves.2, .inl due⟩
      | cons x newer =>
          obtain ⟨rfl, rfl⟩ := List.cons.inj split
          have asleep := quiet m (List.mem_cons_self ..)
          obtain ⟨stands, known⟩ := ih rfl fun x member => quiet x (List.mem_cons_of_mem _ member)
          have still : (m.step h).table.isRunning a = false := by
            by_contra runs
            exact asleep (run.accounted.starts_of_rises ⟨stands, by simpa using runs⟩)
          refine ⟨still, ?_⟩
          rcases known with due | ⟨x, member, entered⟩
          · cases run.evolves a with
            | still _ _ same => exact .inl (same ▸ due)
            | posts _ _ same => exact .inl (same ▸ due)
            | enters _ inside => exact .inr ⟨m, List.mem_cons_self .., inside, stands⟩
            | handsOver _ _ _ runs => simp [stands] at runs
            | begins starts => exact absurd starts asleep
            | holds starts => exact absurd starts asleep
          · exact .inr ⟨x, List.mem_cons_of_mem _ member, entered⟩

/-- A start that finds something left of an earlier one makes the action begin twice, if it does
not end its run before all is done. -/
theorem enters_twice_of_start (run : Run h m past) {newer older : List (Machine ε Ω σ)}
    {m₀ : Machine ε Ω σ} (split : past = newer ++ m₀ :: older) (starts : m₀.Starts h a)
    (left : ¬ m₀.Fresh a) (stays : ∀ x ∈ newer, ¬ x.Leaves h a) :
    m.table.isRunning a = true ∧
      ((Begun h a past ∧ m.Tokens a 1) ∨ m.Tokens a 2 ∨
        ∃ late x early, newer = late ++ x :: early ∧ x.Enters a .begin ∧
          Begun h a (early ++ m₀ :: older)) := by
  induction run generalizing newer with
  | fresh w own => cases newer <;> cases split
  | @ask m past r run idle ih =>
      obtain ⟨runs, ⟨_, one⟩ | two | twice⟩ := ih split stays
      · exact absurd one (run.not_tokens_of_idle idle)
      · exact absurd (two.mono (by omega)) (run.not_tokens_of_idle idle)
      · exact ⟨runs, .inr (.inr twice)⟩
  | drift w own run ih => exact ih split stays
  | @step m past run ih =>
      have evolves := run.evolves a
      cases newer with
      | nil =>
          cases split
          refine ⟨run.accounted.runs_of_starts starts, ?_⟩
          by_cases old : m₀.Tokens a 1
          · exact .inr (.inl ((evolves.tokens_start starts).mpr old))
          · have ran : m₀.table.isRunning a = true := by
              by_contra stands
              exact left ⟨by simpa using stands, old⟩
            have begun : Begun h a older := by
              by_contra waiting
              exact old (run.tokens_of_not_begun ran waiting)
            have level : ¬ m₀.Rises h a := fun rises => by simp [rises.1] at ran
            exact .inl ⟨.inr ⟨level, begun⟩, (evolves.tokens_start starts).mpr (tokens_zero m₀ a)⟩
      | cons x newer =>
          obtain ⟨rfl, rfl⟩ := List.cons.inj split
          obtain ⟨ran, known⟩ := ih rfl fun x member => stays x (List.mem_cons_of_mem _ member)
          have level : ¬ m.Rises h a := fun rises => by simp [rises.1] at ran
          have runs : (m.step h).table.isRunning a = true := by
            by_contra stands
            exact stays m (List.mem_cons_self ..) ⟨ran, by simpa using stands⟩
          have keeps : ∀ n, ¬ m.Enters a .begin → m.Tokens a n → (m.step h).Tokens a n := by
            intro n outside tokens
            by_cases starts : m.Starts h a
            · exact ((evolves.tokens_start starts).mpr tokens).mono (by omega)
            · exact evolves.tokens_step starts outside run.ticketed ran tokens
          refine ⟨runs, ?_⟩
          by_cases inside : m.Enters a .begin
          · rcases known with ⟨begun, _⟩ | two | ⟨late, x, early, rfl, entered, begun⟩
            · exact .inr (.inr ⟨[], m, newer, rfl, inside, begun⟩)
            · exact .inl ⟨.inl inside, (evolves.tokens_enter inside).mpr two⟩
            · exact .inr (.inr ⟨m :: late, x, early, rfl, entered, begun⟩)
          · rcases known with ⟨begun, one⟩ | two | ⟨late, x, early, rfl, entered, begun⟩
            · exact .inl ⟨.inr ⟨level, begun⟩, keeps 1 inside one⟩
            · exact .inr (.inl (keeps 2 inside two))
            · exact .inr (.inr ⟨m :: late, x, early, rfl, entered, begun⟩)

end Run

theorem undisturbed_trail {h : Host ε Ω σ} {m : Machine ε Ω σ} {past : List (Machine ε Ω σ)}
    {a : ActionId} (n : Nat) (undisturbed : Undisturbed h a past)
    (quiet : ∀ k < n, ¬ (m.steps h k).Starts h a ∧ ¬ (m.steps h k).Leaves h a) :
    Undisturbed h a (m.trail h n past) := by
  induction n generalizing m past with
  | zero => exact undisturbed
  | succ n ih =>
      have now := quiet 0 (Nat.succ_pos n)
      exact ih (.inr ⟨now.1, now.2, undisturbed⟩) fun k less => quiet (k + 1) (by omega)

theorem Run.inCharge {h : Host ε Ω σ} {m : Machine ε Ω σ} {past : List (Machine ε Ω σ)}
    (run : Run h m past) {a : ActionId} (runs : m.table.isRunning a = true) : m.InCharge a := by
  have phase := (ActionTable.isRunning_iff _ _).mp runs
  exact ⟨phase, run.consistent.owns_claims a ((run.consistent.running_iff a).mp phase)⟩

/-- The order of callbacks, in every run of a manager whose callbacks may ask for anything but a
tick.  `process` is entered only of an action that is in charge of its devices and has begun.
`begin` is entered only of an action that is in charge and has not begun since it became running,
if its last start was undisturbed.  Where a disturbance is not undone, this fails before all is
done: a begin that is due when the run of its action ends is entered out of a run, and a start that
finds something left of an earlier one makes the action begin twice in one run. -/
theorem callbacks_in_order {h : Host ε Ω σ} (tickless : h.Tickless) {m : Machine ε Ω σ}
    {past : List (Machine ε Ω σ)} (run : Run h m past) (a : ActionId) :
    (m.Enters a .process → m.InCharge a ∧ Begun h a past) ∧
      (m.Enters a .begin → Undisturbed h a past → m.InCharge a ∧ ¬ Begun h a past) ∧
      (m.agenda = [] → ∀ newer m₀ older, past = newer ++ m₀ :: older →
        (m₀.Leaves h a → 0 < (m₀.step h).due a → (∀ x ∈ newer, ¬ x.Starts h a) →
          ∃ x ∈ newer, x.Enters a .begin ∧ x.table.isRunning a = false) ∧
        (m₀.Starts h a → ¬ m₀.Fresh a → (∀ x ∈ newer, ¬ x.Leaves h a) →
          ∃ late x early, newer = late ++ x :: early ∧ x.Enters a .begin ∧
            Begun h a (early ++ m₀ :: older))) := by
  refine ⟨?_, ?_, fun idle newer m₀ older split => ⟨?_, ?_⟩⟩
  · intro inside
    cases inside with
    | process front runs =>
        refine ⟨run.inCharge runs, ?_⟩
        by_contra waiting
        exact run.not_tokens_of_process tickless front (run.tokens_of_not_begun runs waiting)
  · rintro ⟨front⟩ undisturbed
    obtain ⟨runs, waiting, _⟩ := run.single_token undisturbed (tokens_of_front front)
    exact ⟨run.inCharge runs, waiting⟩
  · intro leaves due quiet
    obtain ⟨_, due | entered⟩ := run.enters_of_leaves split leaves due quiet
    · have none := run.pending_eq_zero idle (a, some .begin)
      unfold Machine.due at due
      omega
    · exact entered
  · intro starts left stays
    obtain ⟨_, ⟨_, one⟩ | two | twice⟩ := run.enters_twice_of_start split starts left stays
    · exact absurd one (run.not_tokens_of_idle idle)
    · exact absurd (two.mono (by omega)) (run.not_tokens_of_idle idle)
    · exact twice

end Machine

/-- Two actions on one device.  The first one, when it finishes, stops the second one. -/
def Host.jealous : Host Empty Unit Unit := .plain (fun _ => [⟨1⟩]) fun a cb =>
  match a, cb with
  | ⟨1⟩, .finish _ => .ask (.stop ⟨2⟩) fun _ => .skip
  | _, _ => .skip

theorem Host.jealous_tickless : Host.jealous.Tickless where
  routine a cb := by
    show Routine.Uses _ _ (match a, cb with
      | ⟨1⟩, .finish _ => .ask (.stop ⟨2⟩) fun _ => .skip
      | _, _ => .skip : Routine Empty Unit Unit)
    split
    · exact ⟨by simp, fun _ => trivial⟩
    · trivial
  answer e := nomatch e
  log _ _ _ := trivial
  forget _ _ _ _ := trivial

/-- The second action interrupts the first one and is stopped by it, in the first one's finish. -/
def rebuff : Machine Empty Unit Unit :=
  Host.jealous.play [(.start ⟨2⟩ false, 5), (.start ⟨1⟩ false, 12)]

/-- After the rebuff the first action is started again. -/
def comeback : Machine Empty Unit Unit := (rebuff.steps Host.jealous 16).asked (.start ⟨1⟩ false)

theorem callbacks_in_order_rebuff :
    (∃ x ∈ (rebuff.step Host.jealous).trail Host.jealous 15 [],
      x.Enters ⟨2⟩ .begin ∧ x.table.isRunning ⟨2⟩ = false) ∧
      (∃ past, Machine.Run Host.jealous (comeback.steps Host.jealous 5) past ∧
        (comeback.steps Host.jealous 5).Enters ⟨1⟩ .begin ∧
        (comeback.steps Host.jealous 5).InCharge ⟨1⟩ ∧ ¬ Machine.Begun Host.jealous ⟨1⟩ past) ∧
      ∃ past, Machine.Run Host.jealous
          (((comeback.steps Host.jealous 11).asked .tick).steps Host.jealous 3) past ∧
        (((comeback.steps Host.jealous 11).asked .tick).steps Host.jealous 3).InCharge ⟨1⟩ ∧
          Machine.Begun Host.jealous ⟨1⟩ past := by
  have first := ((Machine.Run.fresh (h := Host.jealous) () ()).ask (.start ⟨1⟩ false) rfl).steps 12
  have run : Machine.Run Host.jealous rebuff _ := (first.ask (.start ⟨2⟩ false) rfl).steps 5
  have settled := run.step.steps 15
  have asked : Machine.Run Host.jealous comeback _ := settled.ask (.start ⟨1⟩ false) rfl
  refine ⟨?_, ⟨_, asked.steps 5, .begin rfl, ?_⟩, ?_⟩
  · have ended := (Machine.callbacks_in_order Host.jealous_tickless settled ⟨2⟩).2.2 rfl _ _ _
      (Machine.trail_append 15 _ [] _)
    exact ended.1 (by decide) (by decide) (by decide)
  · have undisturbed := Machine.undisturbed_trail (m := comeback.steps Host.jealous 3) (a := ⟨1⟩) 2
      ((asked.steps 2).undisturbed_of_isLight (by decide) (by decide) (by decide)) (by decide)
    exact (Machine.callbacks_in_order Host.jealous_tickless (asked.steps 5) ⟨1⟩).2.1 (.begin rfl)
      undisturbed
  · have tick := ((asked.steps 11).ask .tick rfl).steps 3
    have processes := Machine.callbacks_in_order Host.jealous_tickless tick ⟨1⟩
    exact ⟨_, tick, processes.1 (.process rfl rfl)⟩

/-- The second action is stopped while the first one, which it interrupts, finishes.  Its begin
comes nevertheless, out of its run and after its own finish. -/
theorem begin_out_of_run :
    ∃ past, Machine.Run Host.jealous
        (Host.jealous.play [(.start ⟨2⟩ false, 15), (.start ⟨1⟩ false, 12)]) past ∧
      (Host.jealous.play [(.start ⟨2⟩ false, 15), (.start ⟨1⟩ false, 12)]).Enters ⟨2⟩ .begin ∧
      (Host.jealous.play [(.start ⟨2⟩ false, 15), (.start ⟨1⟩ false, 12)]).table.phase ⟨2⟩ =
        .finished := by
  have first := ((Machine.Run.fresh (h := Host.jealous) () ()).ask (.start ⟨1⟩ false) rfl).steps 12
  exact ⟨_, (first.ask (.start ⟨2⟩ false) rfl).steps 15, .begin rfl, by decide⟩

end RobotControl
