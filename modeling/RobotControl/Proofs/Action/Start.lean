import RobotControl.Proofs.Action.Calls
import RobotControl.Proofs.Action.Work

/-!
# A start from beginning to end

What a start comes to when no callback is under way and the callbacks are tame.  The table changes
at once, by `ActionTable.started`; then the interrupted actions finish in the order in which their
devices are needed, and the new one begins (`Machine.comes_launch`).
-/
set_option autoImplicit false

namespace RobotControl

variable {ε Ω σ β : Type}

namespace ActionTable

variable {t : ActionTable}

def started (t : ActionTable) (a : ActionId) (ds : List DeviceId) : ActionTable :=
  (t.setClaims a ds.eraseDups).seize a ds.eraseDups

theorem sameCalls_started (t : ActionTable) (a : ActionId) (ds : List DeviceId) :
    Machine.SameCalls t (t.started a ds) := fun b => by
  obtain ⟨busy, owed⟩ := Machine.sameCalls_setClaims t a ds.eraseDups b
  obtain ⟨busy', owed'⟩ := Machine.sameCalls_seize (t.setClaims a ds.eraseDups) a ds.eraseDups b
  exact ⟨busy'.trans busy, owed'.trans owed⟩

theorem Agrees.started {t' : ActionTable} (agrees : t.Agrees t') (a : ActionId)
    (ds : List DeviceId) : (t.started a ds).Agrees (t'.started a ds) :=
  (agrees.setClaims a ds.eraseDups).seize a ds.eraseDups

theorem isRunning_started_self (t : ActionTable) (a : ActionId) (ds : List DeviceId) :
    (t.started a ds).isRunning a = true := by
  rw [isRunning_iff, started, phase_seize, if_pos rfl]

theorem running_retireEach (as : List ActionId) (t : ActionTable) :
    (as.foldl retire t).running = t.running.filter fun b => b ∉ as := by
  induction as generalizing t with
  | nil => simp
  | cons a rest ih =>
      rw [List.foldl_cons, ih, running_retire, List.filter_filter]
      refine List.filter_congr fun b _ => ?_
      simp [Bool.and_comm]

theorem entry_retireEach {as : List ActionId} {b : ActionId} (spared : b ∉ as)
    (t : ActionTable) : (as.foldl retire t).entry b = t.entry b := by
  induction as generalizing t with
  | nil => rfl
  | cons a rest ih =>
      obtain ⟨other, later⟩ := List.ne_and_not_mem_of_not_mem_cons spared
      rw [List.foldl_cons, ih later, entry_retire, if_neg other.symm]

section Started

variable (t) (a b : ActionId) (ds : List DeviceId)

theorem running_started : (t.started a ds).running =
    (t.running.filter fun b => b ∉ t.holders a ds.eraseDups) ++ [a] :=
  congrArg (· ++ [a]) (running_retireEach _ (t.setClaims a ds.eraseDups))

theorem phase_started : (t.started a ds).phase b =
    if b = a then .running else if b ∈ t.holders a ds.eraseDups then .finished else t.phase b := by
  rw [started, phase_seize, phase_setClaims]
  rfl

theorem owner_started (d : DeviceId) (o : ActionId) : (t.started a ds).owner d = some o ↔
    (d ∈ ds ∧ o = a) ∨
      (d ∉ ds ∧ t.owner d = some o ∧ o ∉ t.holders a ds.eraseDups) := by
  rw [started, owner_seize, List.mem_eraseDups]
  rfl

variable {t a b} in
theorem entry_started (other : b ≠ a) (spared : b ∉ t.holders a ds.eraseDups) :
    (t.started a ds).entry b = t.entry b := by
  have lookup : (t.started a ds).entry b = ((((t.holders a ds.eraseDups).foldl retire
      (t.setClaims a ds.eraseDups)).update a fun e => { e with phase := .running }).entry b) := rfl
  rw [lookup, entry_update, if_neg other.symm, entry_retireEach spared, setClaims, entry_update,
    if_neg other.symm]

end Started

theorem eraseDups_filterMap {α γ : Type} [DecidableEq α] [DecidableEq γ] (f : α → Option γ) :
    (l : List α) → (l.eraseDups.filterMap f).eraseDups = (l.filterMap f).eraseDups
  | [] => rfl
  | a :: rest => by
      -- what maps to nothing may go
      have without : ∀ g : α → Option γ, g a = none →
          (((rest.filter fun b => !b == a).eraseDups).filterMap g).eraseDups =
            (rest.filterMap g).eraseDups := by
        intro g nothing
        rw [eraseDups_filterMap g (rest.filter fun b => !b == a), List.filterMap_filter]
        refine congrArg List.eraseDups (List.filterMap_congr fun b _ => ?_)
        by_cases same : b = a
        · simp [same, nothing]
        · simp [same]
      rw [List.eraseDups_cons]
      cases image : f a with
      | none =>
          rw [List.filterMap_cons_none image, List.filterMap_cons_none image]
          exact without f image
      | some c =>
          rw [List.filterMap_cons_some image, List.filterMap_cons_some image, List.eraseDups_cons,
            List.eraseDups_cons, List.filter_filterMap, List.filter_filterMap]
          refine congrArg (c :: ·) (without _ ?_)
          simp [image]
  termination_by l => l.length
  decreasing_by exact Nat.lt_succ_of_le (List.length_filter_le _ _)

theorem holders_eraseDups (consistent : t.Consistent) (a : ActionId) (ds : List DeviceId) :
    t.holders a ds.eraseDups = ((ds.filterMap t.owner).filter fun o => o ≠ a).eraseDups := by
  unfold holders
  rw [List.filter_filterMap, eraseDups_filterMap, List.filter_filterMap]
  refine congrArg List.eraseDups (List.filterMap_congr fun d _ => ?_)
  cases owns : t.owner d with
  | none => rfl
  | some o =>
      have runs := consistent.owner_runs d o owns
      simp [Option.filter, runs]

/-- What is left of a table when an action that may run is taken out of it. -/
structure Without (t : ActionTable) (a : ActionId) (t' : ActionTable) : Prop where
  entry : ∀ b, b ≠ a → t'.entry b = t.entry b
  running : t'.running = t.running.filter fun b => b ≠ a
  owner : ∀ d, t'.owner d = (t.owner d).filter fun o => o ≠ a

theorem without_retire (t : ActionTable) (a : ActionId) : t.Without a (t.retire a) where
  entry b other := (entry_retire t a b).trans (if_neg other.symm)
  running := rfl
  owner d := t.owner_retire a d

theorem Consistent.without (consistent : t.Consistent) {a : ActionId}
    (stands : t.isRunning a = false) : t.Without a t where
  entry _ _ := rfl
  running := by
    refine (List.filter_eq_self.mpr fun b listed => ?_).symm
    have runs := (consistent.running_iff b).mpr listed
    have other : b ≠ a := by
      rintro rfl
      simp [isRunning, runs] at stands
    simpa using other
  owner d := by
    cases owns : t.owner d with
    | none => rfl
    | some o =>
        have runs := (consistent.running_iff o).mpr (consistent.owner_runs d o owns)
        have other : o ≠ a := by
          rintro rfl
          simp [isRunning, runs] at stands
        simp [Option.filter, other]

/-- The outcome of a start that interrupts the holders of its devices. -/
structure Begun (t : ActionTable) (a : ActionId) (ds : List DeviceId) (holders : List ActionId)
    (failed : Bool) (t' : ActionTable) : Prop where
  /-- The action is the last that runs, if it did not fail to begin. -/
  running : t'.running =
    (t.running.filter fun b => b ≠ a ∧ b ∉ holders) ++ if failed then [] else [a]
  phase : t'.phase a = if failed then .finished else .running
  /-- It owns what it needs and nothing else. -/
  owner : ∀ d, t'.owner d = some a ↔ failed = false ∧ d ∈ ds
  /-- Who was interrupted is finished and owns nothing at all. -/
  interrupted : ∀ o ∈ holders, t'.phase o = .finished ∧ ∀ d, t'.owner d ≠ some o
  others : ∀ b, b ≠ a → b ∉ holders → t'.entry b = t.entry b ∧
    ∀ d, t'.owner d = some b ↔ t.owner d = some b

theorem Begun.agrees {a : ActionId} {ds : List DeviceId} {holders : List ActionId}
    {failed : Bool} {t' t'' : ActionTable} (begun : t.Begun a ds holders failed t')
    (agrees : t'.Agrees t'') : t.Begun a ds holders failed t'' where
  running := agrees.running.trans begun.running
  phase := (agrees.phase a).trans begun.phase
  owner d := by rw [agrees.owner]; exact begun.owner d
  interrupted o held := by
    refine ⟨(agrees.phase o).trans (begun.interrupted o held).1, fun d => ?_⟩
    rw [agrees.owner]
    exact (begun.interrupted o held).2 d
  others b other spared := by
    obtain ⟨entry, owner⟩ := begun.others b other spared
    refine ⟨(agrees.entry b).trans entry, fun d => ?_⟩
    rw [agrees.owner]
    exact owner d

theorem Without.holders {t₁ : ActionTable} {a : ActionId} (without : t.Without a t₁)
    (ds : List DeviceId) : t₁.holders a ds = t.holders a ds := by
  unfold ActionTable.holders
  rw [List.filter_filterMap, List.filter_filterMap]
  refine congrArg List.eraseDups (List.filterMap_congr fun d _ => ?_)
  rw [without.owner, without.running]
  cases t.owner d with
  | none => rfl
  | some o =>
      by_cases self : o = a
      · simp [Option.filter, self]
      · simp [Option.filter, self]

theorem Without.begun {t₁ : ActionTable} {a : ActionId} (consistent : t.Consistent)
    (without : t.Without a t₁) (ds : List DeviceId) :
    t.Begun a ds (t.holders a ds.eraseDups) false (t₁.started a ds) := by
  have same := without.holders ds.eraseDups
  have left : t₁.running.filter (fun b => b ∉ t.holders a ds.eraseDups) =
      t.running.filter fun b => b ≠ a ∧ b ∉ t.holders a ds.eraseDups := by
    rw [without.running, List.filter_filter]
    refine List.filter_congr fun b _ => ?_
    simp [Bool.and_comm]
  have running := t₁.running_started a ds
  rw [same, left] at running
  have self : ∀ d, t₁.owner d ≠ some a := by
    intro d owns
    rw [without.owner, Option.filter_eq_some_iff] at owns
    simpa using owns.2
  refine ⟨running, by simp [phase_started], fun d => ?_, fun o held => ⟨?_, fun d owns => ?_⟩,
    fun b other spared => ⟨?_, fun d => ?_⟩⟩
  · rw [owner_started]
    simp [self]
  · rw [phase_started, same, if_neg ((mem_holders ..).mp held).1, if_pos held]
  · rw [owner_started, same] at owns
    rcases owns with ⟨_, self⟩ | ⟨_, _, spared⟩
    · exact ((mem_holders ..).mp held).1 self
    · exact spared held
  · rw [entry_started ds other (same ▸ spared), without.entry b other]
  · rw [owner_started, same, without.owner, Option.filter_eq_some_iff]
    refine ⟨fun owns => ?_, fun owns => .inr ⟨fun wanted => spared ?_, ⟨owns, ?_⟩, spared⟩⟩
    · rcases owns with ⟨_, self⟩ | ⟨_, ⟨owned, _⟩, _⟩
      · exact absurd self other
      · exact owned
    · exact (mem_holders ..).mpr ⟨other, consistent.owner_runs d b owns, d,
        List.mem_eraseDups.mpr wanted, owns⟩
    · simpa using other

theorem Begun.fails {a : ActionId} {ds : List DeviceId} {holders : List ActionId}
    {t' : ActionTable} (begun : t.Begun a ds holders false t') (apart : a ∉ holders) :
    t.Begun a ds holders true (t'.retire a) where
  running := by
    have others : ∀ b ∈ t.running, (decide (b ≠ a) && decide (b ≠ a ∧ b ∉ holders)) =
        decide (b ≠ a ∧ b ∉ holders) := by
      intro b _
      by_cases self : b = a <;> simp [self]
    rw [running_retire, begun.running, List.filter_append, List.filter_filter,
      List.filter_congr others]
    simp
  phase := (phase_retire ..).trans (if_pos rfl)
  owner d := by simp [owner_retire, Option.filter_eq_some_iff]
  interrupted o held := by
    obtain ⟨finished, free⟩ := begun.interrupted o held
    have other : o ≠ a := fun same => apart (same ▸ held)
    refine ⟨(phase_retire ..).trans ((if_neg other.symm).trans finished), fun d owns => ?_⟩
    rw [owner_retire, Option.filter_eq_some_iff] at owns
    exact free d owns.1
  others b other spared := by
    obtain ⟨entry, owner⟩ := begun.others b other spared
    refine ⟨(entry_retire ..).trans ((if_neg other.symm).trans entry), fun d => ?_⟩
    rw [owner_retire, Option.filter_eq_some_iff, ← owner d]
    simp [other]

end ActionTable

theorem Sound.free {t : ActionTable} {agenda : List (Task ε Ω σ)} (sound : Sound t agenda)
    (outside : frames agenda = []) (b : ActionId) : t.Free b := by
  have free : t.isBusy b = false := by
    rw [← Bool.not_eq_true, sound.busy_iff, outside]
    exact List.not_mem_nil
  exact ⟨free, sound.owed_eq_nil free⟩

namespace Machine

variable {h : Host ε Ω σ} {view : σ → β} {m : Machine ε Ω σ} {rest : List (Task ε Ω σ)}
  {a : ActionId}

theorem comes_letGo {as : List ActionId} (front : m.agenda = .letGo as :: rest) :
    Comes h view m [] m.table rest := by
  have step : m.step h = { m with table := m.table.letGo as, agenda := rest } := by
    simp only [Machine.step, front]
  have silent : m.notes h = [] := by simp only [notes, front]
  have reached : Comes h view { m with table := m.table.letGo as, agenda := rest } []
    (m.table.letGo as) rest := .refl rfl
  exact (reached.silently silent step rfl rfl).agrees (.of_alike (.letGo ..))

/-- An action is launched: those that hold its devices finish, and it is to begin. -/
theorem comes_launch {ds : List DeviceId} (front : m.agenda = .launch a :: rest)
    (needs : (h.needs m.own a).2 = .ok ds) (keeps : view (h.needs m.own a).1 = view m.own)
    (free : m.table.Free a)
    (holders : ∀ o ∈ m.table.holders a ds.eraseDups, m.table.Free o ∧ h.Tames view o) :
    ∃ failed : ActionId → Bool, Comes h view m
      (.needs a ds :: (m.table.holders a ds.eraseDups).flatMap
        fun o => visit o (.finish true) (failed o))
      (m.table.started a ds)
      (.invoke a .begin :: .letGo (m.table.holders a ds.eraseDups) :: rest) := by
  have claimed := fun o => (sameCalls_setClaims m.table a ds.eraseDups o).1
  have free' : ∀ o ∈ m.table.holders a ds.eraseDups, (m.table.started a ds).Free o := fun o holds =>
    (holders o holds).1.congr (m.table.sameCalls_started a ds o)
  -- nobody waits for the end of a callback
  have nobody : (m.table.holders a ds.eraseDups).filter
      (m.table.setClaims a ds.eraseDups).isBusy = [] := by
    refine List.filter_eq_nil_iff.mpr fun o holds busy => ?_
    rw [claimed, (holders o holds).1.1] at busy
    cases busy
  have step : m.step h = { m with
      own := (h.needs m.own a).1
      table := (m.table.started a ds).hold (m.table.holders a ds.eraseDups)
      agenda := (m.table.holders a ds.eraseDups).map (fun o => .invoke o (.finish true)) ++
        (.succeed a [] :: .letGo (m.table.holders a ds.eraseDups) :: rest) } := by
    simp only [Machine.step, front, launch, free.1, needs, Bool.false_eq_true, if_false]
    have same : (m.table.setClaims a ds.eraseDups).holders a ds.eraseDups =
      m.table.holders a ds.eraseDups := rfl
    simp only [seize, afterSeizing, same, nobody, workingOn, holding, todo, List.append_assoc,
      List.singleton_append]
    rfl
  have shown : m.notes h = [.needs a ds] := by
    simp only [notes, front, demands, free.1, needs, Bool.false_eq_true, if_false]
  obtain ⟨failed, comes⟩ := comes_finishes (m.table.holders a ds.eraseDups) (nodup_eraseDups _)
    (fun o holds => (holders o holds).2) { m with
      own := (h.needs m.own a).1
      table := (m.table.started a ds).hold (m.table.holders a ds.eraseDups)
      agenda := (m.table.holders a ds.eraseDups).map (fun o => .invoke o (.finish true)) ++
        (.succeed a [] :: .letGo (m.table.holders a ds.eraseDups) :: rest) } rfl
    (fun o holds => (free' o holds).agrees (.of_alike (.hold ..)))
  refine ⟨failed, ?_⟩
  have finished := comes.after step keeps rfl
  rw [shown] at finished
  rw [← List.append_nil (Note.needs a ds :: _)]
  refine finished.trans fun m' agenda agrees _ => ?_
  have step' : m'.step h =
      m'.todo (.invoke a .begin :: .letGo (m.table.holders a ds.eraseDups) :: rest) := by
    simp only [Machine.step, agenda, List.isEmpty_nil, if_true]
  have silent : m'.notes h = [] := by simp only [notes, agenda]
  have succeeds : Comes h view (m'.todo (.invoke a .begin ::
    .letGo (m.table.holders a ds.eraseDups) :: rest)) [] m'.table _ := .refl rfl
  exact (succeeds.silently silent step' rfl rfl).agrees (.trans (.of_alike (.hold ..)) agrees)

theorem comes_launch_begin {ds : List DeviceId} (front : m.agenda = .launch a :: rest)
    (needs : (h.needs m.own a).2 = .ok ds) (keeps : view (h.needs m.own a).1 = view m.own)
    (free : m.table.Free a) (tame : h.Tames view a)
    (holders : ∀ o ∈ m.table.holders a ds.eraseDups, m.table.Free o ∧ h.Tames view o) :
    ∃ (finished : ActionId → Bool) (failed last : Bool), Comes h view m
      ((.needs a ds :: (m.table.holders a ds.eraseDups).flatMap
        fun o => visit o (.finish true) (finished o)) ++ beginning a failed last)
      (retiredIf (m.table.started a ds) a failed) rest := by
  obtain ⟨finished, m₁, goes, agenda, agrees, own, unhandled⟩ :=
    comes_launch front needs keeps free holders
  have free' : m₁.table.Free a :=
    (free.congr (m.table.sameCalls_started a ds a)).agrees agrees
  have runs : m₁.table.isRunning a = true :=
    (agrees.isRunning a).trans (m.table.isRunning_started_self a ds)
  obtain ⟨failed, last, comes⟩ := comes_begin tame agenda free' runs
  have begun := comes.agrees (agrees_retiredIf agrees failed)
  refine ⟨finished, failed, last, ?_⟩
  rw [← List.append_nil (_ ++ beginning a failed last)]
  exact (begun.goes goes own unhandled).trans fun m' agenda agrees _ =>
    (comes_letGo agenda).agrees agrees

/-! ### Starts from outside -/

/-- A start that is granted comes to the launch of the action, which finishes first if it runs. -/
theorem comes_start {restart : Bool} (front : m.agenda = .start a restart :: rest)
    (granted : m.table.isRunning a = true → restart = true) (tame : h.Tames view a)
    (free : m.table.Free a) :
    ∃ failed, Comes h view m
      (if m.table.isRunning a then visit a (.finish true) failed else [])
      (retiredIf m.table a (m.table.isRunning a)) (.launch a :: rest) := by
  have silent : m.notes h = [] := by simp only [notes, front]
  cases runs : m.table.isRunning a with
  | false =>
      have step : m.step h = m.todo (.launch a :: rest) := by
        simp only [Machine.step, front, runs, Bool.false_eq_true, if_false]
      exact ⟨false, (Comes.refl (m := m.todo (.launch a :: rest)) rfl).silently silent step rfl rfl⟩
  | true =>
      have step : m.step h = m.interrupting a (.launch a :: rest) := by
        simp only [Machine.step, front, runs, granted runs, if_true]
      have free' : (m.table.retire a).Free a := free.congr (sameCalls_retireEach m.table [a] a)
      obtain ⟨failed, comes⟩ := comes_finish (m := m.interrupting a (.launch a :: rest)) tame rfl
        free'
      exact ⟨failed, comes.silently silent step rfl rfl⟩

theorem comes_granted {restart : Bool} {next : Bool → Routine ε Ω σ}
    (front : m.agenda = .run (.ask (.start a restart) next) :: rest)
    (granted : m.table.isRunning a = true → restart = true) (tame : h.Tames view a)
    (free : m.table.Free a) :
    ∃ failed, Comes h view m (.asks (frames rest).head? (.start a restart) true ::
        if m.table.isRunning a then visit a (.finish true) failed else [])
      (retiredIf m.table a (m.table.isRunning a))
      (.launch a :: .letGo [a] :: .run (next true) :: rest) := by
  have shown : m.notes h = [.asks (frames rest).head? (.start a restart) true] := by
    cases restart <;> simp_all [notes, ActionTable.answer]
  have step : m.step h = m.workingOn [a] [.start a restart] (.run (next true) :: rest) := by
    simp only [Machine.step, front, runRoutine, grant]
    rw [if_neg]
    cases restart <;> simp_all
  obtain ⟨failed, comes⟩ :=
    comes_start (m := m.workingOn [a] [.start a restart] (.run (next true) :: rest)) rfl granted
      tame free
  refine ⟨failed, ?_⟩
  have after := comes.after step rfl rfl
  rw [shown] at after
  exact after.agrees (agrees_retiredIf (.of_alike (.hold ..)) _)

theorem holders_retiredIf (t : ActionTable) (a : ActionId) (ended : Bool) (ds : List DeviceId) :
    (retiredIf t a ended).holders a ds = t.holders a ds := by
  cases ended with
  | false => rfl
  | true => exact (t.without_retire a).holders ds

theorem sameCalls_retiredIf (t : ActionTable) (a : ActionId) (ended : Bool) :
    SameCalls t (retiredIf t a ended) := by
  cases ended with
  | false => exact fun _ => ⟨rfl, rfl⟩
  | true => exact sameCalls_retireEach t [a]

def starting (a : ActionId) (ds : List DeviceId) (holders : List ActionId) (runs : Bool)
    (restarted : Bool) (finished : ActionId → Bool) (failed last : Bool) : List Note :=
  (if runs then visit a (.finish true) restarted else []) ++
    .needs a ds :: (holders.flatMap fun o => visit o (.finish true) (finished o)) ++
      beginning a failed last

theorem comes_ask_start {restart : Bool} {next : Bool → Routine ε Ω σ}
    (front : m.agenda = .run (.ask (.start a restart) next) :: rest)
    (granted : m.table.isRunning a = true → restart = true) (tame : h.Tames view a)
    (free : m.table.Free a)
    (holders : ∀ ds, ∀ o ∈ m.table.holders a ds, m.table.Free o ∧ h.Tames view o)
    (needs : ∀ own, view own = view m.own →
      ∃ ds, (h.needs own a).2 = .ok ds ∧ view (h.needs own a).1 = view own) :
    ∃ ds restarted finished failed last, Comes h view m
      (.asks (frames rest).head? (.start a restart) true ::
        starting a ds (m.table.holders a ds.eraseDups) (m.table.isRunning a) restarted finished
          failed last)
      (retiredIf ((retiredIf m.table a (m.table.isRunning a)).started a ds) a failed)
      (.run (next true) :: rest) := by
  obtain ⟨restarted, m₁, goes, agenda, agrees, own, unhandled⟩ :=
    comes_granted front granted tame free
  have free₁ : ∀ o, m.table.Free o → m₁.table.Free o := fun o free =>
    (free.congr (sameCalls_retiredIf m.table a _ o)).agrees agrees
  obtain ⟨ds, needed, keeps⟩ := needs m₁.own own
  have same : m₁.table.holders a ds.eraseDups = m.table.holders a ds.eraseDups :=
    (agrees.holders a _).trans (holders_retiredIf ..)
  obtain ⟨finished, failed, last, begun⟩ :=
    comes_launch_begin agenda needed keeps (free₁ a free) tame fun o held => by
      obtain ⟨free, tame⟩ := holders _ o (same ▸ held)
      exact ⟨free₁ o free, tame⟩
  rw [same] at begun
  have whole := (begun.goes goes own unhandled).trans fun m' agenda agrees _ =>
    (comes_letGo agenda).agrees agrees
  refine ⟨ds, restarted, finished, failed, last, ?_⟩
  have log : ∀ x y z : List Note, (.asks (frames rest).head? (.start a restart) true :: x) ++
      (y ++ z) ++ [] = .asks (frames rest).head? (.start a restart) true :: (x ++ y ++ z) := by
    intro x y z
    simp
  rw [log] at whole
  exact whole.agrees (agrees_retiredIf (agrees.started a ds) failed)

/-! ### Starts from outside -/

/-- The whole of a start that is asked for outside all callbacks, when callbacks are tame.  Refused,
it changes nothing.  Otherwise the action finishes if it ran, those that own one of its devices
finish in the order of the devices, each once, and it begins and finishes again if that failed. -/
theorem start_from_outside {h₀ : Host ε Ω σ} {past : List (Machine ε Ω σ)}
    (run : Run h₀ m past) {restart : Bool} {next : Bool → Routine ε Ω σ}
    (front : m.agenda = .run (.ask (.start a restart) next) :: rest) (outside : frames rest = [])
    (tame : ∀ b, h.Tames (fun _ => ()) b) (needs : ∀ own, ∃ ds, (h.needs own a).2 = .ok ds) :
    (m.table.isRunning a = true → restart = false →
      m.notes h = [.asks none (.start a restart) false] ∧
        m.step h = m.todo (.run (next false) :: rest)) ∧
    ((m.table.isRunning a = true → restart = true) →
      ∃ (ds : List DeviceId) (holders : List ActionId) (m' : Machine ε Ω σ)
          (finished : ActionId → Bool) (restarted failed last : Bool),
        holders = ((ds.filterMap m.table.owner).filter fun o => o ≠ a).eraseDups ∧
        Goes h m (.asks none (.start a restart) true ::
          ((if m.table.isRunning a then visit a (.finish true) restarted else []) ++
            .needs a ds :: (holders.flatMap fun o => visit o (.finish true) (finished o)) ++
              (visit a .begin failed ++ if failed then visit a (.finish true) last else []))) m' ∧
        m'.agenda = .run (next true) :: rest ∧ m'.unhandled = m.unhandled ∧
        m.table.Begun a ds holders failed m'.table) := by
  constructor
  · intro runs stays
    subst stays
    constructor
    · simp [notes, front, outside, ActionTable.answer, runs]
    · simp [Machine.step, front, runRoutine, grant, runs]
  · intro granted
    have free := run.sound.free (front ▸ outside)
    obtain ⟨ds, restarted, finished, failed, last, m', goes, agenda, agrees, -, unhandled⟩ :=
      comes_ask_start front granted (tame a) (free a) (fun _ o _ => ⟨free o, tame o⟩)
        fun own _ => (needs own).imp fun _ needed => ⟨needed, rfl⟩
    have without : m.table.Without a (retiredIf m.table a (m.table.isRunning a)) := by
      cases runs : m.table.isRunning a with
      | false => exact run.consistent.without runs
      | true => exact m.table.without_retire a
    have apart : a ∉ m.table.holders a ds.eraseDups := fun held =>
      ((ActionTable.mem_holders ..).mp held).1 rfl
    have begins := without.begun run.consistent ds
    have begun : m.table.Begun a ds (m.table.holders a ds.eraseDups) failed m'.table := by
      cases failed with
      | false => exact begins.agrees agrees
      | true => exact (begins.fails apart).agrees agrees
    rw [outside] at goes
    rw [ActionTable.holders_eraseDups run.consistent] at goes begun
    exact ⟨ds, _, m', finished, restarted, failed, last, rfl, goes, agenda, unhandled, begun⟩

end Machine

/-- An action that needs the devices of two others and fails to begin; the others panic when they
finish. -/
def Host.crowd : Host Empty Unit Unit :=
  .plain (fun a => if a = ⟨3⟩ then [⟨3⟩, ⟨1⟩, ⟨3⟩, ⟨4⟩] else if a = ⟨2⟩ then [⟨3⟩] else [⟨1⟩, ⟨2⟩])
    fun a cb =>
      match cb with
      | .begin => if a = ⟨3⟩ then .fail (.hardware "arm" "jammed") else .skip
      | .finish _ => .panic .unreadable
      | _ => .skip

theorem start_from_outside_crowd :
    let m := (Host.crowd.play [(.start ⟨2⟩ false, 12), (.start ⟨1⟩ false, 12)]).asked
      (.start ⟨3⟩ false)
    m.table.running = [⟨1⟩, ⟨2⟩] ∧ ∃ (ds : List DeviceId) (m' : Machine Empty Unit Unit)
      (failed : Bool), m'.agenda = [.run .skip] ∧
        m.table.Begun ⟨3⟩ ds (((ds.filterMap m.table.owner).filter fun o => o ≠ ⟨3⟩).eraseDups)
          failed m'.table := by
  intro m
  have run : Machine.Run Host.crowd m _ :=
    ((((Machine.Run.fresh () ()).ask (.start ⟨1⟩ false) rfl).steps 12).ask (.start ⟨2⟩ false)
      rfl).steps 12 |>.ask (.start ⟨3⟩ false) (by decide)
  have tame : ∀ b, Host.crowd.Tames (fun _ => ()) b := by
    intro b cb
    cases cb with
    | begin =>
        show Routine.Tame _ _ (if b = ⟨3⟩ then _ else _)
        split <;> exact .done _
    | process => exact .done _
    | proceed => exact .done _
    | finish _ => exact .panic _
  obtain ⟨ds, holders, m', -, -, failed, -, rfl, -, agenda, -, begun⟩ :=
    (Machine.start_from_outside run rfl rfl tame fun own => ⟨_, rfl⟩).2 (by decide)
  exact ⟨by decide, ds, m', failed, agenda, begun⟩

end RobotControl
