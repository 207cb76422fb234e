import Mathlib.Data.List.Nodup
import RobotControl.Proofs.Series.Opening

/-!
# The end of a series from outside

A series that is stopped, started again or hit by a stop of all actions stops the child that runs,
if that has not been stopped already, and starts nothing else.
-/
set_option autoImplicit false

namespace RobotControl

open Series

variable {ε Ω σ : Type}

namespace Machine

variable {h : Host ε Ω σ} {s : ActionId} {cs : List ActionId} {f : Option ActionId}
  {score : σ → Option Series} {read : σ → Series} {write : Series → σ → σ}
  {m m' : Machine ε Ω σ} {rest : List (Task ε Ω σ)} {stage stage' : Stage}
  {log : List Note} {t : ActionTable} {x : Series} {i : Nat}

theorem stills_visit (a : ActionId) (failed : Bool) :
    Stills s cs (if a ∈ cs then [a] else []) (visit a (.finish true) failed) where
  last c listed := by simp [visit] at listed
  finish := by by_cases child : a ∈ cs <;> simp [Series.finishes, visit, child]
  closed := by by_cases child : a ∈ cs <;> simp [ended, visit, child]
  stops x wish := by cases wish

theorem parts_cut {k : Nat} {now : Option ActionId} {r : Request}
    (stills : Stills s cs now.toList log) (cuts : r.cuts s = true)
    (runs : ∀ c, now = some c → 0 < k ∧ cs[k - 1]? = some c)
    (own : Series.finishes [s] log = [(s, true)]) :
    Parts s cs f (.on k now.isSome) (plot s cs f (.asks none r true :: log)) (.off true) := by
  have shown : plot s cs f (.asks none r true :: log) = .asks none r true :: plot s cs f log :=
    List.filter_cons_of_pos (by simp [concerns, cuts])
  rw [shown]
  refine (Part.cut cuts runs ⟨fun c listed => ?_, ?_, ?_, ?_⟩ ?_).parts
  · exact stills.last c (List.mem_of_mem_filter listed)
  · rw [finishes_plot (List.subset_cons_self ..), stills.finish]
  · rw [ended_plot, stills.closed]
  · rw [wishes_plot]
    exact stills.stops
  · rw [finishes_own_plot, own]

theorem stills_stopping {c : ActionId} (child : c ∈ cs) (runs failed : Bool) :
    Stills s cs ((some c).filter fun _ => runs).toList (stopping (some s) c runs failed) := by
  have asks : Stills s cs [] [.asks (some s) (.stop c) runs] :=
    ⟨by simp, rfl, rfl, fun x wish => ⟨c, child, by
      simp only [wishes, List.filterMap_cons, if_true, List.filterMap_nil,
        List.mem_singleton] at wish
      rw [wish]⟩⟩
  cases runs with
  | false => exact asks
  | true =>
      have visited := asks.append (stills_visit (s := s) c failed)
      rwa [if_pos child] at visited

theorem reaches_stop (conducts : h.Conducts s score read write) (apart : s ∉ cs)
    (front : m.agenda = .run (Series.asking (Series.ending ⟨cs, f, i⟩ true)) :: rest)
    (caller : (frames rest).head? = some s) (within : Within s m.table)
    (known : score m.own = some x) :
    ∃ (log : List Note) (t : ActionTable), Reaches h score m log t x (.run .skip :: rest) ∧
      Stills s cs (cs[i]?.filter m.table.isRunning).toList log ∧ Series.finishes [s] log = [] ∧
      (∀ b, t.phase b =
        if cs[i]?.filter m.table.isRunning = some b then .finished else m.table.phase b) ∧
      (∀ d, t.owner d ≠ some s) ∧ t.owed s = [] := by
  cases current : cs[i]? with
  | none =>
      have nothing : Series.ending ⟨cs, f, i⟩ true = none := by
        simp [Series.ending, Series.current, current]
      rw [nothing] at front
      exact ⟨[], m.table, ⟨m, .refl, front, .refl _, known⟩,
        ⟨fun _ => List.not_mem_nil, rfl, rfl, fun x wish => by cases wish⟩, rfl, by simp,
        within.bare, within.owed⟩
  | some c =>
      have child : c ∈ cs := List.mem_of_getElem? current
      have other : c ≠ s := fun same => apart (same ▸ child)
      have asks : Series.ending ⟨cs, f, i⟩ true = some (.stop c) := by
        simp [Series.ending, Series.current, current]
      rw [asks] at front
      obtain ⟨failed, comes⟩ := comes_ask_stop front (conducts.tame c other) (within.free c other)
      rw [caller] at comes
      refine ⟨_, _, comes.reaches known, stills_stopping child _ failed, ?_, fun b => ?_,
        owner_retiredIf within.bare c _, (owed_retiredIf ..).trans within.owed⟩
      · cases m.table.isRunning c <;> simp [Series.finishes, stopping, visit, other]
      · rw [phase_retiredIf]
        cases runs : m.table.isRunning c <;> simp [Option.filter, runs, eq_comm]

theorem reaches_interrupted (conducts : h.Conducts s score read write) (apart : s ∉ cs)
    (front : m.agenda = .invoke s (.finish true) :: rest) (outside : frames rest = [])
    (orderly : m.Orderly) (bare : ∀ d, m.table.owner d ≠ some s)
    (known : score m.own = some ⟨cs, f, i⟩) :
    ∃ (log : List Note) (t : ActionTable), Reaches h score m log t ⟨cs, f, i⟩ rest ∧
      Stills s cs (cs[i]?.filter m.table.isRunning).toList log ∧
      Series.finishes [s] log = [(s, true)] ∧
      (∀ b, t.phase b =
        if cs[i]?.filter m.table.isRunning = some b then .finished else m.table.phase b) ∧
      ∀ d, t.owner d ≠ some s := by
  obtain ⟨m₁, served, agenda, table, known'⟩ := conducts.goes_finish (m := { m with
    table := m.table.enter s, agenda := .serve s (.finish true) :: .drain s :: rest }) rfl known
  have entered : Goes h m [.enters s (.finish true)] m₁ :=
    (goes_invoke front (orderly.sound.free (by rw [front]; exact outside) s)).trans served
  have within : Within s m₁.table := table ▸ orderly.within (front ▸ outside) bare
  have same : m.table.SameLocks m₁.table := table ▸ .enter m.table s
  have opens : Stills s cs [] [.enters s (.finish true)] :=
    ⟨by simp, by simp [Series.finishes, apart], rfl, fun x wish => by cases wish⟩
  have closes : Stills s cs [] [.leaves s (.finish true) false] :=
    ⟨by simp, rfl, by simp [ended, apart], fun x wish => by cases wish⟩
  have own : Series.finishes [s] [.enters s (.finish true)] = [(s, true)] := by
    simp [Series.finishes]
  obtain ⟨log, t, stops, stills, others, phases, bare', owed⟩ :=
    reaches_stop (f := f) conducts apart agenda rfl within known'
  have returned := (stops.trans fun m' agenda agrees known =>
    ((comes_returned agenda (.inr ⟨true, rfl⟩)).agrees agrees).reaches known).goes entered
  have whole := opens.append (stills.append closes)
  rw [show m₁.table.isRunning = m.table.isRunning from funext same.isRunning,
    List.nil_append, List.append_nil] at whole
  refine ⟨_, _, returned.drained owed, whole, ?_, fun b => ?_, bare'⟩
  · rw [Series.finishes_append, Series.finishes_append, own, others]
    rfl
  · rw [(ActionTable.SameLocks.leave _ s).phase, phases, same.phase,
      show m₁.table.isRunning = m.table.isRunning from funext same.isRunning]

/-- At a stage, the child that runs is the one that began last. -/
theorem now_of_scene {k : Nat} {plays : Bool} (scene : Scene s cs f t.phase x (.on k plays)) :
    (cs[k - 1]?.filter t.isRunning).isSome = plays ∧
      ∀ c, cs[k - 1]?.filter t.isRunning = some c → 0 < k ∧ cs[k - 1]? = some c := by
  cases scene with
  | on runs upTo first playing closed =>
      rcases first with positive | ⟨rfl, rfl⟩
      · obtain ⟨c, current⟩ : ∃ c, cs[k - 1]? = some c :=
          ⟨_, List.getElem?_eq_getElem (by omega)⟩
        have iff := playing c (List.mem_of_getElem? current)
        rw [← ActionTable.isRunning_iff] at iff
        rw [current]
        cases plays <;> simp_all [Option.filter]
      · simp

theorem Poised.cut {k : Nat} {plays : Bool} {r : Request} {m₁ : Machine ε Ω σ}
    (poised : Poised s cs f score m (.on k plays)) (apart : s ∉ cs)
    (conducts : h.Conducts s score read write) (cuts : r.cuts s = true)
    (goes : Goes h m [.asks none r true] m₁) (front : m₁.agenda = .invoke s (.finish true) :: rest)
    (agrees : (m.table.retire s).Agrees m₁.table) (own : m₁.own = m.own)
    (outside : frames rest = []) :
    ∃ log m', m'.agenda = rest ∧ Leads h s cs f score m (.on k plays) log m' (.off true) := by
  obtain ⟨x, known, scene⟩ := poised.scene
  have phases : ∀ b, m₁.table.phase b = if b = s then .finished else m.table.phase b := fun b => by
    rw [agrees.phase, ActionTable.phase_retire]
    simp [eq_comm]
  have bare : ∀ d, m₁.table.owner d ≠ some s := fun d => by
    rw [agrees.owner]
    exact owner_retiredIf poised.bare s true d
  obtain ⟨same, current⟩ := now_of_scene scene
  cases scene with
  | on runs upTo first playing closed =>
      obtain ⟨log, t, reaches, stills, finished, last, bare'⟩ := reaches_interrupted conducts apart
        front outside (poised.orderly.goes goes) bare (own ▸ known)
      have running : cs[k - 1]?.filter m₁.table.isRunning =
          cs[k - 1]?.filter m.table.isRunning := by
        cases now : cs[k - 1]? with
        | none => rfl
        | some c =>
            have other : c ≠ s := fun same => apart (same ▸ List.mem_of_getElem? now)
            have same : m₁.table.isRunning c = m.table.isRunning c := by
              rw [ActionTable.isRunning, ActionTable.isRunning, phases, if_neg other]
            simp only [Option.filter, same]
      rw [running] at stills last
      have parts := parts_cut (f := f) stills cuts current finished
      rw [same] at parts
      have stands : t.phase s ≠ .running := by
        rw [last, phases, if_pos rfl]
        simp
      have still : ∀ c ∈ cs, t.phase c ≠ .running := fun c child runs' => by
        have other : c ≠ s := fun same => apart (same ▸ child)
        rw [last, phases, if_neg other] at runs'
        split at runs'
        · cases runs'
        · rename_i waits
          obtain ⟨-, now⟩ := (playing c child).mp runs'
          exact waits (Option.filter_eq_some_iff.mpr
            ⟨now, (ActionTable.isRunning_iff ..).mpr runs'⟩)
      obtain ⟨m', agenda, leads⟩ := (reaches.goes goes).leads poised.orderly outside bare'
        (.off stands fun _ => still) parts
      exact ⟨_, m', agenda, leads⟩

theorem Poised.stopSeries (poised : Poised s cs f score m stage) (apart : s ∉ cs)
    (conducts : h.Conducts s score read write) {next : Bool → Routine ε Ω σ}
    (front : m.agenda = .run (.ask (.stop s) next) :: rest) (outside : frames rest = []) :
    ∃ log m' stage', m'.agenda = .run (next (m.table.isRunning s)) :: rest ∧
      Leads h s cs f score m stage log m' stage' := by
  obtain ⟨x, known, scene⟩ := poised.scene
  have shown : m.notes h = [.asks none (.stop s) (m.table.isRunning s)] := by
    simp only [notes, front, outside, ActionTable.answer]
    rfl
  cases scene with
  | off stands still =>
      have refused : m.table.isRunning s = false := by
        simpa [ActionTable.isRunning] using stands
      have step : m.step h = m.todo (.run (next false) :: rest) := by
        simp [Machine.step, front, runRoutine, grant, refused]
      have quiet : plot s cs f (m.notes h) = [] := by
        simp [shown, refused, plot, concerns]
      obtain ⟨m', agenda, leads⟩ := poised.passes step quiet outside
      exact ⟨_, m', _, refused ▸ agenda, leads⟩
  | on runs upTo first playing closed =>
      have granted : m.table.isRunning s = true := (ActionTable.isRunning_iff ..).mpr runs
      have step : m.step h =
          (m.holding [s]).interrupting s (.letGo [s] :: .run (next true) :: rest) := by
        simp [Machine.step, front, runRoutine, grant, granted]
      rw [granted] at shown ⊢
      have goes := Goes.one h m
      rw [shown, step] at goes
      obtain ⟨log, m', agenda, leads⟩ := poised.cut apart conducts (by simp [Request.cuts]) goes rfl
        ((ActionTable.Agrees.of_alike (.hold m.table [s])).retire s) rfl outside
      obtain ⟨m'', agenda', leads'⟩ := leads.letGo agenda
      exact ⟨log, m'', _, agenda', leads'⟩

/-- A start of the series that is granted: if it runs it is interrupted first. -/
theorem goes_granted {restart : Bool} {next : Bool → Routine ε Ω σ}
    (front : m.agenda = .run (.ask (.start s restart) next) :: rest) (outside : frames rest = [])
    (granted : m.table.isRunning s = true → restart = true) :
    ∃ m₁, Goes h m [.asks none (.start s restart) true] m₁ ∧ m₁.own = m.own ∧
      m₁.agenda = (if m.table.isRunning s then [.invoke s (.finish true)] else []) ++
        .launch s :: .letGo [s] :: .run (next true) :: rest ∧
      (if m.table.isRunning s then m.table.retire s else m.table).Agrees m₁.table := by
  have answer : (!(m.table.isRunning s && !restart)) = true := by
    cases runs : m.table.isRunning s <;> simp_all
  have shown : m.notes h = [.asks none (.start s restart) true] := by
    simp only [notes, front, outside, ActionTable.answer, answer]
    rfl
  have step : m.step h = m.workingOn [s] [.start s restart] (.run (next true) :: rest) := by
    simp only [Machine.step, front, runRoutine, grant]
    rw [if_neg fun refused => by simp [refused] at answer]
  have goes := Goes.one h m
  rw [shown, step] at goes
  have held : (m.table.hold [s]).isRunning s = m.table.isRunning s := rfl
  have alike : m.table.Agrees (m.table.hold [s]) := .of_alike (.hold ..)
  have next' := Goes.one h (m.workingOn [s] [.start s restart] (.run (next true) :: rest))
  have silent : (m.workingOn [s] [.start s restart] (.run (next true) :: rest)).notes h = [] := rfl
  have step' : (m.workingOn [s] [.start s restart] (.run (next true) :: rest)).step h =
      if m.table.isRunning s then
        if restart then (m.holding [s]).interrupting s
          (.launch s :: .letGo [s] :: .run (next true) :: rest)
        else m.holding [s] |>.todo (.letGo [s] :: .run (next true) :: rest)
      else (m.holding [s]).todo (.launch s :: .letGo [s] :: .run (next true) :: rest) := rfl
  rw [silent] at next'
  refine ⟨_, goes.trans next', ?_⟩
  rw [step']
  cases runs : m.table.isRunning s with
  | false => exact ⟨rfl, rfl, alike⟩
  | true =>
      rw [granted runs]
      exact ⟨rfl, rfl, alike.retire s⟩

theorem leads_launch_letGo (conducts : h.Conducts s score read write) (apart : s ∉ cs)
    {as : List ActionId} {atRest : Bool}
    (leads : Leads h s cs f score m stage log m' (.off atRest))
    (front : m'.agenda = .launch s :: .letGo as :: rest)
    (still : ∀ c ∈ cs, m'.table.phase c ≠ .running) :
    ∃ log m'' stage', m''.agenda = rest ∧ Leads h s cs f score m stage log m'' stage' := by
  obtain ⟨log', m₁, stage', agenda, launched⟩ :=
    leads_launch conducts apart front leads.poised still
  obtain ⟨m'', agenda', whole⟩ := (leads.trans launched).letGo agenda
  exact ⟨_, m'', stage', agenda', whole⟩

theorem Poised.startSeries (poised : Poised s cs f score m stage) (apart : s ∉ cs)
    (conducts : h.Conducts s score read write) {restart : Bool} {next : Bool → Routine ε Ω σ}
    (front : m.agenda = .run (.ask (.start s restart) next) :: rest) (outside : frames rest = [])
    (allowed : m.table.isRunning s = true ∨ ∀ c ∈ cs, m.table.isRunning c = false) :
    ∃ log m' stage' answer, m'.agenda = .run (next answer) :: rest ∧
      Leads h s cs f score m stage log m' stage' := by
  obtain ⟨x, known, scene⟩ := poised.scene
  by_cases granted : m.table.isRunning s = true → restart = true
  · obtain ⟨m₁, goes, own, agenda, agrees⟩ := goes_granted (h := h) front outside granted
    have below : frames (.launch s :: .letGo [s] :: .run (next true) :: rest) = [] := outside
    cases scene with
    | @off i atRest stands still =>
        have stopped : m.table.isRunning s = false := by simpa [ActionTable.isRunning] using stands
        have children : ∀ c ∈ cs, m.table.phase c ≠ .running := by
          rw [stopped] at allowed
          simpa [ActionTable.isRunning] using allowed
        rw [stopped] at agenda agrees
        have asked : Parts s cs f (.off atRest)
            (plot s cs f [.asks none (.start s restart) true]) (.off atRest) := by
          cases restart with
          | false => exact .nil
          | true =>
              have shown : plot s cs f [.asks none (.start s true) true] =
                  [.asks none (.start s true) true] := by
                simp [plot, concerns, Request.cuts]
              rw [shown]
              exact (Part.idle _).parts
        have leads := poised.orderly.leads goes (agenda ▸ below) agrees (own ▸ known) poised.bare
          (.off stands still) asked
        obtain ⟨log, m', stage', agenda', leads'⟩ :=
          leads_launch_letGo conducts apart leads agenda fun c child => by
            rw [agrees.phase]
            exact children c child
        exact ⟨log, m', stage', true, agenda', leads'⟩
    | on runs upTo first playing closed =>
        have running : m.table.isRunning s = true := (ActionTable.isRunning_iff ..).mpr runs
        rw [running] at agenda agrees
        obtain rfl : restart = true := granted running
        obtain ⟨log, m₂, agenda₂, leads⟩ := poised.cut apart conducts (by simp [Request.cuts]) goes
          agenda agrees own below
        have still : ∀ c ∈ cs, m₂.table.phase c ≠ .running := by
          obtain ⟨y, -, scene⟩ := leads.poised.scene
          cases scene with
          | off _ still => exact still rfl
        obtain ⟨log, m', stage', agenda', leads'⟩ :=
          leads_launch_letGo conducts apart leads agenda₂ still
        exact ⟨log, m', stage', true, agenda', leads'⟩
  · obtain ⟨runs, rfl⟩ : m.table.isRunning s = true ∧ restart = false := by
      simpa using granted
    have quiet : plot s cs f (m.notes h) = [] := by
      simp [notes, front, outside, ActionTable.answer, runs, plot, concerns]
    have step : m.step h = m.todo (.run (next false) :: rest) := by
      simp [Machine.step, front, runRoutine, grant, runs]
    obtain ⟨m', agenda, leads⟩ := poised.passes step quiet outside
    exact ⟨_, m', _, false, agenda, leads⟩

/-! ### A stop of all actions -/

theorem stills_visits (os : List ActionId) (failed : ActionId → Bool) :
    Stills s cs (os.filter (· ∈ cs)) (os.flatMap fun o => visit o (.finish true) (failed o)) := by
  induction os with
  | nil => exact ⟨fun _ => List.not_mem_nil, rfl, rfl, fun x wish => by cases wish⟩
  | cons o os ih =>
      have visits := (stills_visit (s := s) o (failed o)).append ih
      by_cases child : o ∈ cs <;> simpa [child] using visits

theorem finishes_visits (os : List ActionId) (apart : s ∉ os) (failed : ActionId → Bool) :
    Series.finishes [s] (os.flatMap fun o => visit o (.finish true) (failed o)) = [] := by
  induction os with
  | nil => rfl
  | cons o os ih =>
      obtain ⟨other, apart⟩ := List.ne_and_not_mem_of_not_mem_cons apart
      rw [List.flatMap_cons, Series.finishes_append, ih apart]
      simp [Series.finishes, visit, other.symm]

theorem filter_children {k : Nat} {plays : Bool} (scene : Scene s cs f t.phase x (.on k plays))
    {os : List ActionId} (distinct : os.Nodup)
    (running : ∀ c ∈ cs, c ∈ os ↔ t.isRunning c = true) :
    os.filter (· ∈ cs) = (cs[k - 1]?.filter t.isRunning).toList := by
  have members : ∀ c, c ∈ os.filter (· ∈ cs) ↔ cs[k - 1]?.filter t.isRunning = some c := by
    intro c
    rw [List.mem_filter, decide_eq_true_eq, Option.filter_eq_some_iff]
    cases scene with
    | on runs upTo first playing closed =>
        constructor
        · rintro ⟨listed, child⟩
          have runs' := (running c child).mp listed
          exact ⟨((playing c child).mp ((ActionTable.isRunning_iff ..).mp runs')).2, runs'⟩
        · rintro ⟨current, runs'⟩
          have child := List.mem_of_getElem? current
          exact ⟨(running c child).mpr runs', child⟩
  cases now : cs[k - 1]?.filter t.isRunning with
  | none =>
      refine List.eq_nil_iff_forall_not_mem.mpr fun c listed => ?_
      rw [members, now] at listed
      cases listed
  | some c =>
      have alone : (os.filter (· ∈ cs)).Perm [c] :=
        (List.perm_ext_iff_of_nodup (distinct.filter _) (by simp)).mpr fun d => by
          rw [members, now, List.mem_singleton, Option.some_inj, eq_comm]
      exact List.perm_singleton.mp alone

/-- A stop of all actions has retired those that ran, and they are about to finish. -/
structure Retires (h : Host ε Ω σ) (s : ActionId) (os : List ActionId)
    (below : List (Task ε Ω σ)) (m m₁ : Machine ε Ω σ) : Prop where
  goes : Goes h m [.asks none .stopAll true] m₁
  agenda : m₁.agenda = sweep os below
  own : m₁.own = m.own
  listed : ∀ b, b ∈ os ↔ m.table.isRunning b = true
  distinct : os.Nodup
  phases : ∀ b, m₁.table.phase b = if b ∈ os then .finished else m.table.phase b
  bare : ∀ d, m₁.table.owner d ≠ some s

theorem Poised.retires (poised : Poised s cs f score m stage) {next : Bool → Routine ε Ω σ}
    (front : m.agenda = .run (.ask .stopAll next) :: rest) (outside : frames rest = []) :
    ∃ os, Retires h s os (.letGo os :: .run (next true) :: rest) m (m.step h) := by
  obtain ⟨alike, whole⟩ := table_stopAll (h := h) front
  have shown : m.notes h = [.asks none .stopAll true] := by
    simp only [notes, front, outside, ActionTable.answer]
    rfl
  refine ⟨m.table.runningBackwards, shown ▸ Goes.one h m, whole, ?_,
    poised.orderly.mem_runningBackwards, nodup_eraseDups _, fun b => ?_, fun d owns => ?_⟩
  · simp only [Machine.step, front, runRoutine, grant]
    rfl
  · rw [alike.phase, ActionTable.retireAll, ActionTable.phase_foldl_retire]
  · rw [alike.owner, ActionTable.retireAll, ActionTable.owner_foldl_retire] at owns
    exact poised.bare d owns.1

section Retires

variable {os : List ActionId} {below : List (Task ε Ω σ)} {m₁ : Machine ε Ω σ}

/-- While the series does not run, its children may be among those that finish. -/
theorem Retires.off {atRest : Bool} (retires : Retires h s os below m m₁)
    (poised : Poised s cs f score m (.off atRest)) (apart : s ∉ cs)
    (conducts : h.Conducts s score read write) (outside : frames below = []) :
    ∃ log m' stage', m'.agenda = below ∧ Leads h s cs f score m (.off atRest) log m' stage' := by
  obtain ⟨x, known, scene⟩ := poised.scene
  have absent : s ∉ os := fun member => by
    cases scene with
    | off stands still =>
        exact stands ((ActionTable.isRunning_iff ..).mp ((retires.listed s).mp member))
  have free := (poised.orderly.goes retires.goes).sound.free
    (by rw [retires.agenda]; exact frames_sweep _ outside)
  obtain ⟨failed, comes⟩ := comes_finishes os retires.distinct
    (fun o member => conducts.tame o fun same => absent (same ▸ member)) m₁ retires.agenda
    fun o _ => free o
  have asked : Parts s cs f (.off atRest) (plot s cs f [.asks none .stopAll true])
      (.off atRest) := (Part.idle .stopAll).parts
  obtain ⟨stage', parts, scene'⟩ := scene.disturbed apart
    (disturbs_finishes (f := f) os retires.distinct absent
      (fun o member => (ActionTable.isRunning_iff ..).mp ((retires.listed o).mp member)) failed
      ((retires.phases s).trans (if_neg absent)) fun c _ => retires.phases c)
  obtain ⟨m', agenda, leads⟩ := ((comes.reaches (retires.own ▸ known)).goes retires.goes).leads
    poised.orderly outside retires.bare scene' (plot_append _ _ ▸ asked.trans parts)
  exact ⟨_, m', stage', agenda, leads⟩

theorem Retires.nobody (retires : Retires h s os below m m₁) (b : ActionId) :
    m₁.table.isRunning b = false := by
  rw [ActionTable.isRunning, retires.phases, decide_eq_false_iff_not]
  split
  · simp
  · exact fun runs => ‹b ∉ os› ((retires.listed b).mpr ((ActionTable.isRunning_iff ..).mpr runs))

/-- While it runs, those before it finish, then the series itself, which has nothing to stop any
more, and then the others. -/
theorem Retires.on {k : Nat} {plays : Bool} (retires : Retires h s os below m m₁)
    (poised : Poised s cs f score m (.on k plays)) (apart : s ∉ cs)
    (conducts : h.Conducts s score read write) (outside : frames below = []) :
    ∃ log m', m'.agenda = below ∧ Leads h s cs f score m (.on k plays) log m' (.off true) := by
  obtain ⟨⟨cs', f', i⟩, known, scene⟩ := poised.scene
  obtain ⟨rfl, rfl⟩ : cs' = cs ∧ f' = f := by cases scene; exact ⟨rfl, rfl⟩
  have runs : s ∈ os := by
    cases scene with
    | on runs _ _ _ _ => exact (retires.listed s).mpr ((ActionTable.isRunning_iff ..).mpr runs)
  obtain ⟨early, late, rfl⟩ := List.append_of_mem runs
  obtain ⟨absent, distinct⟩ := List.nodup_cons.mp (List.nodup_middle.mp retires.distinct)
  have tame : ∀ o ∈ early ++ late, h.Tames score o := fun o member =>
    conducts.tame o fun same => absent (same ▸ member)
  have agenda : m₁.agenda = early.map (fun o => .invoke o (.finish true)) ++
      .invoke s (.finish true) :: sweep late below := by
    rw [retires.agenda, sweep, List.map_append, List.append_assoc]
    rfl
  have orderly := poised.orderly.goes retires.goes
  obtain ⟨failed, m₂, goes₂, agenda₂, agrees₂, own₂, -⟩ := comes_finishes early
    distinct.of_append_left (fun o member => tame o (List.mem_append_left _ member)) m₁ agenda
    fun o _ => orderly.sound.free (by rw [retires.agenda]; exact frames_sweep _ outside) o
  have orderly₂ := orderly.goes goes₂
  have bare₂ : ∀ d, m₂.table.owner d ≠ some s := fun d => by
    rw [agrees₂.owner]
    exact retires.bare d
  obtain ⟨log, t, ⟨m₃, goes₃, agenda₃, agrees₃, known₃⟩, stills, finished, last, bare₃⟩ :=
    reaches_interrupted conducts apart agenda₂ (frames_sweep late outside) orderly₂ bare₂
      (own₂.trans (retires.own ▸ known))
  have nothing : cs'[i]?.filter m₂.table.isRunning = none :=
    Option.filter_eq_none_iff.mpr fun c _ => by rw [agrees₂.isRunning, retires.nobody]; simp
  rw [nothing] at stills last
  have orderly₃ := orderly₂.goes goes₃
  obtain ⟨failed', m₄, goes₄, agenda₄, agrees₄, own₄, -⟩ := comes_finishes late
    distinct.of_append_right (fun o member => tame o (List.mem_append_right _ member)) m₃ agenda₃
    fun o _ => orderly₃.sound.free (by rw [agenda₃]; exact frames_sweep _ outside) o
  have all : Stills s cs' _ _ := (stills_visits early failed).append
    (stills.append (stills_visits late failed'))
  -- Of those that finish before or after the series only the child that plays is one of its own.
  have children := filter_children scene distinct fun c child => by
    have other : c ≠ s := fun same => apart (same ▸ child)
    rw [← retires.listed c]
    simp [other]
  rw [Option.toList_none, List.nil_append, ← List.filter_append, children] at all
  have own : Series.finishes [s] (early.flatMap (fun o => visit o (.finish true) (failed o)) ++
      (log ++ late.flatMap fun o => visit o (.finish true) (failed' o))) = [(s, true)] := by
    rw [Series.finishes_append, Series.finishes_append, finished,
      finishes_visits early fun member => absent (List.mem_append_left _ member),
      finishes_visits late fun member => absent (List.mem_append_right _ member)]
    rfl
  obtain ⟨same, current⟩ := now_of_scene scene
  have parts := parts_cut (f := f') (r := .stopAll) all rfl current own
  rw [same] at parts
  have still : ∀ b, t.phase b ≠ .running := fun b => by
    have nobody : m₂.table.isRunning b = false := (agrees₂.isRunning b).trans (retires.nobody b)
    simpa [last, ActionTable.isRunning] using nobody
  exact ⟨_, m₄, agenda₄, poised.orderly.leads
    (retires.goes.trans (goes₂.trans (goes₃.trans goes₄))) (agenda₄ ▸ outside)
    (agrees₃.trans agrees₄) (own₄.trans known₃) bare₃ (.off (still s) fun _ c _ => still c) parts⟩

end Retires

theorem Poised.stopAll (poised : Poised s cs f score m stage) (apart : s ∉ cs)
    (conducts : h.Conducts s score read write) {next : Bool → Routine ε Ω σ}
    (front : m.agenda = .run (.ask .stopAll next) :: rest) (outside : frames rest = []) :
    ∃ log m' stage', m'.agenda = .run (next true) :: rest ∧
      Leads h s cs f score m stage log m' stage' := by
  obtain ⟨os, retires⟩ := poised.retires (h := h) front outside
  cases stage with
  | off atRest =>
      obtain ⟨log, m', stage', agenda, leads⟩ := retires.off poised apart conducts outside
      obtain ⟨m'', agenda', leads'⟩ := leads.letGo agenda
      exact ⟨log, m'', stage', agenda', leads'⟩
  | on k plays =>
      obtain ⟨log, m', agenda, leads⟩ := retires.on poised apart conducts outside
      obtain ⟨m'', agenda', leads'⟩ := leads.letGo agenda
      exact ⟨log, m'', _, agenda', leads'⟩

end Machine

end RobotControl
