import RobotControl.Proofs.Series.Opening

/-!
# The turn of a series

What a series does in a tick: nothing while a child plays, else it starts the next one, or it
finishes when there is none left and starts its follow-up.
-/
set_option autoImplicit false

namespace RobotControl

open Series

variable {ε Ω σ : Type}

namespace Machine

variable {h : Host ε Ω σ} {s : ActionId} {cs : List ActionId} {f : Option ActionId}
  {score : σ → Option Series} {read : σ → Series} {write : Series → σ → σ}
  {m m' : Machine ε Ω σ} {rest : List (Task ε Ω σ)} {stage stage' : Stage}
  {log : List Note} {t : ActionTable} {x : Series} {i : Nat}

theorem parts_follow {g : ActionId} (elsewhere : g ≠ s) (failed last : Bool) :
    Parts s cs (some g) (.on cs.length false)
      (.enters s (.finish false) :: launching s g cs (some g) failed last) (.off false) := by
  have follows : Follows s [.asks (some s) (.start g false) true, .enters g .begin] (some g) :=
    ⟨true, by simp [wishes], fun _ => by simp⟩
  have closes : Part s cs (some g) (.on cs.length false)
      [.enters s (.finish false), .asks (some s) (.start g false) true, .enters g .begin]
      (.off false) := .closes follows rfl fun c begins => by
    simpa [eq_comm] using begins
  have stray : Parts s cs (some g) (.off false)
      (plot s cs (some g) (if failed then visit g (.finish true) last else [])) (.off false) := by
    cases failed with
    | false => exact .nil
    | true =>
        rw [if_pos rfl, plot_finish elsewhere]
        split
        · exact (Part.stray ‹_›).parts
        · exact .nil
  exact closes.parts.trans stray

theorem reaches_follow (conducts : h.Conducts s score read write) (elsewhere : f ≠ some s)
    (front : m.agenda = .run (Series.asking (f.map fun a => .start a false)) :: rest)
    (caller : (frames rest).head? = some s) (within : Within s m.table)
    (still : ∀ c ∈ cs, m.table.phase c ≠ .running) (known : score m.own = some x) :
    ∃ (log : List Note) (t : ActionTable), Reaches h score m log t x (.run .skip :: rest) ∧
      Parts s cs f (.on cs.length false) (.enters s (.finish false) :: plot s cs f log)
        (.off false) ∧
      (∀ g, f = some g → m.table.isRunning g = false →
        .asks (some s) (.start g false) true ∈ log) ∧
      t.phase s = m.table.phase s ∧ (∀ d, t.owner d ≠ some s) ∧ t.owed s = [] := by
  cases f with
  | none =>
      have closes : Part s cs none (.on cs.length false) [.enters s (.finish false)] (.off false) :=
        .closes rfl rfl (by simp)
      exact ⟨[], m.table, ⟨m, .refl, front, .refl _, known⟩, closes.parts,
        fun g same => (Option.some_ne_none g same.symm).elim, rfl, within.bare, within.owed⟩
  | some g =>
      have other : g ≠ s := fun same => elsewhere (congrArg some same)
      cases running : m.table.isRunning g with
      | true =>
          have refused : Comes h score m [.asks (frames rest).head? (.start g false) false] m.table
            (.run .skip :: rest) := comes_refused front running
          have shown : plot s cs (some g) [.asks (some s) (.start g false) false] =
              [.asks (some s) (.start g false) false] := by
            simp [plot, concerns]
          have closes : Part s cs (some g) (.on cs.length false)
              [.enters s (.finish false), .asks (some s) (.start g false) false] (.off false) :=
            .closes ⟨false, by simp [wishes], by simp⟩ rfl (by simp)
          rw [caller] at refused
          refine ⟨_, _, refused.reaches known, ?_, fun g' same idle => ?_, rfl, within.bare,
            within.owed⟩
          · rw [shown]
            exact closes.parts
          · cases same
            rw [running] at idle
            cases idle
      | false =>
          obtain ⟨log, t, failed, last, reaches, shown, launched⟩ := reaches_child (f := some g)
            conducts front caller other running still within known (.inr rfl)
          refine ⟨log, t, reaches, shown ▸ parts_follow other failed last, fun g' same _ => ?_,
            launched.others s (.inl rfl) other.symm, launched.bare,
            launched.owed.trans within.owed⟩
          cases same
          have listed : .asks (some s) (.start g false) true ∈ plot s cs (some g) log := by
            rw [shown]
            exact List.mem_cons_self
          exact List.mem_of_mem_filter listed

/-- The run of the series has come to its end, and it finishes. -/
theorem reaches_closing (conducts : h.Conducts s score read write) (apart : s ∉ cs)
    (elsewhere : f ≠ some s) (front : m.agenda = .serve s (.finish false) :: .drain s :: rest)
    (within : Within s m.table) (still : ∀ c ∈ cs, m.table.phase c ≠ .running)
    (known : score m.own = some ⟨cs, f, i⟩) :
    ∃ (log : List Note) (t : ActionTable), Reaches h score m log t ⟨cs, f, i⟩ (.drain s :: rest) ∧
      Parts s cs f (.on cs.length false) (plot s cs f log) (.off false) ∧
      .enters s (.finish false) ∈ log ∧
      (∀ g, f = some g → m.table.isRunning g = false →
        .asks (some s) (.start g false) true ∈ log) ∧
      t.phase s = m.table.phase s ∧ (∀ d, t.owner d ≠ some s) ∧ t.owed s = [] := by
  obtain ⟨m₁, entered, agenda, table, known'⟩ := conducts.goes_finish front known
  have opens : plot s cs f [.enters s (.finish false)] = [.enters s (.finish false)] := by
    simp [plot, concerns]
  have leaves : plot s cs f [.leaves s (.finish false) false] = [] := by
    simp [plot, concerns, apart]
  rw [← table] at within still
  obtain ⟨log, t, asks, parts, follows, phase, bare, owed⟩ :=
    reaches_follow conducts elsewhere agenda rfl within still known'
  have returned := (asks.trans fun m' agenda agrees known =>
    ((comes_returned agenda (.inr ⟨false, rfl⟩)).agrees agrees).reaches known).goes entered
  refine ⟨_, t, returned, ?_, by simp, fun g followUp idle => ?_, table ▸ phase, bare, owed⟩
  · rw [plot_append, plot_append, opens, leaves, List.append_nil]
    exact parts
  · simp [follows g followUp (table ▸ idle)]

/-- What the series does after so many children when none of them runs: the next one begins, or
there is none left and the series finishes and starts its follow-up. -/
structure Proceeds (s : ActionId) (cs : List ActionId) (f : Option ActionId) (t : ActionTable)
    (k : Nat) (log : List Note) : Prop where
  next : ∀ c, cs[k]? = some c → .enters c .begin ∈ log
  closes : cs[k]? = none → .enters s (.finish false) ∈ log
  follows : cs[k]? = none → ∀ g, f = some g → t.isRunning g = false →
    .asks (some s) (.start g false) true ∈ log

theorem advanced_eq {k : Nat} {plays : Bool} {finished : ActionId → Bool}
    (scene : Scene s cs f t.phase x (.on k plays)) (looks : ∀ c, finished c = t.isFinished c) :
    x.advanced finished = if plays then x else ⟨cs, f, k⟩ := by
  cases scene with
  | on runs upTo first playing closed =>
      rcases first with positive | ⟨rfl, rfl⟩
      · obtain ⟨c, current⟩ : ∃ c, cs[k - 1]? = some c :=
          ⟨_, List.getElem?_eq_getElem (by omega)⟩
        have child : c ∈ cs := List.mem_of_getElem? current
        cases plays with
        | true =>
            have runs' := (playing c child).mpr ⟨rfl, current⟩
            have open' : finished c = false := by
              simp [looks, ActionTable.isFinished, runs']
            simp [Series.advanced, Series.current, current, open']
        | false =>
            have done : finished c = true := by
              simp [looks, ActionTable.isFinished, closed rfl c current]
            have index : k - 1 + 1 = k := by omega
            simp [Series.advanced, Series.current, current, done, index]
      · obtain rfl : k = 0 := Nat.le_zero.mp upTo
        simp [Series.advanced, Series.current]

theorem Poised.goes_process {k : Nat} {plays : Bool} (poised : Poised s cs f score m (.on k plays))
    (conducts : h.Conducts s score read write) (front : m.agenda = .turn s :: rest) :
    ∃ m₁, Goes h m [.enters s .process] m₁ ∧
      m₁.agenda = .run (if plays then .skip else Series.starting cs[k]?) ::
        .returned s .process :: .drain s :: rest ∧
      m₁.table = m.table.enter s ∧ score m₁.own = some ⟨cs, f, if plays then k - 1 else k⟩ := by
  obtain ⟨x, known, scene⟩ := poised.scene
  have asleep : m.notes h = [] := by simp only [notes, front]
  have runs : m.table.isRunning s = true := by
    cases scene with
    | on runs _ _ _ _ => exact (ActionTable.isRunning_iff ..).mpr runs
  have wakes : m.step h = m.todo (.invoke s .process :: rest) := by
    simp [Machine.step, front, runs]
  have woken := Goes.one h m
  rw [asleep, wakes] at woken
  have same : m.table.SameLocks (m.table.enter s) := .enter m.table s
  obtain ⟨m₁, served, agenda, table, known'⟩ := conducts.goes_process (m := { m with
    table := m.table.enter s, agenda := .serve s .process :: .drain s :: rest }) rfl
    ((same.isRunning s).trans runs) known
  have looks : ∀ c, (m.table.enter s).isFinished c = m.table.isFinished c := fun c => by
    rw [ActionTable.isFinished, ActionTable.isFinished, same.phase]
  rw [advanced_eq scene looks] at agenda known'
  have enters := goes_invoke (h := h) (m := m.todo (.invoke s .process :: rest)) rfl
    (poised.free s)
  refine ⟨m₁, woken.trans (enters.trans served), ?_, table, ?_⟩
  · rw [agenda]
    cases scene with
    | on runs upTo first playing closed =>
        cases plays with
        | true => simp
        | false =>
            rcases first with positive | ⟨rfl, -⟩
            · rw [if_neg (by simp only [Bool.false_eq_true, if_false]; omega)]
              rfl
            · obtain rfl : k = 0 := Nat.le_zero.mp upTo
              rfl
  · cases scene with
    | on _ _ _ _ _ => cases plays <;> exact known'

/-- What shows of a process of the series that ends well. -/
def processed (s : ActionId) : List Note :=
  [.leaves s .process false, .enters s .proceed, .leaves s .proceed false]

theorem Poised.waits {k : Nat} (poised : Poised s cs f score m (.on k true))
    (conducts : h.Conducts s score read write) (front : m.agenda = .turn s :: rest)
    (outside : frames rest = []) :
    ∃ log m', m'.agenda = rest ∧ Leads h s cs f score m (.on k true) log m' (.on k true) := by
  obtain ⟨m₁, processes, agenda, table, known⟩ := poised.goes_process conducts front
  have within : Within s m₁.table := table ▸ poised.orderly.within poised.outside poised.bare
  have same : m.table.SameLocks m₁.table := table ▸ .enter m.table s
  obtain ⟨x, -, scene⟩ := poised.scene
  cases scene with
  | on runs upTo first playing closed =>
      have known : score m₁.own = some ⟨cs, f, k - 1⟩ := known
      have more : Series.wantsMore ⟨cs, f, k - 1⟩ = true := by
        rcases first with positive | ⟨-, ended⟩
        · simp only [Series.wantsMore, decide_eq_true_eq]
          omega
        · cases ended
      have goes := conducts.goes_processed agenda
        ((same.isRunning s).trans ((ActionTable.isRunning_iff ..).mpr runs)) known
      rw [if_pos more] at goes
      have scene : Scene s cs f m₁.table.phase ⟨cs, f, k - 1⟩ (.on k true) :=
        (Scene.on runs upTo first playing closed).same (same.phase s) fun c _ => same.phase c
      have reaches : Reaches h score m ([.enters s .process] ++ processed s) m₁.table
          ⟨cs, f, k - 1⟩ (.drain s :: rest) :=
        ⟨_, processes.trans goes, rfl, .refl _, known⟩
      have nothing : Parts s cs f (.on k true) (plot s cs f ([.enters s .process] ++ processed s))
          (.on k true) := by
        simpa [plot, processed, concerns] using .nil
      obtain ⟨m', agenda', leads⟩ := reaches.leaves outside poised.orderly within.owed within.bare
        scene nothing
      exact ⟨_, m', agenda', leads⟩

theorem Poised.proceeds {k : Nat} {c : ActionId} (poised : Poised s cs f score m (.on k false))
    (apart : s ∉ cs) (conducts : h.Conducts s score read write)
    (front : m.agenda = .turn s :: rest) (outside : frames rest = []) (next : cs[k]? = some c) :
    ∃ log m' stage', m'.agenda = rest ∧ Leads h s cs f score m (.on k false) log m' stage' ∧
      .enters c .begin ∈ log := by
  obtain ⟨m₁, processes, agenda, table, known⟩ := poised.goes_process conducts front
  have within : Within s m₁.table := table ▸ poised.orderly.within poised.outside poised.bare
  have same : m.table.SameLocks m₁.table := table ▸ .enter m.table s
  have child : c ∈ cs := List.mem_of_getElem? next
  have other : c ≠ s := fun same => apart (same ▸ child)
  obtain ⟨x, -, scene⟩ := poised.scene
  cases scene with
  | on runs upTo first playing closed =>
      have known : score m₁.own = some ⟨cs, f, k⟩ := known
      have still : ∀ d ∈ cs, m₁.table.phase d ≠ .running := fun d member runs' => by
        rw [same.phase, playing d member] at runs'
        cases runs'.1
      have stands : m₁.table.isRunning c = false := by
        simpa [ActionTable.isRunning] using still c child
      rw [next] at agenda
      obtain ⟨log, t, failed, last, reaches, shown, launched⟩ := reaches_child (f := f) conducts
        agenda rfl other stands still within known (.inl child)
      have runs' : m₁.table.phase s = .running := (same.phase s).trans runs
      have runs'' : t.isRunning s = true := by
        rw [ActionTable.isRunning_iff, launched.others s (.inl rfl) other.symm, runs']
      have more : Series.wantsMore ⟨cs, f, k⟩ = true := by
        simpa [Series.wantsMore] using (List.getElem?_eq_some_iff.mp next).1
      have whole : Reaches h score m ([.enters s .process] ++ (log ++ processed s)) t ⟨cs, f, k⟩
          (.drain s :: rest) :=
        (reaches.trans fun m' agenda agrees known' => by
          have goes := conducts.goes_processed agenda ((agrees.isRunning s).trans runs'') known'
          rw [if_pos more] at goes
          exact ⟨_, goes, rfl, agrees, known'⟩).goes processes
      have shown' : plot s cs f ([.enters s .process] ++ (log ++ processed s)) =
          launching s c cs f failed last := by
        rw [plot_append, plot_append, shown]
        simp [plot, processed, concerns]
      obtain ⟨m', agenda', leads⟩ := whole.leaves outside poised.orderly
        (launched.owed.trans within.owed) launched.bare (launched.scene next apart runs' still)
        (shown' ▸ parts_launching next apart failed last)
      refine ⟨_, m', _, agenda', leads, List.mem_of_mem_filter (p := concerns s cs f) ?_⟩
      show _ ∈ plot s cs f _
      rw [shown']
      simp [launching]

theorem Poised.closes (poised : Poised s cs f score m (.on cs.length false)) (apart : s ∉ cs)
    (elsewhere : f ≠ some s) (conducts : h.Conducts s score read write)
    (front : m.agenda = .turn s :: rest) (outside : frames rest = []) :
    ∃ log m', m'.agenda = rest ∧ Leads h s cs f score m (.on cs.length false) log m' (.off false) ∧
      .enters s (.finish false) ∈ log ∧
      ∀ g, f = some g → m.table.isRunning g = false →
        .asks (some s) (.start g false) true ∈ log := by
  obtain ⟨m₁, processes, agenda, table, known⟩ := poised.goes_process conducts front
  have within : Within s m₁.table := table ▸ poised.orderly.within poised.outside poised.bare
  have same : m.table.SameLocks m₁.table := table ▸ .enter m.table s
  obtain ⟨x, -, scene⟩ := poised.scene
  cases scene with
  | on runs upTo first playing closed =>
      have known : score m₁.own = some ⟨cs, f, cs.length⟩ := known
      rw [List.getElem?_eq_none (Nat.le_refl _)] at agenda
      have none : Series.wantsMore ⟨cs, f, cs.length⟩ = false := by simp [Series.wantsMore]
      have goes := conducts.goes_processed agenda
        ((same.isRunning s).trans ((ActionTable.isRunning_iff ..).mpr runs)) known
      rw [if_neg (by simp [none])] at goes
      have phases : ∀ b, (m₁.table.retire s).phase b =
          if b = s then .finished else m.table.phase b := fun b => by
        rw [ActionTable.phase_retire, same.phase]
        simp [eq_comm]
      have stopped : (m₁.table.retire s).phase s ≠ .running := by
        rw [phases, if_pos rfl]
        simp
      have still : ∀ c ∈ cs, (m₁.table.retire s).phase c ≠ .running := fun c child runs' => by
        have other : c ≠ s := fun same => apart (same ▸ child)
        rw [phases, if_neg other, playing c child] at runs'
        cases runs'.1
      obtain ⟨log, t, reaches, parts, finished, follows, phase, bare, owed⟩ := reaches_closing
        conducts apart elsewhere (m := { m₁ with
          table := m₁.table.retire s, agenda := .serve s (.finish false) :: .drain s :: rest })
        rfl within.retire still known
      have whole : Reaches h score m ([.enters s .process] ++ (processed s ++ log)) t
          ⟨cs, f, cs.length⟩ (.drain s :: rest) := (reaches.goes goes).goes processes
      have shown : plot s cs f ([.enters s .process] ++ (processed s ++ log)) =
          plot s cs f log := by
        rw [plot_append, plot_append]
        simp [plot, processed, concerns]
      obtain ⟨m', agenda', leads⟩ := whole.leaves outside poised.orderly owed bare
        (.off (phase ▸ stopped) fun rest => by cases rest) (shown ▸ parts)
      refine ⟨_, m', agenda', leads, by simp [finished], fun g same' idle => ?_⟩
      have other : g ≠ s := fun same => elsewhere (same ▸ same')
      have idle' : (m₁.table.retire s).isRunning g = false := by
        rw [ActionTable.isRunning, phases, if_neg other]
        exact idle
      simp [follows g same' idle']

theorem Poised.turnSeries (poised : Poised s cs f score m stage) (apart : s ∉ cs)
    (elsewhere : f ≠ some s) (conducts : h.Conducts s score read write)
    (front : m.agenda = .turn s :: rest) (outside : frames rest = []) :
    ∃ log m' stage', m'.agenda = rest ∧ Leads h s cs f score m stage log m' stage' ∧
      ∀ k, stage = .on k false → Proceeds s cs f m.table k log := by
  obtain ⟨x, known, scene⟩ := poised.scene
  have silent : m.notes h = [] := by simp only [notes, front]
  cases stage with
  | off atRest =>
      have stands : m.table.isRunning s = false := by
        cases scene with
        | off stands still => simpa [ActionTable.isRunning] using stands
      have step : m.step h = m.todo rest := by
        simp [Machine.step, front, stands]
      obtain ⟨m', agenda, leads⟩ := poised.passes step (by rw [silent]; rfl) outside
      exact ⟨_, m', _, agenda, leads, fun k same => by cases same⟩
  | on k plays =>
      cases plays with
      | true =>
          obtain ⟨log, m', agenda, leads⟩ := poised.waits conducts front outside
          exact ⟨log, m', _, agenda, leads, fun j same => by cases same⟩
      | false =>
          cases next : cs[k]? with
          | some c =>
              obtain ⟨log, m', stage', agenda, leads, begins⟩ :=
                poised.proceeds apart conducts front outside next
              refine ⟨log, m', stage', agenda, leads, fun j same => ?_⟩
              cases same
              refine ⟨fun d now => ?_, fun none => ?_, fun none => ?_⟩
              · cases next.symm.trans now
                exact begins
              · cases next.symm.trans none
              · cases next.symm.trans none
          | none =>
              obtain rfl : k = cs.length := by
                cases scene with
                | on _ upTo _ _ _ => exact Nat.le_antisymm upTo (List.getElem?_eq_none_iff.mp next)
              obtain ⟨log, m', agenda, leads, closes, follows⟩ :=
                poised.closes apart elsewhere conducts front outside
              refine ⟨log, m', _, agenda, leads, fun j same => ?_⟩
              cases same
              exact ⟨fun c now => (by cases next.symm.trans now), fun _ => closes, fun _ => follows⟩

end Machine

end RobotControl
