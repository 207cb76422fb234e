import RobotControl.Proofs.Action.StopAll
import RobotControl.Proofs.Series.Conduct

/-!
# The stage of a series and the manager

`Series.Scene` says what the manager knows of a series and its children at each stage, and
`Machine.Poised` that it is between two tasks at a stage.  What other actions do to the children is
no more than that a running one ends (`Series.Disturbs`), so the manager goes from stage to stage by
the parts of the series whatever they do (`Poised.disturbed`).
-/
set_option autoImplicit false

namespace RobotControl

variable {ε Ω σ : Type}

namespace Series

variable {s : ActionId} {cs : List ActionId} {f : Option ActionId}

/-- Phases at a stage, and what the series keeps.  While it runs, only the child that began last can
run, and has finished otherwise. -/
inductive Scene (s : ActionId) (cs : List ActionId) (f : Option ActionId)
    (p : ActionId → Phase) : Series → Stage → Prop
  | off {i : Nat} {atRest : Bool} (stands : p s ≠ .running)
      (still : atRest = true → ∀ c ∈ cs, p c ≠ .running) :
      Scene s cs f p ⟨cs, f, i⟩ (.off atRest)
  | on {k : Nat} {plays : Bool} (runs : p s = .running) (upTo : k ≤ cs.length)
      (first : 0 < k ∨ cs = [] ∧ plays = false)
      (playing : ∀ c ∈ cs, p c = .running ↔ plays = true ∧ cs[k - 1]? = some c)
      (closed : plays = false → ∀ c, cs[k - 1]? = some c → p c = .finished) :
      Scene s cs f p ⟨cs, f, k - 1⟩ (.on k plays)

/-- What happens to the children while the series itself does nothing: those that run may end. -/
inductive Disturbs (s : ActionId) (cs : List ActionId) :
    (ActionId → Phase) → List Note → (ActionId → Phase) → Prop
  | still {p p' : ActionId → Phase} (own : p' s = p s) (same : ∀ c ∈ cs, p' c = p c) :
      Disturbs s cs p [] p'
  | ends {p p' : ActionId → Phase} {c : ActionId} {interrupted failed : Bool} {log : List Note}
      (child : c ∈ cs) (runs : p c = .running)
      (later : Disturbs s cs (Function.update p c .finished) log p') :
      Disturbs s cs p (Machine.visit c (.finish interrupted) failed ++ log) p'

variable {p p' : ActionId → Phase} {x : Series} {stage : Stage} {log : List Note}

theorem Scene.same (scene : Scene s cs f p x stage) (own : p' s = p s)
    (same : ∀ c ∈ cs, p' c = p c) : Scene s cs f p' x stage := by
  cases scene with
  | off stands still =>
      exact .off (own ▸ stands) fun rest c child => same c child ▸ still rest c child
  | on runs upTo first playing closed =>
      refine .on (own.trans runs) upTo first (fun c child => ?_) fun ended c current => ?_
      · rw [same c child]
        exact playing c child
      · rw [same c (List.mem_of_getElem? current)]
        exact closed ended c current

theorem Scene.ends (scene : Scene s cs f p x stage) (apart : s ∉ cs)
    {c : ActionId} (child : c ∈ cs) (runs : p c = .running) (interrupted failed : Bool) :
    ∃ stage', Part s cs f stage (Machine.visit c (.finish interrupted) failed) stage' ∧
      Scene s cs f (Function.update p c .finished) x stage' := by
  have other : s ≠ c := fun same => apart (same ▸ child)
  have others : ∀ d ∈ cs, d ≠ c → Function.update p c .finished d = p d := fun d _ other =>
    Function.update_of_ne other ..
  cases scene with
  | @off i atRest stands still =>
      cases atRest with
      | true => exact absurd runs (still rfl c child)
      | false =>
          refine ⟨_, .stray child, .off ?_ fun rest => by cases rest⟩
          rwa [Function.update_of_ne other]
  | @on k plays runs' upTo first playing closed =>
      obtain ⟨rfl, current⟩ := (playing c child).mp runs
      have positive : 0 < k := first.resolve_right fun none => List.ne_nil_of_mem child none.1
      obtain ⟨k, rfl⟩ := Nat.exists_eq_succ_of_ne_zero positive.ne'
      refine ⟨_, .ends current, .on ?_ upTo (.inl positive) (fun d member => ?_)
        fun _ d now => ?_⟩
      · rwa [Function.update_of_ne other]
      · by_cases same : d = c
        · simp [same]
        · rw [others d member same, playing d member]
          have last : cs[k.succ - 1]? ≠ some d := fun now =>
            same (Option.some.inj (now.symm.trans current))
          exact ⟨fun now => absurd now.2 last, fun now => by cases now.1⟩
      · rw [current] at now
        rw [← Option.some.inj now, Function.update_self]

/-- Whatever happens to the children, the series goes on by its parts. -/
theorem Scene.disturbed (scene : Scene s cs f p x stage) (apart : s ∉ cs)
    (disturbs : Disturbs s cs p log p') :
    ∃ stage', Parts s cs f stage log stage' ∧ Scene s cs f p' x stage' := by
  induction disturbs generalizing stage with
  | still own same => exact ⟨stage, .nil, scene.same own same⟩
  | ends child runs later ih =>
      obtain ⟨stage₁, part, scene₁⟩ := scene.ends apart child runs _ _
      obtain ⟨stage', parts, scene'⟩ := ih scene₁
      exact ⟨stage', part.parts.trans parts, scene'⟩

theorem Scene.undisturbed {k : Nat} (scene : Scene s cs f p x (.on k false))
    (disturbs : Disturbs s cs p log p') : log = [] ∧ Scene s cs f p' x (.on k false) := by
  cases disturbs with
  | still own same => exact ⟨rfl, scene.same own same⟩
  | ends child runs _ =>
      cases scene with
      | on _ _ _ playing _ => cases ((playing _ child).mp runs).1

/-! ### What shows of it -/

theorem plot_finish {a : ActionId} (other : a ≠ s) (interrupted failed : Bool) :
    plot s cs f (Machine.visit a (.finish interrupted) failed) =
      if a ∈ cs then Machine.visit a (.finish interrupted) failed else [] := by
  by_cases child : a ∈ cs <;> simp [plot, Machine.visit, concerns, other, child]

theorem disturbs_end {a : ActionId} (other : a ≠ s) (ends interrupted failed : Bool)
    (ran : ends = true → p a = .running) (own : p' s = p s)
    (phases : ∀ c ∈ cs, p' c = if ends = true ∧ c = a then .finished else p c) :
    Disturbs s cs p (plot s cs f
      (if ends then Machine.visit a (.finish interrupted) failed else [])) p' := by
  cases ends with
  | false => exact .still own fun c child => by simp [phases c child]
  | true =>
      rw [if_pos rfl, plot_finish other]
      by_cases child : a ∈ cs
      · rw [if_pos child, ← List.append_nil (Machine.visit ..)]
        refine .ends child (ran rfl) (.still ?_ fun c member => ?_)
        · rw [Function.update_of_ne other.symm, own]
        · rw [phases c member]
          by_cases same : c = a <;> simp [same]
      · rw [if_neg child]
        refine .still own fun c member => ?_
        have apart : c ≠ a := fun same => child (same ▸ member)
        simp [phases c member, apart]

theorem disturbs_finishes (os : List ActionId) (distinct : os.Nodup) (apart : s ∉ os)
    (ran : ∀ o ∈ os, p o = .running) (failed : ActionId → Bool) (own : p' s = p s)
    (phases : ∀ c ∈ cs, p' c = if c ∈ os then .finished else p c) :
    Disturbs s cs p (plot s cs f
      (os.flatMap fun o => Machine.visit o (.finish true) (failed o))) p' := by
  induction os generalizing p with
  | nil => exact .still own fun c child => by simp [phases c child]
  | cons o os ih =>
      obtain ⟨new, distinct⟩ := List.nodup_cons.mp distinct
      obtain ⟨other, apart⟩ := List.ne_and_not_mem_of_not_mem_cons apart
      rw [List.flatMap_cons, plot_append, plot_finish other.symm]
      by_cases child : o ∈ cs
      · rw [if_pos child]
        refine .ends child (ran o List.mem_cons_self) (ih distinct apart (fun b later => ?_) ?_
          fun c member => ?_)
        · have apart : b ≠ o := fun same => new (same ▸ later)
          rw [Function.update_of_ne apart]
          exact ran b (List.mem_cons_of_mem _ later)
        · rw [Function.update_of_ne other, own]
        · rw [phases c member]
          by_cases same : c = o <;> simp [same]
      · rw [if_neg child, List.nil_append]
        refine ih distinct apart (fun b later => ran b (List.mem_cons_of_mem _ later)) own
          fun c member => ?_
        have apart : c ≠ o := fun same => child (same ▸ member)
        simp [phases c member, apart]

end Series

namespace Machine

open Series

variable {h : Host ε Ω σ} {s : ActionId} {cs : List ActionId} {f : Option ActionId}
  {score : σ → Option Series} {read : σ → Series} {write : Series → σ → σ}
  {m m' : Machine ε Ω σ} {rest : List (Task ε Ω σ)} {a : ActionId} {stage stage' stage'' : Stage}
  {log log' : List Note} {t : ActionTable} {x : Series}

theorem Orderly.goes (orderly : m.Orderly) (goes : Goes h m log m') : m'.Orderly := by
  obtain ⟨n, rfl, -⟩ := goes
  clear log
  induction n generalizing m with
  | zero => exact orderly
  | succ n ih => exact ih orderly.step

/-- Between two tasks, at a stage of the series. -/
structure Poised (s : ActionId) (cs : List ActionId) (f : Option ActionId)
    (score : σ → Option Series) (m : Machine ε Ω σ) (stage : Stage) : Prop where
  orderly : m.Orderly
  outside : frames m.agenda = []
  /-- The series owns nothing. -/
  bare : ∀ d, m.table.owner d ≠ some s
  scene : ∃ x, score m.own = some x ∧ Scene s cs f m.table.phase x stage

theorem Poised.free (poised : Poised s cs f score m stage) (b : ActionId) : m.table.Free b :=
  poised.orderly.sound.free poised.outside b

/-- The manager goes from one stage of the series to another by its parts. -/
structure Leads (h : Host ε Ω σ) (s : ActionId) (cs : List ActionId) (f : Option ActionId)
    (score : σ → Option Series) (m : Machine ε Ω σ) (stage : Stage) (log : List Note)
    (m' : Machine ε Ω σ) (stage' : Stage) : Prop where
  goes : Goes h m log m'
  poised : Poised s cs f score m' stage'
  parts : Parts s cs f stage (plot s cs f log) stage'

theorem Leads.refl (poised : Poised s cs f score m stage) :
    Leads h s cs f score m stage [] m stage := ⟨.refl, poised, .nil⟩

theorem Leads.trans {m'' : Machine ε Ω σ} (first : Leads h s cs f score m stage log m' stage')
    (second : Leads h s cs f score m' stage' log' m'' stage'') :
    Leads h s cs f score m stage (log ++ log') m'' stage'' :=
  ⟨first.goes.trans second.goes, second.poised,
    plot_append log log' ▸ first.parts.trans second.parts⟩

theorem Orderly.leads (orderly : m.Orderly) (goes : Goes h m log m')
    (outside : frames m'.agenda = []) (agrees : t.Agrees m'.table) (known : score m'.own = some x)
    (bare : ∀ d, t.owner d ≠ some s) (scene : Scene s cs f t.phase x stage')
    (parts : Parts s cs f stage (plot s cs f log) stage') :
    Leads h s cs f score m stage log m' stage' := by
  refine ⟨goes, ⟨orderly.goes goes, outside, fun d => ?_, x, known, ?_⟩, parts⟩
  · rw [agrees.owner]
    exact bare d
  · rwa [show m'.table.phase = t.phase from funext agrees.phase]

theorem Reaches.leads (reaches : Reaches h score m log t x rest) (orderly : m.Orderly)
    (outside : frames rest = []) (bare : ∀ d, t.owner d ≠ some s)
    (scene : Scene s cs f t.phase x stage') (parts : Parts s cs f stage (plot s cs f log) stage') :
    ∃ m', m'.agenda = rest ∧ Leads h s cs f score m stage log m' stage' := by
  obtain ⟨m', goes, agenda, agrees, known⟩ := reaches
  exact ⟨m', agenda, orderly.leads goes (agenda ▸ outside) agrees known bare scene parts⟩

/-- The children may have ended meanwhile, but none begins, so the series stays where it waits. -/
theorem Poised.disturbed (poised : Poised s cs f score m stage) (apart : s ∉ cs)
    (comes : Comes h score m log t rest) (outside : frames rest = [])
    (bare : ∀ d, t.owner d ≠ some s)
    (disturbs : Disturbs s cs m.table.phase (plot s cs f log) t.phase) :
    ∃ m' stage', m'.agenda = rest ∧ Leads h s cs f score m stage log m' stage' ∧
      t.Agrees m'.table ∧ ∀ k, stage = .on k false → stage' = .on k false := by
  obtain ⟨x, known, scene⟩ := poised.scene
  obtain ⟨m', goes, agenda, agrees, own, -⟩ := comes
  have leads : ∀ {stage'}, Scene s cs f t.phase x stage' →
      Parts s cs f stage (plot s cs f log) stage' → Leads h s cs f score m stage log m' stage' :=
    poised.orderly.leads goes (agenda ▸ outside) agrees (own.trans known) bare
  by_cases waits : ∃ k, stage = .on k false
  · obtain ⟨k, rfl⟩ := waits
    obtain ⟨nothing, scene'⟩ := scene.undisturbed disturbs
    exact ⟨m', _, agenda, leads scene' (nothing ▸ .nil), agrees, fun _ same => same⟩
  · obtain ⟨stage', parts, scene'⟩ := scene.disturbed apart disturbs
    exact ⟨m', stage', agenda, leads scene' parts, agrees, fun k same => absurd ⟨k, same⟩ waits⟩

theorem phase_retiredIf (t : ActionTable) (a b : ActionId) (ended : Bool) :
    (retiredIf t a ended).phase b = if ended = true ∧ b = a then .finished else t.phase b := by
  cases ended with
  | false => simp [retiredIf]
  | true =>
      rw [retiredIf, if_pos rfl, ActionTable.phase_retire]
      simp [eq_comm]

theorem owner_retiredIf {t : ActionTable} (bare : ∀ d, t.owner d ≠ some s) (a : ActionId)
    (ended : Bool) (d : DeviceId) : (retiredIf t a ended).owner d ≠ some s := by
  cases ended with
  | false => exact bare d
  | true =>
      rw [retiredIf, if_pos rfl, ActionTable.owner_retire]
      exact fun owns => bare d (Option.filter_eq_some_iff.mp owns).1

theorem owner_started_ne {t : ActionTable} (bare : ∀ d, t.owner d ≠ some s) (other : a ≠ s)
    (ds : List DeviceId) (d : DeviceId) : (t.started a ds).owner d ≠ some s := by
  rw [Ne, ActionTable.owner_started]
  rintro (⟨_, self⟩ | ⟨_, owns, _⟩)
  · exact other self.symm
  · exact bare d owns

theorem not_holder {t : ActionTable} (bare : ∀ d, t.owner d ≠ some s) (ds : List DeviceId) :
    s ∉ t.holders a ds := fun held => by
  obtain ⟨-, -, d, -, owns⟩ := (ActionTable.mem_holders ..).mp held
  exact bare d owns

/-! ### What others do -/

theorem plot_working (log : List Note) (all : ∀ n ∈ log, working a n) :
    plot s cs f log = [] := by
  refine List.filter_eq_nil_iff.mpr fun n listed => ?_
  obtain ⟨cb, rfl | rfl, rfl | ⟨_, rfl⟩⟩ := all n listed <;> simp [concerns]

theorem Poised.ending (poised : Poised s cs f score m stage) (apart : s ∉ cs) (other : a ≠ s)
    {ended : Bool} (interrupted failed : Bool) (ran : ended = true → m.table.isRunning a = true)
    (comes : Comes h score m log (retiredIf m.table a ended) rest) (outside : frames rest = [])
    (shown : plot s cs f log =
      plot s cs f (if ended then visit a (.finish interrupted) failed else [])) :
    ∃ m' stage', m'.agenda = rest ∧ Leads h s cs f score m stage log m' stage' ∧
      (retiredIf m.table a ended).Agrees m'.table ∧
      ∀ k, stage = .on k false → stage' = .on k false := by
  refine poised.disturbed apart comes outside (owner_retiredIf poised.bare a ended) ?_
  rw [shown]
  refine disturbs_end other ended interrupted failed (fun ends => ?_) ?_ fun c _ => ?_
  · exact (ActionTable.isRunning_iff ..).mp (ran ends)
  · simp [phase_retiredIf, other.symm]
  · exact phase_retiredIf ..

/-- The turn of another action: nothing that did not run before runs after it. -/
theorem Poised.turn (poised : Poised s cs f score m stage) (apart : s ∉ cs)
    (conducts : h.Conducts s score read write) (front : m.agenda = .turn a :: rest)
    (outside : frames rest = []) (other : a ≠ s) :
    ∃ log m' stage', m'.agenda = rest ∧ Leads h s cs f score m stage log m' stage' ∧
      (∀ b, m'.table.isRunning b = true → m.table.isRunning b = true) ∧
      ∀ k, stage = .on k false → stage' = .on k false := by
  obtain ⟨log, ended, all, ran, comes⟩ :=
    comes_turn (conducts.tame a other) front (poised.free a)
  have shown : plot s cs f (log ++ Machine.ending a ended) =
      plot s cs f (if ended.isSome then
        visit a (.finish (ended.any (·.1))) (ended.any (·.2)) else []) := by
    rw [plot_append, plot_working log all, List.nil_append]
    cases ended <;> rfl
  obtain ⟨m', stage', agenda, leads, agrees, stays⟩ :=
    poised.ending apart other _ _ ran comes outside shown
  refine ⟨_, m', stage', agenda, leads, fun b runs => ?_, stays⟩
  rw [ActionTable.isRunning_iff, agrees.phase, phase_retiredIf] at runs
  split at runs
  · cases runs
  · exact (ActionTable.isRunning_iff ..).mpr runs

theorem Poised.stop (poised : Poised s cs f score m stage) (apart : s ∉ cs)
    (conducts : h.Conducts s score read write) {next : Bool → Routine ε Ω σ}
    (front : m.agenda = .run (.ask (.stop a) next) :: rest) (outside : frames rest = [])
    (other : a ≠ s) :
    ∃ log m' stage', m'.agenda = .run (next (m.table.isRunning a)) :: rest ∧
      Leads h s cs f score m stage log m' stage' := by
  obtain ⟨failed, comes⟩ := comes_ask_stop front (conducts.tame a other) (poised.free a)
  have shown : plot s cs f (stopping (frames rest).head? a (m.table.isRunning a) failed) =
      plot s cs f (if m.table.isRunning a then visit a (.finish true) failed else []) := by
    rw [stopping, outside, ← List.singleton_append, plot_append]
    simp [plot, concerns, Request.cuts, other]
  obtain ⟨m', stage', agenda, leads, -, -⟩ := poised.ending apart other _ _ (fun runs => runs)
    comes outside shown
  exact ⟨_, m', stage', agenda, leads⟩

/-! ### Starts -/

theorem plot_starting (other : a ≠ s) (ds : List DeviceId) (holders : List ActionId)
    (runs restarted failed last : Bool) (finished : ActionId → Bool) :
    plot s cs f (starting a ds holders runs restarted finished failed last) =
      plot s cs f (if runs then visit a (.finish true) restarted else []) ++
        plot s cs f (holders.flatMap fun o => visit o (.finish true) (finished o)) ++
          ((if a ∈ cs ∨ f = some a then [.enters a .begin] else []) ++
            plot s cs f (if failed then visit a (.finish true) last else [])) := by
  have begins : plot s cs f (visit a .begin failed) =
      if a ∈ cs ∨ f = some a then [.enters a .begin] else [] := by
    by_cases known : a ∈ cs ∨ f = some a <;> simp [plot, visit, concerns, other, known]
  have needs : plot s cs f [.needs a ds] = [] := rfl
  rw [starting, beginning, ← List.singleton_append (l := List.flatMap _ _)]
  simp only [plot_append, begins, needs, List.nil_append, List.append_assoc]

theorem phase_begun (t : ActionTable) (a b : ActionId) (other : b ≠ a) (runs failed : Bool)
    (ds : List DeviceId) :
    (retiredIf ((retiredIf t a runs).started a ds) a failed).phase b =
      if b ∈ t.holders a ds.eraseDups then .finished else t.phase b := by
  simp [phase_retiredIf, ActionTable.phase_started, holders_retiredIf, other]

theorem owner_begun {t : ActionTable} (bare : ∀ d, t.owner d ≠ some s) (other : a ≠ s)
    (runs failed : Bool) (ds : List DeviceId) (d : DeviceId) :
    (retiredIf ((retiredIf t a runs).started a ds) a failed).owner d ≠ some s :=
  owner_retiredIf (owner_started_ne (owner_retiredIf bare a runs) other ds) a failed d

theorem Poised.start (poised : Poised s cs f score m stage) (apart : s ∉ cs)
    (conducts : h.Conducts s score read write) {restart : Bool} {next : Bool → Routine ε Ω σ}
    (front : m.agenda = .run (.ask (.start a restart) next) :: rest) (outside : frames rest = [])
    (other : a ≠ s) (stranger : a ∉ cs) :
    ∃ log m' stage' answer, m'.agenda = .run (next answer) :: rest ∧
      Leads h s cs f score m stage log m' stage' := by
  by_cases granted : m.table.isRunning a = true → restart = true
  · obtain ⟨ds, restarted, finished, failed, last, comes⟩ :=
      comes_ask_start front granted (conducts.tame a other) (poised.free a)
        (fun ds o held => ⟨poised.free o, conducts.tame o fun same =>
          not_holder poised.bare ds (same ▸ held)⟩)
        fun own _ => conducts.claims own a other
    obtain ⟨x, known, scene⟩ := poised.scene
    have ran : ∀ o ∈ m.table.holders a ds.eraseDups, m.table.phase o = .running := fun o held =>
      (poised.orderly.consistent.running_iff o).mpr ((ActionTable.mem_holders ..).mp held).2.1
    have disturbs := disturbs_finishes (f := f) (s := s)
      (m.table.holders a ds.eraseDups) (nodup_eraseDups _) (not_holder poised.bare _) ran finished
      ((phase_begun m.table a s other.symm (m.table.isRunning a) failed ds).trans
        (if_neg (not_holder poised.bare _)))
      fun c (child : c ∈ cs) =>
        phase_begun m.table a c (fun same => stranger (same ▸ child)) _ failed ds
    obtain ⟨stage', parts, scene'⟩ := scene.disturbed apart disturbs
    have begins : Parts s cs f stage' (if f = some a then [.enters a .begin] else []) stage' := by
      split
      · exact (Part.other ‹_› stranger).parts
      · exact .nil
    have shown : plot s cs f (.asks (frames rest).head? (.start a restart) true ::
        starting a ds (m.table.holders a ds.eraseDups) (m.table.isRunning a) restarted finished
          failed last) =
        plot s cs f ((m.table.holders a ds.eraseDups).flatMap
          fun o => visit o (.finish true) (finished o)) ++
            if f = some a then [.enters a .begin] else [] := by
      have quiet : ∀ (ended failed : Bool),
          plot s cs f (if ended then visit a (.finish true) failed else []) = [] := by
        intro ended failed
        cases ended with
        | false => rfl
        | true => rw [if_pos rfl, plot_finish other, if_neg stranger]
      rw [← List.singleton_append, plot_append, plot_starting other, quiet, quiet, outside]
      cases restart <;> simp [plot, concerns, Request.cuts, other, stranger]
    obtain ⟨m', agenda, leads⟩ := (comes.reaches known).leads poised.orderly outside
      (owner_begun poised.bare other _ failed ds) scene' (shown ▸ parts.trans begins)
    exact ⟨_, m', stage', true, agenda, leads⟩
  · obtain ⟨runs, rfl⟩ : m.table.isRunning a = true ∧ restart = false := by
      simpa using granted
    have shown : plot s cs f [.asks (frames rest).head? (.start a false) false] = [] := by
      simp [plot, concerns, outside]
    have disturbs : Disturbs s cs m.table.phase
        (plot s cs f [.asks (frames rest).head? (.start a false) false]) m.table.phase := by
      rw [shown]
      exact .still rfl fun _ _ => rfl
    obtain ⟨m', stage', agenda, leads, -, -⟩ := poised.disturbed apart (comes_refused front runs)
      outside poised.bare disturbs
    exact ⟨_, m', stage', false, agenda, leads⟩

end Machine

end RobotControl
