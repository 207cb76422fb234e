import RobotControl.Proofs.Action.Attempt
import RobotControl.Proofs.Action.Notes

/-!
# One look at the triggers

A look at the triggers drops the bindings whose target is gone, polls the others in turn, and then
starts the targets of those that fired, one after another.  No trigger that fails takes the start
of another one's target away, and neither does a callback; but an action that fails to say which
devices it needs ends the look, and the starts that were to come after its own are not attempted
(`Machine.triggers_polled`).
-/
set_option autoImplicit false

namespace RobotControl

variable {ε Ω σ : Type}

namespace Machine

variable {h : Host ε Ω σ} {m m' m'' : Machine ε Ω σ} {fired fired' bs : List Binding}
  {answers : List (Binding × Except Panic Bool)}

/-! ### Polling -/

/-- The target of a binding is still there: some that have fired keep theirs. -/
def targetAlive (h : Host ε Ω σ) (m : Machine ε Ω σ) (fired : List Binding) (b : Binding) : Bool :=
  h.isAlive (fired.map (·.target) ++ m.table.refers) m.own b.target

/-- The bindings are polled in turn, each once unless its target is gone by then: what they answer,
and those that have fired afterwards.  A trigger that fails is logged. -/
inductive Polls (h : Host ε Ω σ) : Machine ε Ω σ → List Binding → List Binding →
    List (Binding × Except Panic Bool) → Machine ε Ω σ → List Binding → Prop
  | done (m : Machine ε Ω σ) (fired : List Binding) : Polls h m fired [] [] m fired
  | passes {m m' : Machine ε Ω σ} {fired fired' bs : List Binding}
      {answers : List (Binding × Except Panic Bool)} (b : Binding)
      (gone : m.targetAlive h fired b = false) (later : Polls h m fired bs answers m' fired') :
      Polls h m fired (b :: bs) answers m' fired'
  | fires {m m' : Machine ε Ω σ} {fired fired' bs : List Binding}
      {answers : List (Binding × Except Panic Bool)} (b : Binding)
      (alive : m.targetAlive h fired b = true)
      (answer : (h.poll m.world m.own b.trigger).2 = .ok true)
      (later : Polls h { m with own := (h.poll m.world m.own b.trigger).1 } (fired ++ [b]) bs
        answers m' fired') :
      Polls h m fired (b :: bs) ((b, .ok true) :: answers) m' fired'
  | rests {m m' : Machine ε Ω σ} {fired fired' bs : List Binding}
      {answers : List (Binding × Except Panic Bool)} (b : Binding)
      (alive : m.targetAlive h fired b = true)
      (answer : (h.poll m.world m.own b.trigger).2 = .ok false)
      (later : Polls h { m with own := (h.poll m.world m.own b.trigger).1 } fired bs
        answers m' fired') :
      Polls h m fired (b :: bs) ((b, .ok false) :: answers) m' fired'
  | fails {m m' : Machine ε Ω σ} {fired fired' bs : List Binding}
      {answers : List (Binding × Except Panic Bool)} (b : Binding) (p : Panic)
      (alive : m.targetAlive h fired b = true)
      (answer : (h.poll m.world m.own b.trigger).2 = .error p)
      (later : Polls h
        { m with
          own := (h.poll m.world m.own b.trigger).1
          world :=
            h.log (triggerFailure (h.name (h.poll m.world m.own b.trigger).1 b.target) p) m.world }
        fired bs answers m' fired') :
      Polls h m fired (b :: bs) ((b, .error p) :: answers) m' fired'

theorem polls_pollAll (h : Host ε Ω σ) (m : Machine ε Ω σ) (fired bs : List Binding) :
    ∃ answers, Polls h m fired bs answers (m.pollAll h fired bs).1 (m.pollAll h fired bs).2 := by
  induction bs generalizing m fired with
  | nil => exact ⟨[], .done m fired⟩
  | cons b bs ih =>
      cases alive : m.targetAlive h fired b with
      | false =>
          have passed : m.pollOne h fired b = (m, fired) := if_neg (Bool.eq_false_iff.mp alive)
          obtain ⟨answers, later⟩ := ih m fired
          rw [pollAll, passed]
          exact ⟨answers, .passes b alive later⟩
      | true =>
          have polled : m.pollOne h fired b = _ := if_pos alive
          rw [pollAll, polled]
          cases answer : (h.poll m.world m.own b.trigger).2 with
          | error p =>
              simp only [answer]
              obtain ⟨answers, later⟩ := ih _ fired
              exact ⟨_, .fails b p alive answer later⟩
          | ok fires =>
              simp only [answer]
              cases fires with
              | true =>
                  obtain ⟨answers, later⟩ := ih _ (fired ++ [b])
                  exact ⟨_, .fires b alive answer later⟩
              | false =>
                  obtain ⟨answers, later⟩ := ih _ fired
                  exact ⟨_, .rests b alive answer later⟩

def hasFired : Except Panic Bool → Bool
  | .ok fires => fires
  | .error _ => false

namespace Polls

theorem sublist (polls : Polls h m fired bs answers m' fired') :
    (answers.map Prod.fst).Sublist bs := by
  induction polls with
  | done m fired => exact .slnil
  | passes b gone later ih => exact ih.cons b
  | fires b alive answer later ih => exact ih.cons_cons b
  | rests b alive answer later ih => exact ih.cons_cons b
  | fails b p alive answer later ih => exact ih.cons_cons b

theorem all_polled (polls : Polls h m fired bs answers m' fired')
    (stay : ∀ refs own, ∀ b ∈ bs, h.isAlive refs own b.target = true) :
    answers.map Prod.fst = bs := by
  induction polls with
  | done m fired => rfl
  | passes b gone later ih =>
      exact absurd (gone.symm.trans (stay _ _ b (List.mem_cons_self ..))) Bool.noConfusion
  | fires b alive answer later ih =>
      exact congrArg (b :: ·) (ih fun refs own x member => stay refs own x (.tail _ member))
  | rests b alive answer later ih =>
      exact congrArg (b :: ·) (ih fun refs own x member => stay refs own x (.tail _ member))
  | fails b p alive answer later ih =>
      exact congrArg (b :: ·) (ih fun refs own x member => stay refs own x (.tail _ member))

theorem fired_eq (polls : Polls h m fired bs answers m' fired') :
    fired' = fired ++ (answers.filter fun x => hasFired x.2).map Prod.fst := by
  induction polls with
  | done m fired => exact (List.append_nil fired).symm
  | passes b gone later ih => exact ih
  | fires b alive answer later ih =>
      rw [ih, List.append_assoc]
      rfl
  | rests b alive answer later ih => exact ih
  | fails b p alive answer later ih => exact ih

theorem recorded (polls : Polls h m fired bs answers m' fired') {record : σ → List TriggerId}
    (records : ∀ w own t, record (h.poll w own t).1 = record own ++ [t]) :
    record m'.own = record m.own ++ answers.map fun x => x.1.trigger := by
  induction polls with
  | done m fired => exact (List.append_nil _).symm
  | passes b gone later ih => exact ih
  | fires b alive answer later ih
  | rests b alive answer later ih
  | fails b p alive answer later ih =>
      rw [ih, records, List.append_assoc]
      rfl

theorem table (polls : Polls h m fired bs answers m' fired') : m'.table = m.table := by
  induction polls with
  | done m fired => rfl
  | passes b gone later ih => exact ih
  | fires b alive answer later ih => exact ih
  | rests b alive answer later ih => exact ih
  | fails b p alive answer later ih => exact ih

end Polls

/-! ### Starting -/

def startsOf (bs : List Binding) : List (Task ε Ω σ) :=
  bs.flatMap fun b => [.start b.target b.restart, .letGo [b.target]]

theorem startsOf_cons (b : Binding) (bs : List Binding) (foot : List (Task ε Ω σ)) :
    startsOf (b :: bs) ++ foot =
      .start b.target b.restart :: .letGo [b.target] :: (startsOf bs ++ foot) := rfl

/-- The start of a binding's target above what comes after it: it has not been looked at yet, the
run that it restarts is being finished, or the target is launched. -/
inductive Starting (b : Binding) (below : List (Task ε Ω σ)) : List (Task ε Ω σ) → Prop
  | asked : Starting b below (.start b.target b.restart :: .letGo [b.target] :: below)
  | finishing (above : List (Task ε Ω σ)) (enclosed : Enclosed above) :
      Starting b below (above ++ .launch b.target :: .letGo [b.target] :: below)
  | launched (above : List (Task ε Ω σ)) (enclosed : Enclosed above) :
      Starting b below (above ++ .letGo [b.target] :: below)

structure Refuses (h : Host ε Ω σ) (b : Binding) (below : List (Task ε Ω σ))
    (m : Machine ε Ω σ) (p : Panic) : Prop where
  front : m.agenda = .launch b.target :: .letGo [b.target] :: below
  demands : m.demands h b.target = .error p

theorem Refuses.needs {b : Binding} {below : List (Task ε Ω σ)} {p : Panic}
    (refuses : m.Refuses h b below p) :
    m.table.isBusy b.target = false ∧ (h.needs m.own b.target).2 = .error p :=
  demands_eq_error refuses.demands

/-- A start goes on above what comes after it, or it is over, or its target refuses. -/
theorem Starting.step {b : Binding} {below : List (Task ε Ω σ)} {tasks : List (Task ε Ω σ)}
    (starting : Starting b below tasks) (whole : m.agenda = tasks) :
    Starting b below (m.step h).agenda ∨ (m.step h).agenda = below ∨
      ∃ p, m.Refuses h b below p := by
  cases starting with
  | asked =>
      refine .inl ?_
      simp only [Machine.step, whole]
      split
      · split
        · exact .finishing [.invoke b.target (.finish true)] (by simp [Enclosed, Task.mayFail])
        · exact .launched [] trivial
      · exact .finishing [] trivial
  | finishing above enclosed =>
      by_cases none : above = []
      · subst none
        cases demands : m.demands h b.target with
        | error p => exact .inr (.inr ⟨p, whole, demands⟩)
        | ok ds =>
            refine .inl ?_
            have launches : ∃ above', (m.step h).agenda = above' ++ .letGo [b.target] :: below ∧
                Enclosed above' := by
              unfold Machine.demands at demands
              simp only [Machine.step, whole, List.nil_append, launch]
              split at demands
              · next busy =>
                  rw [if_pos busy]
                  obtain ⟨new, agenda, _, enclosed⟩ :=
                    stacks_seize Task.passes_all (m := m) b.target (m.table.claims b.target)
                  exact ⟨new, agenda, enclosed⟩
              · next free =>
                  rw [if_neg free]
                  simp only [demands]
                  obtain ⟨new, agenda, _, enclosed⟩ :=
                    stacks_seize Task.passes_all b.target ds.eraseDups
                  exact ⟨new, agenda, enclosed⟩
            obtain ⟨above', agenda, enclosed'⟩ := launches
            rw [agenda]
            exact .launched above' enclosed'
      · obtain ⟨above', agenda, stays⟩ := enclosed_step h whole none enclosed
        rw [agenda]
        exact .inl (.finishing above' stays)
  | launched above enclosed =>
      by_cases none : above = []
      · subst none
        refine .inr (.inl ?_)
        simp only [Machine.step, whole, List.nil_append]
      · obtain ⟨above', agenda, stays⟩ := enclosed_step h whole none enclosed
        rw [agenda]
        exact .inl (.launched above' stays)

/-- The starts of bindings are attempted in turn, each once the one before it is over: those that
are still to be attempted, and the machine that has come to them. -/
inductive Attempts (h : Host ε Ω σ) (foot : List (Task ε Ω σ)) (m : Machine ε Ω σ)
    (bs : List Binding) : List Binding → Machine ε Ω σ → Prop
  | first (front : m.agenda = startsOf bs ++ foot) : Attempts h foot m bs bs m
  | next {b : Binding} {todo : List Binding} {m' : Machine ε Ω σ} (n : Nat)
      (earlier : Attempts h foot m bs (b :: todo) m')
      (within : ∀ k < n, Starting b (startsOf todo ++ foot) (m'.steps h k).agenda)
      (ended : (m'.steps h n).agenda = startsOf todo ++ foot) :
      Attempts h foot m bs todo (m'.steps h n)

/-- How far the starts have got: one is under way, all have been attempted, or a target has refused
and the others are lost. -/
inductive Progress (h : Host ε Ω σ) (foot : List (Task ε Ω σ)) (m : Machine ε Ω σ)
    (bs : List Binding) : Machine ε Ω σ → Prop
  | underWay {b : Binding} {todo : List Binding} {m' : Machine ε Ω σ} (n : Nat)
      (attempts : Attempts h foot m bs (b :: todo) m')
      (within : ∀ k ≤ n, Starting b (startsOf todo ++ foot) (m'.steps h k).agenda) :
      Progress h foot m bs (m'.steps h n)
  | done {m' : Machine ε Ω σ} (attempts : Attempts h foot m bs [] m') (n : Nat) :
      Progress h foot m bs (m'.steps h n)
  | lost {b : Binding} {todo : List Binding} {m' t : Machine ε Ω σ} {p : Panic}
      (attempts : Attempts h foot m bs (b :: todo) m') (n : Nat) (reached : m'.steps h n = t)
      (refuses : t.Refuses h b (startsOf todo ++ foot) p) (k : Nat) :
      Progress h foot m bs ((t.step h).steps h k)

section Progress

variable {foot : List (Task ε Ω σ)}

theorem Attempts.front {todo : List Binding} (attempts : Attempts h foot m bs todo m') :
    m'.agenda = startsOf todo ++ foot := by
  cases attempts with
  | first front => exact front
  | next n earlier within ended => exact ended

/-- The machine that comes to the next start, or to the end of the starts. -/
theorem Attempts.progress {todo : List Binding} (attempts : Attempts h foot m bs todo m') :
    Progress h foot m bs m' := by
  cases todo with
  | nil => exact .done attempts 0
  | cons b todo =>
      refine .underWay 0 attempts fun k start => ?_
      obtain rfl := Nat.le_zero.mp start
      show Starting b _ m'.agenda
      rw [attempts.front, startsOf_cons]
      exact .asked

theorem steps_succ (n : Nat) (m : Machine ε Ω σ) : m.steps h (n + 1) = (m.steps h n).step h :=
  steps_add n 1 m

theorem Progress.step (progress : Progress h foot m bs m') : Progress h foot m bs (m'.step h) := by
  cases progress with
  | @underWay b todo m' n attempts within =>
      rw [← steps_succ]
      rcases (within n (Nat.le_refl n)).step (h := h) rfl with going | ended | ⟨p, refuses⟩
      · refine .underWay (n + 1) attempts fun k upTo => ?_
        rcases Nat.lt_or_ge n k with later | earlier
        · obtain rfl : k = n + 1 := by omega
          rw [steps_succ]
          exact going
        · exact within k earlier
      · rw [← steps_succ] at ended
        have attempted : Attempts h foot m bs todo (m'.steps h (n + 1)) :=
          .next (n + 1) attempts (fun k less => within k (by omega)) ended
        exact attempted.progress
      · rw [steps_succ]
        exact .lost attempts n rfl refuses 0
  | done attempts n =>
      rw [← steps_succ]
      exact .done attempts (n + 1)
  | lost attempts n reached refuses k =>
      rw [← steps_succ]
      exact .lost attempts n reached refuses (k + 1)

theorem progress_steps (front : m.agenda = startsOf bs ++ foot) (n : Nat) :
    Progress h foot m bs (m.steps h n) := by
  induction n with
  | zero => exact (Attempts.first front).progress
  | succ n ih =>
      rw [steps_succ]
      exact ih.step

end Progress

/-- The targets of starts that are dropped are not kept any longer. -/
def lettingGo (m : Machine ε Ω σ) (bs : List Binding) : Machine ε Ω σ :=
  { m with table := bs.foldl (fun t b => t.letGo [b.target]) m.table }

theorem unwind_startsOf (f : Failure) (bs : List Binding) (foot : List (Task ε Ω σ))
    (m : Machine ε Ω σ) :
    m.unwind h f (startsOf bs ++ foot) = (m.lettingGo bs).unwind h f foot := by
  induction bs generalizing m with
  | nil => rfl
  | cons b bs ih => exact ih { m with table := m.table.letGo [b.target] }

/-- The panic of a target that refuses goes on to whoever asked for the look at the triggers; the
starts that were still to come are dropped. -/
theorem Refuses.step {b : Binding} {todo : List Binding} {next : Bool → Routine ε Ω σ}
    {rest : List (Task ε Ω σ)} {p : Panic}
    (refuses : m.Refuses h b (startsOf todo ++ .run (next true) :: rest) p) :
    m.step h =
      ({ m with own := (h.needs m.own b.target).1 }.lettingGo (b :: todo)).unwind h
        (.panic p) rest := by
  rw [step_of_refused refuses.front refuses.demands]
  exact unwind_startsOf (.panic p) (b :: todo) (.run (next true) :: rest)
    { m with own := (h.needs m.own b.target).1 }

/-- A look at the triggers.  The bindings whose target is gone are dropped, and their triggers with
them; the others are polled in their order, each once as long as its target is there.  Those whose
triggers answer that they fire have fired, in their order, whatever the other triggers do.  Then
their targets are started one after another, and whatever the callbacks do, the next start is
attempted as soon as the one before it is over.  Only a target that is not inside a callback and
fails to say what it needs ends the look: its panic goes on to whoever asked, and the starts after
its own are not attempted. -/
theorem triggers_polled (h : Host ε Ω σ) {next : Bool → Routine ε Ω σ} {rest : List (Task ε Ω σ)}
    (front : m.agenda = .run (.ask .poll next) :: rest) :
    let foot : List (Task ε Ω σ) := .run (next true) :: rest
    let alive : Binding → Bool := fun b => h.isAlive m.table.refers m.own b.target
    let kept := m.table.bindings.filter alive
    let gone := m.table.bindings.filter fun b => !alive b
    let cleared : Machine ε Ω σ :=
      { m with
        table := { m.table with bindings := kept }
        world := gone.foldl (fun w b => h.forget m.own b.trigger w) m.world }
    ∃ (answers : List (Binding × Except Panic Bool)) (polled : Machine ε Ω σ)
      (fired : List Binding),
      Polls h cleared [] kept answers polled fired ∧
      (answers.map Prod.fst).Sublist kept ∧
      ((∀ refs own, ∀ b ∈ kept, h.isAlive refs own b.target = true) →
        answers.map Prod.fst = kept) ∧
      (∀ record : σ → List TriggerId,
        (∀ w own t, record (h.poll w own t).1 = record own ++ [t]) →
          record (m.step h).own = record m.own ++ answers.map fun x => x.1.trigger) ∧
      (m.step h).table.bindings = kept ∧
      fired = (answers.filter fun x => hasFired x.2).map Prod.fst ∧
      (m.step h).agenda = startsOf fired ++ foot ∧
      (∀ n, Progress h foot (m.step h) fired ((m.step h).steps h n)) ∧
      ∀ (b : Binding) (todo : List Binding) (t : Machine ε Ω σ) (p : Panic),
        t.Refuses h b (startsOf todo ++ foot) p →
        t.table.isBusy b.target = false ∧ (h.needs t.own b.target).2 = .error p ∧
          t.step h = ({ t with own := (h.needs t.own b.target).1 }.lettingGo (b :: todo)).unwind h
            (.panic p) rest := by
  intro foot alive kept gone cleared
  obtain ⟨answers, polls⟩ := polls_pollAll h cleared [] kept
  have stepped : m.step h =
      ((cleared.pollAll h [] kept).1.holding
        ((cleared.pollAll h [] kept).2.map (·.target))).todo
          (startsOf (cleared.pollAll h [] kept).2 ++ foot) := by
    have looks : m.step h = m.pollTriggers h foot := by
      rw [Machine.step, front]
      rfl
    rw [looks, pollTriggers, List.partition_eq_filter_filter]
    rfl
  have agenda : (m.step h).agenda = startsOf (cleared.pollAll h [] kept).2 ++ foot := by
    rw [stepped]
    rfl
  refine ⟨answers, _, _, polls, polls.sublist, polls.all_polled, fun record records => ?_, ?_,
    polls.fired_eq, agenda, progress_steps agenda, fun b todo t p refuses => ?_⟩
  · rw [stepped]
    exact polls.recorded records
  · rw [stepped]
    exact congrArg ActionTable.bindings polls.table
  · exact ⟨refuses.needs.1, refuses.needs.2, refuses.step⟩

end Machine

/-- An application with a trigger that fails and others that fire, and with an action that fails to
say what it needs. -/
def Host.edgy : Host Empty Unit Unit :=
  { Host.plain (fun _ => []) fun _ _ => .skip with
    poll := fun _ own t => (own, if t = ⟨firstNumber⟩ then .error (.text "stuck") else .ok true)
    needs := fun own a => (own, if a = ⟨2⟩ then .error (.text "no list") else .ok []) }

/-- Three bindings, the first one to the trigger that fails, and then a look at the triggers. -/
def Host.edgy.looking (second third : ActionId) : Machine Empty Unit Unit :=
  let bound : List (Request × Nat) :=
    [(.bind third false, 3), (.bind second false, 3), (.bind ⟨1⟩ false, 3)]
  (Host.edgy.play bound).asked .poll

namespace Machine

/-- The trigger that fails does not take the other starts away. -/
theorem triggers_polled_edgy :
    ∃ (answers : List (Binding × Except Panic Bool)) (fired : List Binding),
      answers.map Prod.fst = (Host.edgy.looking ⟨3⟩ ⟨4⟩).table.bindings ∧
      fired = (answers.filter fun x => hasFired x.2).map Prod.fst ∧
      (∀ n, Progress Host.edgy [.run .skip] ((Host.edgy.looking ⟨3⟩ ⟨4⟩).step Host.edgy) fired
        (((Host.edgy.looking ⟨3⟩ ⟨4⟩).step Host.edgy).steps Host.edgy n)) ∧
      ((Host.edgy.looking ⟨3⟩ ⟨4⟩).steps Host.edgy 25).table.running = [⟨3⟩, ⟨4⟩] := by
  obtain ⟨answers, _, fired, _, _, all, _, _, fires, _, goes, _⟩ :=
    triggers_polled (m := Host.edgy.looking ⟨3⟩ ⟨4⟩) Host.edgy rfl
  exact ⟨answers, fired, all fun _ _ _ _ => rfl, fires, goes, by decide⟩

/-- The second and the third binding fire, but the target of the second one fails to say what it
needs, and the target of the third one is never started. -/
theorem edge_lost :
    (Host.edgy.looking ⟨2⟩ ⟨3⟩).table.bindings.length = 3 ∧
      (∀ own, (Host.edgy.poll () own ⟨firstNumber + 2⟩).2 = .ok true) ∧
      ((Host.edgy.looking ⟨2⟩ ⟨3⟩).steps Host.edgy 3).agenda = [] ∧
      ((Host.edgy.looking ⟨2⟩ ⟨3⟩).steps Host.edgy 3).unhandled = some (.panic (.text "no list")) ∧
      ((Host.edgy.looking ⟨2⟩ ⟨3⟩).steps Host.edgy 3).table.phase ⟨3⟩ = .idle :=
  ⟨by decide, fun _ => rfl, rfl, rfl, by decide⟩

end Machine

end RobotControl
