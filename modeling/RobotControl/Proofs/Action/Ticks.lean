import RobotControl.Proofs.Action.Code
import RobotControl.Proofs.Action.Work

/-!
# Ticks from outside

Where no code asks for a tick, an action is processed only when nothing else is under way: below
its turn there are only the turns of other actions and the end of the tick (`Paced`).
-/
set_option autoImplicit false

namespace RobotControl

variable {ε Ω σ : Type}

/-- Callbacks, and what effects run, never ask for a tick: ticks come from outside. -/
def Host.Tickless (h : Host ε Ω σ) : Prop :=
  h.Keeps (fun r => r ≠ .tick) (fun _ => True) fun _ => True

def Task.paces : Task ε Ω σ → Bool
  | .turn _ | .invoke _ .process | .serve _ .process => true
  | _ => false

theorem Task.paces_of_isCode (t : Task ε Ω σ) (code : t.isCode = true) : t.paces = false := by
  cases t <;> first | rfl | cases code

def Outer (tasks : List (Task ε Ω σ)) : Prop := ∀ x ∈ tasks, x.isCode = true ∨ ∃ a, x = .turn a

theorem Outer.isLight {tasks : List (Task ε Ω σ)} (outer : Outer tasks) :
    ∀ x ∈ tasks, x.isLight = true := by
  intro x member
  rcases outer x member with code | ⟨a, rfl⟩
  · exact x.isLight_of_isCode code
  · rfl

theorem Outer.frames {tasks : List (Task ε Ω σ)} (outer : Outer tasks) :
    frames tasks = [] := frames_of_isLight outer.isLight

/-- Where a tick processes actions. -/
structure Paced (table : ActionTable) (agenda : List (Task ε Ω σ)) : Prop where
  turn : ∀ front a rest, agenda = front ++ .turn a :: rest → Outer rest
  invoke : ∀ a rest, agenda = .invoke a .process :: rest → Outer rest
  serve : ∀ a rest, agenda = .serve a .process :: rest →
    table.owed a = [] ∧ ∃ below, rest = .drain a :: below ∧ Outer below
  owed : ∀ a, .process ∉ table.owed a

namespace Paced

theorem of_append {table table' : ActionTable} {agenda front new rest : List (Task ε Ω σ)}
    (paced : Paced table agenda) (framed : Framed agenda) (whole : agenda = front ++ rest)
    (nonempty : front ≠ []) (new_paces : ∀ x ∈ new, x.paces = false)
    (owed : ∀ a, .process ∈ table'.owed a → .process ∈ table.owed a) :
    Paced table' (new ++ rest) := by
  obtain ⟨first, more, rfl⟩ := List.exists_cons_of_ne_nil nonempty
  have steady : Steady rest := fun x behind =>
    (whole ▸ framed).steady x (List.mem_append_right more behind)
  have head : ∀ x below, new ++ rest = x :: below → x.paces = true → x.isFleeting = false := by
    intro x below same paces
    have member : x ∈ new ++ rest := same ▸ List.mem_cons_self ..
    rcases List.mem_append.mp member with early | late
    · rw [new_paces x early] at paces
      cases paces
    · exact steady x late
  refine ⟨fun front' a below same => ?_, fun a below same => ?_, fun a below same => ?_,
    fun a owes => paced.owed a (owed a owes)⟩
  · rcases List.append_eq_append_iff.mp same with ⟨early, rfl, behind⟩ | ⟨late, within, behind⟩
    · exact paced.turn (first :: more ++ early) a below (by rw [whole, behind]; simp)
    · cases late with
      | nil =>
          rw [List.nil_append] at behind
          exact paced.turn (first :: more) a below (whole.trans (by rw [behind]))
      | cons x late =>
          have here := new_paces (.turn a) (by
            rw [within]
            have := List.cons.inj behind
            exact List.mem_append_right _ (this.1 ▸ List.mem_cons_self ..))
          cases here
  · cases head _ _ same rfl
  · cases head _ _ same rfl

end Paced

namespace Machine

variable {h : Host ε Ω σ} {m : Machine ε Ω σ} {table : ActionTable} {agenda : List (Task ε Ω σ)}
  {past : List (Machine ε Ω σ)}

theorem paces_of_isCode {tasks : List (Task ε Ω σ)} (codes : ∀ x ∈ tasks, x.isCode = true) :
    ∀ x ∈ tasks, x.paces = false := fun x member => x.paces_of_isCode (codes x member)

/-- A move keeps the pace if ticks are asked for only when nothing else is to do. -/
theorem Move.paced (move : Move h m table agenda) (sound : Sound m.table m.agenda)
    (paced : Paced m.table m.agenda)
    (alone : ∀ next rest, m.agenda = .run (.ask .tick next) :: rest → rest = []) :
    Paced table agenda := by
  have plain : ∀ {f n rest : List (Task ε Ω σ)}, m.agenda = f ++ rest → f ≠ [] →
      agenda = n ++ rest → (∀ x ∈ n, x.paces = false) →
        (∀ a, .process ∈ table.owed a → .process ∈ m.table.owed a) → Paced table agenda :=
    fun whole nonempty same none owed =>
      same ▸ paced.of_append sound.framed whole nonempty none owed
  have kept : SameCalls m.table table → ∀ a, .process ∈ table.owed a → .process ∈ m.table.owed a :=
    fun same a owes => (same a).2 ▸ owes
  cases move with
  | idle front => exact ⟨by simp, by simp, by simp, paced.owed⟩
  | @code front new rest t _ whole codes fails newCodes alike quiet =>
      exact plain (f := front ++ [t]) (by simp [whole]) (by simp) rfl
        (paces_of_isCode newCodes) (kept (sameCalls_alike (fun _ => ⟨rfl, rfl⟩) alike))
  | drop whole some light alike quiet =>
      exact plain (n := []) whole some rfl (by simp)
        (kept (sameCalls_alike (fun _ => ⟨rfl, rfl⟩) alike))
  | @proceed front rest a whole codes some quiet =>
      exact plain (f := front ++ [.returned a .process]) (n := [_, _]) (by simp [whole])
        (by simp) rfl
        (by simp [Task.paces]) (kept fun _ => ⟨rfl, rfl⟩)
  | @ended front rest a cb _ interrupted whole codes some runs alike quiet =>
      exact plain (f := front ++ [.returned a cb]) (n := [_]) (by simp [whole]) (by simp) rfl
        (by simp [Task.paces]) (kept (sameCalls_alike (sameCalls_retireEach m.table [a]) alike))
  | @interrupt new rest t a _ whole fails notLaunch newCodes runs alike =>
      refine plain (f := [t]) (n := .invoke a (.finish true) :: new) whole (by simp) rfl
        (fun x member => ?_) (kept (sameCalls_alike (sameCalls_retireEach m.table [a]) alike))
      rcases List.mem_cons.mp member with rfl | code
      · rfl
      · exact x.paces_of_isCode (newCodes x code)
  | @stopAll new rest next _ whole newCodes alike =>
      refine plain (f := [_]) whole (by simp) (List.append_assoc ..).symm (fun x member => ?_)
        (kept (sameCalls_alike (sameCalls_retireEach m.table _) alike))
      rcases List.mem_append.mp member with finish | code
      · obtain ⟨a, _, rfl⟩ := List.mem_map.mp finish
        rfl
      · exact x.paces_of_isCode (newCodes x code)
  | @tick new rest next _ whole newCodes alike =>
      obtain rfl := alone next rest whole
      have outer : Outer (m.table.running.map .turn ++ (new ++ [])) := by
        intro x member
        rcases List.mem_append.mp member with turn | code
        · obtain ⟨a, _, rfl⟩ := List.mem_map.mp turn
          exact .inr ⟨a, rfl⟩
        · exact .inl (newCodes x (by simpa using code))
      have light : ∀ t rest, m.table.running.map .turn ++ (new ++ []) = t :: rest →
          t.isLight = true := fun t rest same => outer.isLight t (same ▸ List.mem_cons_self ..)
      refine ⟨fun front a rest same x behind => ?_, fun a rest same => ?_, fun a rest same => ?_,
        fun a owes => ?_⟩
      · exact outer x (same ▸ List.mem_append_right front (List.mem_cons_of_mem _ behind))
      · cases light _ _ same
      · cases light _ _ same
      · exact paced.owed a (alike.owed a ▸ owes)
  | @seize rest a ds claimed _ whole claims starts alike =>
      refine plain (f := [_]) whole (by simp) (List.append_cons ..) (fun x member => ?_)
        (kept (sameCalls_start claims alike))
      rcases List.mem_append.mp member with start | last
      · rcases List.mem_append.mp start with finish | succeed
        · obtain ⟨o, _, rfl⟩ := List.mem_map.mp finish
          rfl
        · rw [List.mem_singleton.mp succeed]
          rfl
      · rw [List.mem_singleton.mp last]
        rfl
  | succeedNow whole =>
      exact plain (f := [_]) (n := [_]) whole (by simp) rfl (by simp [Task.paces])
        (kept fun _ => ⟨rfl, rfl⟩)
  | @succeedLater rest a late whole others =>
      refine plain (f := [_]) (n := []) whole (by simp) rfl (by simp) fun b owes => ?_
      rw [ActionTable.owed_deferHandOver] at owes
      simpa using owes
  | @defer rest a d whole busy =>
      have other : d ≠ .process := by
        rintro rfl
        have outside := (paced.invoke a agenda whole).frames
        rw [sound.busy_iff, whole] at busy
        change a ∈ frames agenda at busy
        rw [outside] at busy
        cases busy
      refine plain (f := [_]) (n := []) whole (by simp) rfl (by simp) fun b owes => ?_
      rw [ActionTable.owed_defer] at owes
      by_cases self : a = b
      · simpa [self, other.symm] using owes
      · simpa [self] using owes
  | @enter rest a d whole free =>
      have owed := m.table.owed_enter a
      by_cases process : d = .process
      · subst process
        have outer := paced.invoke a rest whole
        refine ⟨fun front b below same x behind => ?_, fun b below same => ?_,
          fun b below same => ?_, fun b owes => paced.owed b (owed b ▸ owes)⟩
        · rcases front with _ | ⟨_, _ | ⟨_, front⟩⟩
          · cases same
          · cases same
          · have later := (List.cons.inj (List.cons.inj same).2).2
            exact outer x (later ▸ List.mem_append_right front (List.mem_cons_of_mem _ behind))
        · cases same
        · cases same
          exact ⟨(owed a).trans (sound.owed_eq_nil free), rest, rfl, outer⟩
      · refine plain (f := [_]) (n := [.serve a d, .drain a]) whole (by simp) rfl
          (fun x member => ?_) fun b owes => owed b ▸ owes
        simp only [List.mem_cons, List.not_mem_nil, or_false] at member
        rcases member with rfl | rfl
        · cases d <;> first | rfl | exact absurd rfl process
        · rfl
  | call whole enters =>
      exact plain (f := [_]) (n := [_, _]) whole (by simp) rfl (by simp [Task.paces])
        (kept fun _ => ⟨rfl, rfl⟩)
  | pass whole stands =>
      exact plain (f := [_]) (n := []) whole (by simp) rfl (by simp)
        (kept fun _ => ⟨rfl, rfl⟩)
  | wait whole reason =>
      exact plain (f := [_]) (n := []) whole (by simp) rfl (by simp)
        (kept fun _ => ⟨rfl, rfl⟩)
  | handOver whole last runs alike =>
      exact plain (f := [_]) (n := [_, _]) whole (by simp) rfl (by simp [Task.paces])
        (kept (sameCalls_alike (fun _ => ⟨rfl, rfl⟩) alike))
  | @leave _ a whole nothing =>
      refine plain (f := [_]) (n := []) whole (by simp) rfl (by simp) fun b owes => ?_
      rwa [ActionTable.owed_leave] at owes
  | @drain rest a d ds whole owed =>
      have other : d ≠ .process := fun same => paced.owed a (by rw [owed, same]; simp)
      refine plain (f := [_]) (n := [.serve a d, .drain a]) whole (by simp) rfl
        (fun x member => ?_) fun b owes => ?_
      · simp only [List.mem_cons, List.not_mem_nil, or_false] at member
        rcases member with rfl | rfl
        · cases d <;> first | rfl | exact absurd rfl other
        · rfl
      · rw [ActionTable.owed_setOwed] at owes
        by_cases self : a = b
        · rw [← self, owed]
          simp only [self, if_true] at owes
          exact List.mem_cons_of_mem _ owes
        · simpa [self] using owes
  | @turn rest a whole runs =>
      have outer := paced.turn [] a rest whole
      refine ⟨fun front b below same => ?_, fun b below same => ?_, fun b below same => ?_,
        paced.owed⟩
      · cases front with
        | nil => cases same
        | cons t more =>
            have behind := (List.cons.inj same).2
            exact paced.turn (.turn a :: more) b below (by rw [whole, behind]; rfl)
      · cases same
        exact outer
      · cases same

theorem Run.tickless (run : Run h m past) (tickless : h.Tickless) :
    Permitted (fun r => r ≠ .tick) (fun _ => True) m.agenda ∨
      m.agenda = [.run (.ask .tick fun _ => .skip)] := by
  induction run with
  | fresh w own => exact .inl fun x none => by cases none
  | ask r run idle ih =>
      by_cases tick : r = .tick
      · subst tick
        exact .inr rfl
      · exact .inl fun x member => List.mem_singleton.mp member ▸ ⟨tick, fun _ => trivial⟩
  | drift w own run ih => exact ih
  | @step m past run ih =>
      rcases ih with permitted | tick
      · exact .inl (Obeys.step tickless ⟨trivial, permitted⟩ fun _ _ _ _ _ => trivial).code
      · have code : Permitted (fun r => r ≠ .tick) (fun _ => True) ([] : List (Task ε Ω σ)) :=
          fun x none => by cases none
        have answers : ∀ b : Bool, ((fun _ => .skip : Bool → Routine ε Ω σ) b).Uses
            (fun r => r ≠ .tick) fun _ => True := fun _ => trivial
        have granted := Obeys.grant (m := m) tickless trivial code .tick answers
        refine .inl ?_
        simpa only [Machine.step, tick, runRoutine] using granted.code

theorem Run.paced (run : Run h m past) (tickless : h.Tickless) : Paced m.table m.agenda := by
  induction run with
  | fresh w own =>
      refine ⟨by simp, by simp, by simp, fun a => ?_⟩
      simp [ActionTable.owed, ActionTable.entry, Assoc.getD, Assoc.get?_empty]
  | @ask m past r run idle ih =>
      refine ⟨fun front a rest same => ?_, fun a rest same => ?_, fun a rest same => ?_, ih.owed⟩
      · have turn : .turn a ∈ (Machine.asked m r).agenda := same ▸ List.mem_append_right front
          (List.mem_cons_self ..)
        cases List.mem_singleton.mp turn
      · cases same
      · cases same
  | drift w own run ih => exact ih
  | @step m past run ih =>
      apply run.move.paced run.sound ih
      intro next rest front
      rcases run.tickless tickless with permitted | tick
      · have tick := permitted _ (front ▸ List.mem_cons_self ..)
        exact absurd rfl tick.1
      · rw [tick] at front
        cases front
        rfl

end Machine

end RobotControl
