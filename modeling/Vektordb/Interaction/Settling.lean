import Vektordb.Interaction.Ghost

/-!
Pools that come to rest. Every run goes down in the tree of some program, so no schedule goes on for
ever. As long as all other threads are blocked the first one runs as if it were alone, and what a
program passes on to its continuations is true of a thread after any run.
-/

namespace Interaction

variable {S : Sig} {σ α β : Type} {h : Handler S σ}

/-! ### No schedule goes on for ever -/

/-- One of the programs has gone on. -/
inductive Shrinks : List (Prog S α) → List (Prog S α) → Prop
  | here {op : S.Op} {next : S.Res op → Prog S α} {rest : List (Prog S α)} (answer : S.Res op) :
      Shrinks (next answer :: rest) (.act op next :: rest)
  | later {p : Prog S α} {rest less : List (Prog S α)} (shrinks : Shrinks less rest) :
      Shrinks (p :: less) (p :: rest)

theorem shrinks_cons {rest : List (Prog S α)} (ends : Acc Shrinks rest) (p : Prog S α) :
    Acc Shrinks (p :: rest) := by
  induction ends generalizing p with
  | intro rest _ ends =>
      induction p with
      | ret value =>
          constructor
          rintro _ ⟨⟩
          rename_i less shrinks
          exact ends less shrinks _
      | spin =>
          constructor
          rintro _ ⟨⟩
          rename_i less shrinks
          exact ends less shrinks _
      | act op next ih =>
          constructor
          intro threads shrinks
          cases shrinks with
          | here answer => exact ih answer
          | later shrinks => exact ends _ shrinks _

theorem shrinks_acc (threads : List (Prog S α)) : Acc Shrinks threads := by
  induction threads with
  | nil => exact .intro [] nofun
  | cons p rest ih => exact shrinks_cons ih p

theorem shrinks_set {threads : List (Prog S α)} {agent : Nat} {op : S.Op}
    {next : S.Res op → Prog S α} (atAgent : threads[agent]? = some (.act op next))
    (answer : S.Res op) : Shrinks (threads.set agent (next answer)) threads := by
  induction threads generalizing agent with
  | nil => cases atAgent
  | cons p rest ih =>
      cases agent with
      | zero =>
          cases atAgent
          exact .here answer
      | succ agent => exact .later (ih atAgent)

namespace Pool

/-- Whatever has happened, some schedule leads to a pool in which no thread can go on. -/
theorem settles (h : Handler S σ) (pool : Pool S σ α) :
    ∃ schedule after, pool.runs h schedule = some after ∧ ∀ agent, after.step h agent = none := by
  obtain ⟨state, threads⟩ := pool
  induction shrinks_acc threads generalizing state with
  | intro threads _ ih =>
      by_cases still : ∀ agent, step h agent ⟨state, threads⟩ = none
      · exact ⟨[], _, rfl, still⟩
      · obtain ⟨agent, moves⟩ := not_forall.mp still
        obtain ⟨middle, stepped⟩ := Option.ne_none_iff_exists'.mp moves
        obtain ⟨op, next, t, answer, atAgent, -, rfl⟩ := step_cases stepped
        obtain ⟨schedule, after, ran, rest⟩ := ih _ (shrinks_set atAgent answer) t
        refine ⟨agent :: schedule, after, ?_, rest⟩
        rw [runs, stepped]
        exact ran

/-! ### What holds of a pool after any run -/

theorem runs_inv {inv : Pool S σ α → Prop}
    (step : ∀ agent pool after, pool.step h agent = some after → inv pool → inv after)
    {schedule : List Nat} {pool after : Pool S σ α} (ran : pool.runs h schedule = some after)
    (here : inv pool) : inv after := by
  induction schedule generalizing pool with
  | nil =>
      cases ran
      exact here
  | cons agent rest ih =>
      obtain ⟨middle, stepped, later⟩ := Option.bind_eq_some_iff.mp ran
      exact ih later (step agent pool middle stepped here)

/-- What every thread passes on to its continuations. -/
theorem step_threads {K : Nat → Prog S α → Prop}
    (passes : ∀ i op next answer, K i (.act op next) → K i (next answer)) {agent : Nat}
    {pool after : Pool S σ α} (stepped : pool.step h agent = some after)
    (each : ∀ i p, pool.threads[i]? = some p → K i p) :
    ∀ i p, after.threads[i]? = some p → K i p := by
  obtain ⟨op, next, t, answer, atAgent, -, rfl⟩ := step_cases stepped
  intro i p atThread
  by_cases same : agent = i
  · subst same
    rw [List.getElem?_set_self (List.getElem?_eq_some_iff.mp atAgent).1] at atThread
    cases atThread
    exact passes agent op next answer (each agent _ atAgent)
  · rw [List.getElem?_set_ne same] at atThread
    exact each i p atThread

theorem runs_threads {K : Nat → Prog S α → Prop}
    (passes : ∀ i op next answer, K i (.act op next) → K i (next answer)) {schedule : List Nat}
    {pool after : Pool S σ α} (ran : pool.runs h schedule = some after)
    (each : ∀ i p, pool.threads[i]? = some p → K i p) :
    ∀ i p, after.threads[i]? = some p → K i p :=
  runs_inv (fun _ _ _ stepped each => step_threads passes stepped each) ran each

theorem runs_only {φ : S.Op → Prop} {schedule : List Nat} {pool after : Pool S σ α}
    (ran : pool.runs h schedule = some after)
    (each : ∀ (i : Nat) (p : Prog S α), pool.threads[i]? = some p → p.Only φ) :
    ∀ (i : Nat) (p : Prog S α), after.threads[i]? = some p → p.Only φ :=
  runs_threads (K := fun _ p => Prog.Only φ p) (fun _ _ _ answer only => only.2 answer) ran each

end Pool

namespace Prog

/-- Every run is a run with a ledger. -/
theorem run_beside {γ : Type} {agent : Nat} {p : Prog S α} {s t : σ} {value : α}
    (ran : p.run h agent s = .done t value) (note : Notes S γ) (ledger : γ) :
    ∃ later, p.run (h.noting note) agent (s, ledger) = .done (t, later) value := by
  induction p generalizing s ledger with
  | ret other =>
      cases ran
      exact ⟨ledger, rfl⟩
  | spin => cases ran
  | act op next ih =>
      rw [run] at ran
      cases answered : h agent s op with
      | ok u answer =>
          rw [answered] at ran
          obtain ⟨later, done⟩ := ih answer ran (note agent ledger op answer)
          have noted : h.noting note agent (s, ledger) op =
              .ok (u, note agent ledger op answer) answer := Handler.noting_ok answered
          exact ⟨later, (run_act_ok noted next).trans done⟩
      | blocked => rw [answered] at ran; cases ran
      | fault => rw [answered] at ran; cases ran

theorem Only.mono {φ ψ : S.Op → Prop} {p : Prog S α} (only : p.Only φ)
    (weaker : ∀ op, φ op → ψ op) : p.Only ψ := by
  induction p with
  | ret value => trivial
  | spin => trivial
  | act op next ih => exact ⟨weaker op only.1, fun answer => ih answer (only.2 answer)⟩

/-- Every value that a program may return satisfies `ψ`. -/
def Returns (ψ : α → Prop) : Prog S α → Prop
  | .ret value => ψ value
  | .spin => True
  | .act _ next => ∀ answer, Returns ψ (next answer)

theorem Only.visits {φ : S.Op → Prop} {known : σ → Prop} {agent : Nat} {p q : Prog S α} {s t : σ}
    (only : p.Only φ)
    (acts : ∀ s t op answer, φ op → h agent s op = .ok t answer → known s → known t)
    (here : known s) (visited : p.Visits h agent s q t) : q.Only φ ∧ known t := by
  induction visited with
  | here => exact ⟨only, here⟩
  | next answered _ ih => exact ih (only.2 _) (acts _ _ _ _ only.1 answered here)

theorem Visits.bind_inv {agent : Nat} {p : Prog S α} {f : α → Prog S β} {q : Prog S β} {s t : σ}
    (visited : (p >>= f).Visits h agent s q t) :
    (∃ first, p.Visits h agent s first t ∧ q = (first >>= f)) ∨
      ∃ u value, p.run h agent s = .done u value ∧ (f value).Visits h agent u q t := by
  induction p generalizing s with
  | ret value => exact .inr ⟨s, value, rfl, visited⟩
  | spin =>
      cases visited
      exact .inl ⟨.spin, .here _ _, rfl⟩
  | act op next ih =>
      cases visited with
      | here => exact .inl ⟨.act op next, .here _ _, rfl⟩
      | next answered rest =>
          rcases ih _ rest with ⟨first, visited, rfl⟩ | ⟨u, value, ran, visited⟩
          · exact .inl ⟨first, .next answered visited, rfl⟩
          · exact .inr ⟨u, value, (run_act_ok answered next).trans ran, visited⟩

end Prog

/-! ### A thread that runs ahead -/

/-- While the other threads are blocked the first one is still in its first part, or it has gone
through that part as it does alone. -/
theorem Pool.front {p : Prog S β} {f : β → Prog S α} {others : List (Prog S α)} {idle : σ → Prop}
    {schedule : List Nat} {s : σ} {after : Pool S σ α}
    (blocked : ∀ t first agent, idle t → Pool.step h (agent + 1) ⟨t, first :: others⟩ = none)
    (waits : ∀ q t, p.Visits h 0 s q t → (∃ value, q = .ret value) ∨ idle t)
    (ran : Pool.runs h schedule ⟨s, (p >>= f) :: others⟩ = some after) :
    (∃ q t, idle t ∧ after = ⟨t, (q >>= f) :: others⟩) ∨
      ∃ t value rest, p.run h 0 s = .done t value ∧
        Pool.runs h rest ⟨t, f value :: others⟩ = some after := by
  induction schedule generalizing p s with
  | nil =>
      rcases waits p s (.here p s) with ⟨value, rfl⟩ | idle
      · exact .inr ⟨s, value, [], rfl, ran⟩
      · cases ran
        exact .inl ⟨p, s, idle, rfl⟩
  | cons agent rest ih =>
      rcases waits p s (.here p s) with ⟨value, rfl⟩ | idle
      · exact .inr ⟨s, value, agent :: rest, rfl, ran⟩
      obtain ⟨middle, stepped, later⟩ := Option.bind_eq_some_iff.mp ran
      cases agent with
      | succ agent =>
          rw [blocked s _ agent idle] at stepped
          cases stepped
      | zero =>
          cases p with
          | ret value => exact .inr ⟨s, value, 0 :: rest, rfl, ran⟩
          | spin => cases stepped
          | act op next =>
              obtain ⟨_, _, t, answer, atAgent, answered, rfl⟩ := Pool.step_cases stepped
              cases atAgent
              rcases ih (fun q u visited => waits q u (.next answered visited)) later with
                waiting | ⟨u, value, schedule, done, ran⟩
              · exact .inl waiting
              · exact .inr ⟨u, value, schedule, (Prog.run_act_ok answered next).trans done, ran⟩

end Interaction
