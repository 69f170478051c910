import Vektordb.Interaction.Discipline

/-!
Ghost state and frames. A ledger beside the shared state notes what the answered actions were and
who performed them; no program reads it, so every run is also a run with a ledger. A frame is what
the actions of a program cannot touch, whatever their answers are.
-/

namespace Interaction

variable {S T : Sig} {σ γ α β : Type}

/-- How a ledger goes on when an action of an agent has been answered. -/
abbrev Notes (S : Sig) (γ : Type) := Nat → γ → (op : S.Op) → S.Res op → γ

/-- The same answers, and the ledger beside the state. -/
def Handler.noting (h : Handler S σ) (note : Notes S γ) : Handler S (σ × γ) :=
  fun agent s op =>
    match h agent s.1 op with
    | .ok t answer => .ok (t, note agent s.2 op answer) answer
    | .blocked => .blocked
    | .fault => .fault

variable {h : Handler S σ} {note : Notes S γ}

theorem Handler.noting_ok {agent : Nat} {s : σ × γ} {op : S.Op} {t : σ} {answer : S.Res op}
    (answered : h agent s.1 op = .ok t answer) :
    h.noting note agent s op = .ok (t, note agent s.2 op answer) answer := by
  simp only [Handler.noting, answered]

theorem Handler.noting_inv {agent : Nat} {s u : σ × γ} {op : S.Op} {answer : S.Res op}
    (answered : h.noting note agent s op = .ok u answer) :
    h agent s.1 op = .ok u.1 answer ∧ u.2 = note agent s.2 op answer := by
  simp only [Handler.noting] at answered
  cases inner : h agent s.1 op with
  | ok t value =>
      rw [inner] at answered
      cases answered
      exact ⟨rfl, rfl⟩
  | blocked => rw [inner] at answered; cases answered
  | fault => rw [inner] at answered; cases answered

namespace Pool

def beside (pool : Pool S σ α) (ledger : γ) : Pool S (σ × γ) α := ⟨(pool.state, ledger), pool.threads⟩

theorem step_beside {agent : Nat} {pool after : Pool S σ α}
    (stepped : pool.step h agent = some after) (note : Notes S γ) (ledger : γ) :
    ∃ later, (pool.beside ledger).step (h.noting note) agent = some (after.beside later) := by
  obtain ⟨op, next, t, answer, atAgent, answered, rfl⟩ := step_cases stepped
  refine ⟨note agent ledger op answer, ?_⟩
  have noted : h.noting note agent (pool.state, ledger) op =
      .ok (t, note agent ledger op answer) answer := Handler.noting_ok answered
  unfold step beside
  dsimp only
  rw [atAgent]
  dsimp only
  rw [noted]

/-- Every run is a run with a ledger. -/
theorem runs_beside {schedule : List Nat} {pool after : Pool S σ α}
    (ran : pool.runs h schedule = some after) (note : Notes S γ) (ledger : γ) :
    ∃ later, (pool.beside ledger).runs (h.noting note) schedule = some (after.beside later) := by
  induction schedule generalizing pool ledger with
  | nil =>
      cases ran
      exact ⟨ledger, rfl⟩
  | cons agent rest ih =>
      obtain ⟨middle, stepped, later⟩ := Option.bind_eq_some_iff.mp ran
      obtain ⟨noted, steppedBeside⟩ := step_beside stepped note ledger
      obtain ⟨final, ranBeside⟩ := ih later noted
      refine ⟨final, ?_⟩
      rw [runs, steppedBeside]
      exact ranBeside

theorem runs_length {schedule : List Nat} {pool after : Pool S σ α}
    (ran : pool.runs h schedule = some after) : after.threads.length = pool.threads.length := by
  induction schedule generalizing pool with
  | nil =>
      cases ran
      rfl
  | cons agent rest ih =>
      obtain ⟨middle, stepped, later⟩ := Option.bind_eq_some_iff.mp ran
      obtain ⟨op, next, t, answer, -, -, rfl⟩ := step_cases stepped
      rw [ih later]
      exact List.length_set

theorem runs_mem {schedule : List Nat} {pool after : Pool S σ α} {agent : Nat}
    (ran : pool.runs h schedule = some after) (acts : agent ∈ schedule) :
    agent < pool.threads.length := by
  induction schedule generalizing pool with
  | nil => cases acts
  | cons first rest ih =>
      obtain ⟨middle, stepped, later⟩ := Option.bind_eq_some_iff.mp ran
      obtain ⟨op, next, t, answer, atFirst, -, rfl⟩ := step_cases stepped
      rcases List.mem_cons.mp acts with rfl | among
      · exact (List.getElem?_eq_some_iff.mp atFirst).1
      · have inside := ih later among
        rwa [List.length_set] at inside

theorem runs_idle {schedule : List Nat} {pool after : Pool S σ α} {agent : Nat}
    (ran : pool.runs h schedule = some after) (idle : agent ∉ schedule) :
    after.threads[agent]? = pool.threads[agent]? := by
  induction schedule generalizing pool with
  | nil =>
      cases ran
      rfl
  | cons first rest ih =>
      obtain ⟨middle, stepped, later⟩ := Option.bind_eq_some_iff.mp ran
      obtain ⟨op, next, t, answer, -, -, rfl⟩ := step_cases stepped
      rw [ih later fun member => idle (List.mem_cons_of_mem first member)]
      apply List.getElem?_set_ne
      rintro rfl
      exact idle (List.mem_cons_self ..)

theorem step_forget {agent : Nat} {pool : Pool S σ α} {ledger : γ} {after : Pool S (σ × γ) α}
    (stepped : (pool.beside ledger).step (h.noting note) agent = some after) :
    pool.step h agent = some ⟨after.state.1, after.threads⟩ := by
  obtain ⟨op, next, t, answer, atAgent, answered, rfl⟩ := step_cases stepped
  obtain ⟨inner, -⟩ := Handler.noting_inv answered
  have atPool : pool.threads[agent]? = some (.act op next) := atAgent
  have done : h agent pool.state op = .ok t.1 answer := inner
  unfold step
  rw [atPool]
  dsimp only
  rw [done]
  rfl

/-- What a schedule promises about the states, it promises with a ledger beside them. -/
theorem Meets.beside {cond : Nat → σ → S.Op → Prop} {schedule : List Nat} {pool : Pool S σ α}
    (meets : pool.Meets h cond schedule) (note : Notes S γ) (ledger : γ) :
    (pool.beside ledger).Meets (h.noting note) (fun agent s op => cond agent s.1 op) schedule := by
  induction schedule generalizing pool ledger with
  | nil => trivial
  | cons agent rest ih =>
      refine ⟨meets.1, ?_⟩
      intro after stepped
      exact ih (meets.2 _ (step_forget stepped)) after.state.2

variable {d : Discipline S σ} {post : Nat → σ → α → Prop}

/-- A promise about the state alone is enough where the invariant, and what every step keeps, turn it
into the one that the threads need. -/
theorem Guarded.meets {cond : Nat → σ → S.Op → Prop} {known : σ → Prop} {schedule : List Nat}
    {pool : Pool S σ α} (guarded : pool.Guarded h d post) (meets : pool.Meets h cond schedule)
    (here : known pool.state)
    (keeps : ∀ agent s t, d.guar agent s t → known s → known t)
    (entails : ∀ agent s op, d.inv s → known s → cond agent s op → d.assumes agent s op) :
    pool.Meets h d.assumes schedule := by
  induction schedule generalizing pool with
  | nil => trivial
  | cons agent rest ih =>
      have assumed : ∀ op next, pool.threads[agent]? = some (.act op next) →
          d.assumes agent pool.state op := fun op next atAgent =>
        entails agent pool.state op guarded.inv here (meets.1 op next atAgent)
      refine ⟨assumed, ?_⟩
      intro after stepped
      obtain ⟨next, guaranteed⟩ := guarded.step stepped assumed
      exact ih next (meets.2 after stepped) (keeps agent _ _ guaranteed here)

theorem Guarded.idle {agent : Nat} {schedule : List Nat} {pool after : Pool S σ α}
    (guarded : pool.Guarded h d post) (ran : pool.runs h schedule = some after)
    (assumed : pool.Meets h d.assumes schedule) (idle : agent ∉ schedule) :
    d.rely agent pool.state after.state := by
  induction schedule generalizing pool with
  | nil =>
      cases ran
      exact d.rely_refl agent _
  | cons other rest ih =>
      obtain ⟨middle, stepped, later⟩ := Option.bind_eq_some_iff.mp ran
      obtain ⟨next, guaranteed⟩ := guarded.step stepped assumed.1
      have apart : other ≠ agent := fun same => idle (same ▸ List.mem_cons_self ..)
      have moved := d.guar_rely apart guarded.inv next.inv guaranteed
      have rest := ih next later (assumed.2 middle stepped)
        fun member => idle (List.mem_cons_of_mem other member)
      exact d.rely_trans moved rest

end Pool

/-! ### Frames -/

namespace Prog

/-- Every action that a program may perform, whatever it is answered, satisfies `φ`. -/
def Only (φ : S.Op → Prop) : Prog S α → Prop
  | .ret _ => True
  | .spin => True
  | .act op next => φ op ∧ ∀ answer, Only φ (next answer)

theorem Only.bind {φ : S.Op → Prop} {p : Prog S α} {f : α → Prog S β} (only : p.Only φ)
    (rest : ∀ value, (f value).Only φ) : (p >>= f).Only φ := by
  induction p with
  | ret value => exact rest value
  | spin => trivial
  | act op next ih => exact ⟨only.1, fun answer => ih answer (only.2 answer)⟩

theorem Only.lift [Supports S T] {φ : T.Op → Prop}
    (calls : ∀ op, (Supports.call (S := S) op : Prog T _).Only φ) (p : Prog S α) :
    (p.lift T).Only φ := by
  induction p with
  | ret value => trivial
  | spin => trivial
  | act op next ih => exact (calls op).bind fun answer => ih answer

end Prog

/-- What neither the others nor the actions of a program disturb still holds where it returns. -/
theorem Secure.frame {h : Handler S σ} {d : Discipline S σ} {agent : Nat} {φ : S.Op → Prop}
    {frame : σ → Prop} {post : σ → α → Prop} {p : Prog S α} {s : σ}
    (secure : Secure h d agent post p s) (only : p.Only φ) (here : frame s)
    (stable : ∀ t u, d.rely agent t u → d.inv u → frame t → frame u)
    (acts : ∀ t u op answer, φ op → frame t → h agent t op = .ok u answer → frame u) :
    Secure h d agent (fun t value => post t value ∧ frame t) p s := by
  induction p generalizing s with
  | ret value =>
      intro t moved kept
      exact ⟨secure t moved kept, stable s t moved kept here⟩
  | spin => exact secure
  | act op next ih =>
      intro t moved kept assumed
      obtain ⟨safe, steps⟩ := secure t moved kept assumed
      refine ⟨safe, ?_⟩
      intro u answer answered
      obtain ⟨keptAfter, guaranteed, rest⟩ := steps u answer answered
      refine ⟨keptAfter, guaranteed, ?_⟩
      exact ih answer rest (only.2 answer)
        (acts t u op answer only.1 (stable s t moved kept here) answered)

end Interaction
