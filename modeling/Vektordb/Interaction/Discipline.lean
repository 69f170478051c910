import Vektordb.Interaction.Program

/-!
Rely-guarantee reasoning for programs that share a state. A discipline fixes the invariant
of the shared state, what every agent relies on between two of its own actions and what it
guarantees to the others. A program is secure when its own actions keep the invariant and the
guarantee from every state that the others may leave behind.
-/

namespace Interaction

variable {S T : Sig} {σ τ α β : Type}

/-- `assumes` is what a schedule promises about the states in which an agent acts, `safe` is
what the agent itself promises there, and `mayStop` allows loops to use up their bound. -/
structure Discipline (S : Sig) (σ : Type) where
  inv : σ → Prop
  rely : Nat → σ → σ → Prop
  guar : Nat → σ → σ → Prop
  assumes : Nat → σ → S.Op → Prop
  safe : Nat → σ → S.Op → Prop
  mayStop : Prop
  rely_refl : ∀ agent s, rely agent s s
  rely_trans : ∀ {agent s t u}, rely agent s t → rely agent t u → rely agent s u
  guar_rely : ∀ {i j s t}, i ≠ j → inv s → inv t → guar i s t → rely j s t

/-- `p`, about to act as `agent` in state `s` or in any state the others make of it. -/
def Secure (h : Handler S σ) (d : Discipline S σ) (agent : Nat) (post : σ → α → Prop) :
    Prog S α → σ → Prop
  | .ret value, s => ∀ t, d.rely agent s t → d.inv t → post t value
  | .spin, _ => d.mayStop
  | .act op next, s =>
      ∀ t, d.rely agent s t → d.inv t → d.assumes agent t op →
        d.safe agent t op ∧ ∀ u answer, h agent t op = .ok u answer →
          d.inv u ∧ d.guar agent t u ∧ Secure h d agent post (next answer) u

namespace Secure

variable {h : Handler S σ} {d : Discipline S σ} {agent : Nat}

theorem ret {post : σ → α → Prop} {value : α} {s : σ}
    (holds : ∀ t, d.rely agent s t → d.inv t → post t value) :
    Secure h d agent post (.ret value) s := holds

theorem act {post : σ → α → Prop} {op : S.Op} {next : S.Res op → Prog S α} {s : σ}
    (steps : ∀ t, d.rely agent s t → d.inv t → d.assumes agent t op →
      d.safe agent t op ∧ ∀ u answer, h agent t op = .ok u answer →
        d.inv u ∧ d.guar agent t u ∧ Secure h d agent post (next answer) u) :
    Secure h d agent post (.act op next) s := steps

theorem stable {post : σ → α → Prop} {p : Prog S α} {s t : σ}
    (secure : Secure h d agent post p s) (moved : d.rely agent s t) :
    Secure h d agent post p t := by
  cases p with
  | ret value => exact fun u later kept => secure u (d.rely_trans moved later) kept
  | spin => exact secure
  | act op next => exact fun u later kept => secure u (d.rely_trans moved later) kept

theorem mono {post post' : σ → α → Prop} {p : Prog S α} {s : σ}
    (secure : Secure h d agent post p s)
    (weaker : ∀ t value, d.inv t → post t value → post' t value) :
    Secure h d agent post' p s := by
  induction p generalizing s with
  | ret value => exact fun t moved kept => weaker t value kept (secure t moved kept)
  | spin => exact secure
  | act op next ih =>
      intro t moved kept assumed
      obtain ⟨safe, steps⟩ := secure t moved kept assumed
      refine ⟨safe, fun u answer answered => ?_⟩
      obtain ⟨keptAfter, guaranteed, rest⟩ := steps u answer answered
      exact ⟨keptAfter, guaranteed, ih answer rest⟩

theorem bind {post : σ → α → Prop} {post' : σ → β → Prop} {p : Prog S α}
    {f : α → Prog S β} {s : σ} (kept : d.inv s) (first : Secure h d agent post p s)
    (rest : ∀ t value, d.inv t → post t value → Secure h d agent post' (f value) t) :
    Secure h d agent post' (p >>= f) s := by
  induction p generalizing s with
  | ret value => exact rest s value kept (first s (d.rely_refl agent s) kept)
  | spin =>
      exact first
  | act op next ih =>
      intro t moved keptThere assumed
      obtain ⟨safe, steps⟩ := first t moved keptThere assumed
      refine ⟨safe, fun u answer answered => ?_⟩
      obtain ⟨keptAfter, guaranteed, later⟩ := steps u answer answered
      exact ⟨keptAfter, guaranteed, ih answer keptAfter later⟩

theorem perform_bind {post : σ → β → Prop} {op : S.Op} {f : S.Res op → Prog S β} {s : σ}
    (steps : ∀ t, d.rely agent s t → d.inv t → d.assumes agent t op →
      d.safe agent t op ∧ ∀ u answer, h agent t op = .ok u answer →
        d.inv u ∧ d.guar agent t u ∧ Secure h d agent post (f answer) u) :
    Secure h d agent post (Prog.perform op >>= f) s := steps

end Secure

/-! ### Running alone -/

/-- `φ` holds of every action that `p`, run alone from `s`, comes to perform. -/
def Prog.Along (h : Handler S σ) (agent : Nat) (φ : σ → S.Op → Prop) : Prog S α → σ → Prop
  | .ret _, _ => True
  | .spin, _ => True
  | .act op next, s =>
      φ s op ∧ ∀ t answer, h agent s op = .ok t answer → Along h agent φ (next answer) t

theorem Prog.Along.always {h : Handler S σ} {agent : Nat} {φ : σ → S.Op → Prop}
    (always : ∀ s op, φ s op) (p : Prog S α) (s : σ) : p.Along h agent φ s := by
  induction p generalizing s with
  | ret value => trivial
  | spin => trivial
  | act op next ih => exact ⟨always s op, fun t answer _ => ih answer t⟩

theorem Prog.Along.mono {h : Handler S σ} {agent : Nat} {φ ψ : σ → S.Op → Prop}
    {p : Prog S α} {s : σ} (along : p.Along h agent φ s) (weaker : ∀ t op, φ t op → ψ t op) :
    p.Along h agent ψ s := by
  induction p generalizing s with
  | ret value => trivial
  | spin => trivial
  | act op next ih =>
      exact ⟨weaker s op along.1, fun t answer answered => ih answer (along.2 t answer answered)⟩

/-- What every action of a run preserves holds at its end. -/
theorem Prog.Along.run_inv {h : Handler S σ} {agent : Nat} {φ : σ → S.Op → Prop} {inv : σ → Prop}
    {p : Prog S α} {s t : σ} {value : α} (along : p.Along h agent φ s)
    (step : ∀ {s t op answer}, φ s op → h agent s op = .ok t answer → inv s → inv t) (here : inv s)
    (ran : p.run h agent s = .done t value) : inv t := by
  induction p generalizing s with
  | ret other =>
      cases ran
      exact here
  | spin => cases ran
  | act op next ih =>
      rw [Prog.run] at ran
      cases answered : h agent s op with
      | ok u answer =>
          rw [answered] at ran
          exact ih answer (along.2 u answer answered) (step along.1 answered here) ran
      | blocked => rw [answered] at ran; cases ran
      | fault => rw [answered] at ran; cases ran

namespace Secure

variable {h : Handler S σ} {d : Discipline S σ} {agent : Nat}

theorem along {post : σ → α → Prop} {p : Prog S α} {s : σ}
    (secure : Secure h d agent post p s) (kept : d.inv s)
    (assumed : p.Along h agent (d.assumes agent) s) :
    p.Along h agent (fun t op => d.inv t ∧ d.safe agent t op) s := by
  induction p generalizing s with
  | ret value => trivial
  | spin => trivial
  | act op next ih =>
      obtain ⟨safe, steps⟩ := secure s (d.rely_refl agent s) kept assumed.1
      refine ⟨⟨kept, safe⟩, fun t answer answered => ?_⟩
      obtain ⟨keptAfter, -, rest⟩ := steps t answer answered
      exact ih answer rest keptAfter (assumed.2 t answer answered)

theorem visits {post : σ → α → Prop} {p q : Prog S α} {s t : σ}
    (secure : Secure h d agent post p s) (kept : d.inv s)
    (assumed : p.Along h agent (d.assumes agent) s) (visited : p.Visits h agent s q t) :
    d.inv t ∧ Secure h d agent post q t := by
  induction visited with
  | here => exact ⟨kept, secure⟩
  | next answered _ ih =>
      obtain ⟨-, steps⟩ := secure _ (d.rely_refl agent _) kept assumed.1
      obtain ⟨keptAfter, -, rest⟩ := steps _ _ answered
      exact ih rest keptAfter (assumed.2 _ _ answered)

theorem run_post {post : σ → α → Prop} {p : Prog S α} {s t : σ} {value : α}
    (secure : Secure h d agent post p s) (kept : d.inv s)
    (assumed : p.Along h agent (d.assumes agent) s)
    (finished : p.run h agent s = .done t value) : d.inv t ∧ post t value := by
  obtain ⟨keptAfter, final⟩ :=
    secure.visits kept assumed (Prog.run_done_visits finished)
  exact ⟨keptAfter, final t (d.rely_refl agent t) keptAfter⟩

theorem run_rel {r : σ → σ → Prop} (refl : ∀ a, r a a) (trans : ∀ {a b c}, r a b → r b c → r a c)
    (contains : ∀ {a b}, d.guar agent a b → r a b) {post : σ → α → Prop} {p : Prog S α} {s t : σ}
    {value : α} (secure : Secure h d agent post p s) (kept : d.inv s)
    (assumed : p.Along h agent (d.assumes agent) s)
    (finished : p.run h agent s = .done t value) : r s t := by
  induction p generalizing s with
  | ret other =>
      cases finished
      exact refl _
  | spin => cases finished
  | act op next ih =>
      obtain ⟨-, steps⟩ := secure s (d.rely_refl agent s) kept assumed.1
      rw [Prog.run] at finished
      cases answered : h agent s op with
      | ok u answer =>
          rw [answered] at finished
          obtain ⟨keptAfter, guaranteed, rest⟩ := steps u answer answered
          exact trans (contains guaranteed)
            (ih answer rest keptAfter (assumed.2 u answer answered) finished)
      | blocked => rw [answered] at finished; cases finished
      | fault => rw [answered] at finished; cases finished

/-- A secure program whose safe actions are always answered and whose loops never use up
their bound finishes. -/
theorem run_done {post : σ → α → Prop} {p : Prog S α} {s : σ}
    (secure : Secure h d agent post p s) (kept : d.inv s)
    (assumed : p.Along h agent (d.assumes agent) s) (bounded : ¬ d.mayStop)
    (answers : ∀ t op, d.inv t → d.safe agent t op → ∃ u answer, h agent t op = .ok u answer) :
    ∃ t value, p.run h agent s = .done t value ∧ d.inv t ∧ post t value := by
  induction p generalizing s with
  | ret value => exact ⟨s, value, rfl, kept, secure s (d.rely_refl agent s) kept⟩
  | spin => exact absurd secure bounded
  | act op next ih =>
      obtain ⟨safe, steps⟩ := secure s (d.rely_refl agent s) kept assumed.1
      obtain ⟨t, answer, answered⟩ := answers s op kept safe
      obtain ⟨keptAfter, -, rest⟩ := steps t answer answered
      rw [Prog.run_act_ok answered]
      exact ih answer rest keptAfter (assumed.2 t answer answered)

end Secure

theorem Prog.run_congr {h h' : Handler S σ} {agent : Nat} {p : Prog S α} {s : σ}
    (along : p.Along h agent (fun t op => h agent t op = h' agent t op) s) :
    p.run h agent s = p.run h' agent s := by
  induction p generalizing s with
  | ret value => rfl
  | spin => rfl
  | act op next ih =>
      simp only [run, ← along.1]
      cases answered : h agent s op with
      | ok t answer => exact ih answer (along.2 t answer answered)
      | blocked => rfl
      | fault => rfl

/-! ### Interleaved runs -/

structure Pool (S : Sig) (σ α : Type) where
  state : σ
  threads : List (Prog S α)

namespace Pool

def step (h : Handler S σ) (agent : Nat) (pool : Pool S σ α) : Option (Pool S σ α) :=
  match pool.threads[agent]? with
  | some (.act op next) =>
      match h agent pool.state op with
      | .ok t answer => some ⟨t, pool.threads.set agent (next answer)⟩
      | .blocked => none
      | .fault => none
  | _ => none

def runs (h : Handler S σ) : List Nat → Pool S σ α → Option (Pool S σ α)
  | [], pool => some pool
  | agent :: rest, pool => (pool.step h agent).bind (runs h rest)

/-- Every step of the schedule is taken in a state that satisfies `cond`. -/
def Meets (h : Handler S σ) (cond : Nat → σ → S.Op → Prop) : List Nat → Pool S σ α → Prop
  | [], _ => True
  | agent :: rest, pool =>
      (∀ op next, pool.threads[agent]? = some (.act op next) → cond agent pool.state op) ∧
        ∀ after, pool.step h agent = some after → Meets h cond rest after

instance Meets.decidable (h : Handler S σ) (cond : Nat → σ → S.Op → Prop)
    [∀ agent s op, Decidable (cond agent s op)] :
    (schedule : List Nat) → (pool : Pool S σ α) → Decidable (pool.Meets h cond schedule)
  | [], _ => .isTrue trivial
  | agent :: rest, pool =>
      have here : Decidable (∀ op next, pool.threads[agent]? = some (.act op next) →
          cond agent pool.state op) :=
        match atAgent : pool.threads[agent]? with
        | some (.act op _) => decidable_of_iff (cond agent pool.state op)
            ⟨fun holds _ _ same => by cases same; exact holds, fun all => all op _ rfl⟩
        | some (.ret _) => .isTrue fun _ _ same => by cases same
        | some .spin => .isTrue fun _ _ same => by cases same
        | none => .isTrue fun _ _ same => by cases same
      have later : Decidable (∀ after, pool.step h agent = some after →
          Meets h cond rest after) :=
        match pool.step h agent with
        | some after =>
            have := Meets.decidable h cond rest after
            decidable_of_iff (Meets h cond rest after)
              ⟨fun holds _ same => by cases same; exact holds, fun all => all after rfl⟩
        | none => .isTrue fun _ same => by cases same
      inferInstanceAs (Decidable (_ ∧ _))

theorem step_cases {h : Handler S σ} {agent : Nat} {pool after : Pool S σ α}
    (stepped : pool.step h agent = some after) :
    ∃ op next t answer, pool.threads[agent]? = some (.act op next) ∧
      h agent pool.state op = .ok t answer ∧
      after = ⟨t, pool.threads.set agent (next answer)⟩ := by
  unfold step at stepped
  split at stepped
  · rename_i op next atAgent
    split at stepped
    · rename_i t answer answered
      exact ⟨op, next, t, answer, atAgent, answered, (Option.some.inj stepped).symm⟩
    · cases stepped
    · cases stepped
  · cases stepped

theorem runs_append (h : Handler S σ) (first rest : List Nat) (pool : Pool S σ α) :
    pool.runs h (first ++ rest) = (pool.runs h first).bind (runs h rest) := by
  induction first generalizing pool with
  | nil => rfl
  | cons agent tail ih =>
      simp only [List.cons_append, runs]
      cases pool.step h agent with
      | none => rfl
      | some after => exact ih after

theorem Meets.always {h : Handler S σ} {cond : Nat → σ → S.Op → Prop}
    (always : ∀ agent s op, cond agent s op) (schedule : List Nat) (pool : Pool S σ α) :
    pool.Meets h cond schedule := by
  induction schedule generalizing pool with
  | nil => trivial
  | cons agent rest ih => exact ⟨fun op _ _ => always agent pool.state op, fun after _ => ih after⟩

/-- The invariant of interleaved runs: every thread is secure in the current state. -/
structure Guarded (h : Handler S σ) (d : Discipline S σ) (post : Nat → σ → α → Prop)
    (pool : Pool S σ α) : Prop where
  inv : d.inv pool.state
  secure : ∀ agent p, pool.threads[agent]? = some p →
    Secure h d agent (post agent) p pool.state

variable {h : Handler S σ} {d : Discipline S σ} {post : Nat → σ → α → Prop}

theorem Guarded.step {agent : Nat} {pool after : Pool S σ α} (guarded : pool.Guarded h d post)
    (stepped : pool.step h agent = some after)
    (assumed : ∀ op next, pool.threads[agent]? = some (.act op next) →
      d.assumes agent pool.state op) :
    after.Guarded h d post ∧ d.guar agent pool.state after.state := by
  obtain ⟨op, next, t, answer, atAgent, answered, rfl⟩ := step_cases stepped
  obtain ⟨-, steps⟩ := guarded.secure agent _ atAgent pool.state (d.rely_refl _ _) guarded.inv
    (assumed op next atAgent)
  obtain ⟨kept, guaranteed, rest⟩ := steps t answer answered
  refine ⟨⟨kept, fun other p atOther => ?_⟩, guaranteed⟩
  by_cases same : agent = other
  · subst same
    have bound : agent < pool.threads.length := by
      by_contra outside
      rw [List.getElem?_eq_none (by omega)] at atAgent
      cases atAgent
    rw [List.getElem?_set_self bound] at atOther
    cases atOther
    exact rest
  · rw [List.getElem?_set_ne same] at atOther
    exact (guarded.secure other p atOther).stable
      (d.guar_rely same guarded.inv kept guaranteed)

/-- Every state that a schedule reaches is guarded, if the schedule meets the assumptions. -/
theorem Guarded.runs {schedule : List Nat} {pool after : Pool S σ α}
    (guarded : pool.Guarded h d post) (ran : pool.runs h schedule = some after)
    (assumed : pool.Meets h d.assumes schedule) : after.Guarded h d post := by
  induction schedule generalizing pool with
  | nil =>
      cases ran
      exact guarded
  | cons agent rest ih =>
      simp only [Pool.runs] at ran
      cases stepped : pool.step h agent with
      | none => rw [stepped] at ran; cases ran
      | some middle =>
          rw [stepped] at ran
          exact ih (guarded.step stepped assumed.1).1 ran (assumed.2 middle stepped)

theorem Guarded.runs_rel {schedule : List Nat} {pool after : Pool S σ α} {r : σ → σ → Prop}
    (refl : ∀ s, r s s) (trans : ∀ s t u, r s t → r t u → r s u)
    (contains : ∀ agent s t, d.inv s → d.guar agent s t → r s t)
    (guarded : pool.Guarded h d post) (ran : pool.runs h schedule = some after)
    (assumed : pool.Meets h d.assumes schedule) : r pool.state after.state := by
  induction schedule generalizing pool with
  | nil =>
      cases ran
      exact refl _
  | cons agent rest ih =>
      simp only [Pool.runs] at ran
      cases stepped : pool.step h agent with
      | none => rw [stepped] at ran; cases ran
      | some middle =>
          rw [stepped] at ran
          obtain ⟨next, guaranteed⟩ := guarded.step stepped assumed.1
          exact trans _ _ _ (contains agent _ _ guarded.inv guaranteed)
            (ih next ran (assumed.2 middle stepped))

theorem Guarded.returned {agent : Nat} {pool : Pool S σ α} {value : α}
    (guarded : pool.Guarded h d post) (finished : pool.threads[agent]? = some (.ret value)) :
    post agent pool.state value :=
  guarded.secure agent _ finished pool.state (d.rely_refl _ _) guarded.inv

theorem Guarded.safe {agent : Nat} {pool : Pool S σ α} {op : S.Op} {next : S.Res op → Prog S α}
    (guarded : pool.Guarded h d post) (atAgent : pool.threads[agent]? = some (.act op next))
    (assumed : d.assumes agent pool.state op) : d.safe agent pool.state op :=
  (guarded.secure agent _ atAgent pool.state (d.rely_refl _ _) guarded.inv assumed).1

end Pool

end Interaction
