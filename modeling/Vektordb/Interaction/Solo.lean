import Vektordb.Interaction.Discipline

/-!
Programs that run alone. `Leads` is total correctness along a run: every action is answered,
every state in which the program acts satisfies a condition, and the run ends in the
postcondition. Whatever a run is stopped in is then known to satisfy the condition.
-/

namespace Interaction

variable {S T : Sig} {σ τ α β : Type}

namespace Prog

/-- Run alone from `s`, `p` returns with `post`, and each of its actions is performed in a state
with `during`. -/
def Leads (h : Handler S σ) (agent : Nat) (during : σ → S.Op → Prop) (post : σ → α → Prop) :
    Prog S α → σ → Prop
  | .ret value, s => post s value
  | .spin, _ => False
  | .act op next, s =>
      during s op ∧ ∃ t answer, h agent s op = .ok t answer ∧
        Leads h agent during post (next answer) t

namespace Leads

variable {h : Handler S σ} {agent : Nat} {during : σ → S.Op → Prop}

theorem ret {post : σ → α → Prop} {value : α} {s : σ} (holds : post s value) :
    (Prog.ret value).Leads h agent during post s := holds

theorem act {post : σ → α → Prop} {op : S.Op} {next : S.Res op → Prog S α} {s t : σ}
    {answer : S.Res op} (here : during s op) (answered : h agent s op = .ok t answer)
    (rest : (next answer).Leads h agent during post t) :
    (Prog.act op next).Leads h agent during post s := ⟨here, t, answer, answered, rest⟩

theorem mono {post post' : σ → α → Prop} {p : Prog S α} {s : σ}
    (leads : p.Leads h agent during post s) (weaker : ∀ t value, post t value → post' t value) :
    p.Leads h agent during post' s := by
  induction p generalizing s with
  | ret value => exact weaker s value leads
  | spin => exact leads
  | act op next ih =>
      obtain ⟨here, t, answer, answered, rest⟩ := leads
      exact ⟨here, t, answer, answered, ih answer rest⟩

theorem bind {mid : σ → α → Prop} {post : σ → β → Prop} {p : Prog S α} {f : α → Prog S β} {s : σ}
    (first : p.Leads h agent during mid s)
    (rest : ∀ t value, mid t value → (f value).Leads h agent during post t) :
    (p >>= f).Leads h agent during post s := by
  induction p generalizing s with
  | ret value => exact rest s value first
  | spin => exact first
  | act op next ih =>
      obtain ⟨here, t, answer, answered, later⟩ := first
      exact ⟨here, t, answer, answered, ih answer later⟩

theorem run_done {post : σ → α → Prop} {p : Prog S α} {s : σ}
    (leads : p.Leads h agent during post s) :
    ∃ t value, p.run h agent s = .done t value ∧ post t value := by
  induction p generalizing s with
  | ret value => exact ⟨s, value, rfl, leads⟩
  | spin => exact leads.elim
  | act op next ih =>
      obtain ⟨-, t, answer, answered, rest⟩ := leads
      rw [run_act_ok answered]
      exact ih answer rest

theorem run_post {post : σ → α → Prop} {p : Prog S α} {s t : σ} {value : α}
    (leads : p.Leads h agent during post s) (ran : p.run h agent s = .done t value) :
    post t value := by
  obtain ⟨t', value', done, holds⟩ := leads.run_done
  rw [ran] at done
  cases done
  exact holds

theorem visits {post : σ → α → Prop} {p q : Prog S α} {s t : σ}
    (leads : p.Leads h agent during post s) (visited : p.Visits h agent s q t) :
    q.Leads h agent during post t := by
  induction visited with
  | here => exact leads
  | next answered _ ih =>
      obtain ⟨-, u, answer, same, rest⟩ := leads
      rw [answered] at same
      cases same
      exact ih rest

theorem lift [Supports S T] {outer : Handler T τ} {inner : Handler S σ} {within : τ → T.Op → Prop}
    {place : σ → τ} {post : τ → α → Prop} {p : Prog S α} {s t : σ} {value : α}
    (step : ∀ {β : Type} s t (op : S.Op) answer (f : S.Res op → Prog T β) (final : τ → β → Prop),
      inner agent s op = .ok t answer →
      (f answer).Leads outer agent within final (place t) →
      (Supports.call op >>= f).Leads outer agent within final (place s))
    (ran : p.run inner agent s = .done t value) (holds : post (place t) value) :
    (p.lift T).Leads outer agent within post (place s) := by
  induction p generalizing s with
  | ret other =>
      simp only [run_ret, Outcome.done.injEq] at ran
      obtain ⟨rfl, rfl⟩ := ran
      exact holds
  | spin => cases ran
  | act op next ih =>
      simp only [run] at ran
      cases answered : inner agent s op with
      | ok u answer =>
          rw [answered] at ran
          exact step s u op answer _ post answered (ih answer ran)
      | blocked => rw [answered] at ran; cases ran
      | fault => rw [answered] at ran; cases ran

end Leads

end Prog

end Interaction
