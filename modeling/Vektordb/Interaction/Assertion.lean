import Vektordb.Interaction.Discipline

/-!
Stable assertions. What an agent knows between two of its actions has to survive whatever the others
may do meanwhile; an action then leads from a stable assertion to one for each of its answers.
-/

namespace Interaction

variable {S : Sig} {σ α β : Type} {h : Handler S σ} {d : Discipline S σ} {agent : Nat}

/-- An assertion that the others cannot invalidate. -/
def Discipline.Stable (d : Discipline S σ) (agent : Nat) (known : σ → Prop) : Prop :=
  ∀ s t, d.rely agent s t → d.inv t → known s → known t

/-- In every state in which the assertion holds, the action is safe and leads to the other one. -/
def Does (h : Handler S σ) (d : Discipline S σ) (agent : Nat) (op : S.Op) (known : σ → Prop)
    (post : σ → S.Res op → Prop) : Prop :=
  ∀ t, d.inv t → d.assumes agent t op → known t → d.safe agent t op ∧
    ∀ u answer, h agent t op = .ok u answer → d.inv u ∧ d.guar agent t u ∧ post u answer

theorem Does.secure {op : S.Op} {known : σ → Prop} {post : σ → S.Res op → Prop} {s : σ}
    (does : Does h d agent op known post) (stable : d.Stable agent known)
    (after : ∀ answer, d.Stable agent fun t => post t answer) (here : known s) :
    Secure h d agent post (Prog.perform op) s := by
  intro t moved kept assumed
  obtain ⟨safe, steps⟩ := does t kept assumed (stable s t moved kept here)
  refine ⟨safe, ?_⟩
  intro u answer answered
  obtain ⟨keptAfter, guaranteed, holds⟩ := steps u answer answered
  refine ⟨keptAfter, guaranteed, ?_⟩
  intro v later keptLater
  exact after answer u v later keptLater holds

theorem Does.weaken {op : S.Op} {known known' : σ → Prop} {post post' : σ → S.Res op → Prop}
    (does : Does h d agent op known post) (stronger : ∀ t, d.inv t → known' t → known t)
    (weaker : ∀ t answer, d.inv t → post t answer → post' t answer) :
    Does h d agent op known' post' := by
  intro t kept assumed holds
  obtain ⟨safe, steps⟩ := does t kept assumed (stronger t kept holds)
  refine ⟨safe, ?_⟩
  intro u answer answered
  obtain ⟨keptAfter, guaranteed, after⟩ := steps u answer answered
  exact ⟨keptAfter, guaranteed, weaker u answer keptAfter after⟩

theorem Does.also {op : S.Op} {known : σ → Prop} {post other : σ → S.Res op → Prop}
    (does : Does h d agent op known post)
    (acts : ∀ t u answer, d.inv t → known t → h agent t op = .ok u answer → other u answer) :
    Does h d agent op known fun t answer => post t answer ∧ other t answer := by
  intro t kept assumed holds
  obtain ⟨safe, steps⟩ := does t kept assumed holds
  refine ⟨safe, ?_⟩
  intro u answer answered
  obtain ⟨keptAfter, guaranteed, after⟩ := steps u answer answered
  exact ⟨keptAfter, guaranteed, after, acts t u answer kept holds answered⟩

/-- What an action does not touch holds after it. -/
theorem Does.frame {op : S.Op} {known frame : σ → Prop} {post : σ → S.Res op → Prop}
    (does : Does h d agent op known post)
    (acts : ∀ t u answer, h agent t op = .ok u answer → frame t → frame u) :
    Does h d agent op (fun t => known t ∧ frame t) fun t answer => post t answer ∧ frame t := by
  rintro t kept assumed ⟨holds, framed⟩
  obtain ⟨safe, steps⟩ := does t kept assumed holds
  refine ⟨safe, ?_⟩
  intro u answer answered
  obtain ⟨keptAfter, guaranteed, after⟩ := steps u answer answered
  exact ⟨keptAfter, guaranteed, after, acts t u answer answered framed⟩

namespace Discipline.Stable

variable {known other : σ → Prop}

theorem and (first : d.Stable agent known) (second : d.Stable agent other) :
    d.Stable agent fun s => known s ∧ other s := by
  intro s t moved kept holds
  exact ⟨first s t moved kept holds.1, second s t moved kept holds.2⟩

end Discipline.Stable

/-! ### Partial correctness -/

/-- The same discipline for programs whose loops may use up their bound. -/
def Discipline.loose (d : Discipline S σ) : Discipline S σ := { d with mayStop := True }

theorem Secure.loosen {post : σ → α → Prop} {p : Prog S α} {s : σ}
    (secure : Secure h d agent post p s) : Secure h d.loose agent post p s := by
  induction p generalizing s with
  | ret value => exact secure
  | spin => trivial
  | act op next ih =>
      intro t moved kept assumed
      obtain ⟨safe, steps⟩ := secure t moved kept assumed
      refine ⟨safe, ?_⟩
      intro u answer answered
      obtain ⟨keptAfter, guaranteed, rest⟩ := steps u answer answered
      exact ⟨keptAfter, guaranteed, ih answer rest⟩

theorem Secure.both {post other : σ → α → Prop} {p : Prog S α} {s : σ}
    (secure : Secure h d agent post p s) (partially : Secure h d.loose agent other p s) :
    Secure h d agent (fun t value => post t value ∧ other t value) p s := by
  induction p generalizing s with
  | ret value => exact fun t moved kept => ⟨secure t moved kept, partially t moved kept⟩
  | spin => exact secure
  | act op next ih =>
      intro t moved kept assumed
      obtain ⟨safe, steps⟩ := secure t moved kept assumed
      obtain ⟨-, others⟩ := partially t moved kept assumed
      refine ⟨safe, ?_⟩
      intro u answer answered
      obtain ⟨keptAfter, guaranteed, rest⟩ := steps u answer answered
      obtain ⟨-, -, later⟩ := others u answer answered
      exact ⟨keptAfter, guaranteed, ih answer rest later⟩

end Interaction
