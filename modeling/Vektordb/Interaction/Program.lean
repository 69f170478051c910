import Mathlib

/-!
Programs as trees of atomic actions. A program returns, has used up the bound of one of its
loops, or performs one action and continues with the answer. The same tree is run alone,
stopped between any two of its actions, or interleaved with other trees over a shared state.
-/

namespace Interaction

/-- The actions a program may perform and the type of the answer to each of them. -/
structure Sig where
  Op : Type
  Res : Op → Type

/-- `spin` is a loop that has used up its bound; it never takes another step. -/
inductive Prog (S : Sig) (α : Type) : Type where
  | ret (value : α)
  | spin
  | act (op : S.Op) (next : S.Res op → Prog S α)

/-- The answer of the environment to one action. A blocked action is retried later; a faulty
one is undefined behaviour or a panic of the program that performed it. -/
inductive Reply (σ ρ : Type) : Type where
  | ok (state : σ) (value : ρ)
  | blocked
  | fault

abbrev Handler (S : Sig) (σ : Type) := Nat → σ → (op : S.Op) → Reply σ (S.Res op)

inductive Outcome (σ α : Type) : Type where
  | done (state : σ) (value : α)
  | spun
  | blocked
  | faulted

variable {S T : Sig} {σ τ α β γ : Type}

def Outcome.answer : Outcome σ α → Option α
  | .done _ value => some value
  | _ => none

theorem Outcome.answer_some {outcome : Outcome σ α} {value : α}
    (returned : outcome.answer = some value) : ∃ s, outcome = .done s value := by
  cases outcome with
  | done s other =>
      cases returned
      exact ⟨s, rfl⟩
  | spun => cases returned
  | blocked => cases returned
  | faulted => cases returned

def Outcome.stateOr (outcome : Outcome σ α) (other : σ) : σ :=
  match outcome with
  | .done s _ => s
  | _ => other

theorem Outcome.done_stateOr {outcome : Outcome σ α} {value : α}
    (returned : outcome.answer = some value) (other : σ) :
    outcome = .done (outcome.stateOr other) value := by
  obtain ⟨s, rfl⟩ := Outcome.answer_some returned
  rfl

namespace Prog

def bind : Prog S α → (α → Prog S β) → Prog S β
  | .ret value, f => f value
  | .spin, _ => .spin
  | .act op next, f => .act op fun answer => bind (next answer) f

instance : Monad (Prog S) where
  pure := .ret
  bind := bind

@[simp] theorem pure_eq (value : α) : (pure value : Prog S α) = .ret value := rfl

@[simp] theorem ret_bind (value : α) (f : α → Prog S β) : (Prog.ret value >>= f) = f value := rfl

@[simp] theorem spin_bind (f : α → Prog S β) : ((Prog.spin : Prog S α) >>= f) = .spin := rfl

@[simp] theorem act_bind (op : S.Op) (next : S.Res op → Prog S α) (f : α → Prog S β) :
    (Prog.act op next >>= f) = .act op fun answer => next answer >>= f := rfl

theorem bind_assoc (p : Prog S α) (f : α → Prog S β) (g : β → Prog S γ) :
    (p >>= f >>= g) = (p >>= fun value => f value >>= g) := by
  induction p with
  | ret value => rfl
  | spin => rfl
  | act op next ih =>
      simp only [act_bind, act.injEq, heq_eq_eq, true_and]
      funext answer
      exact ih answer

theorem bind_ret (p : Prog S α) : (p >>= Prog.ret) = p := by
  induction p with
  | ret value => rfl
  | spin => rfl
  | act op next ih =>
      simp only [act_bind, act.injEq, heq_eq_eq, true_and]
      funext answer
      exact ih answer

def perform (op : S.Op) : Prog S (S.Res op) := .act op .ret

@[simp] theorem perform_bind (op : S.Op) (f : S.Res op → Prog S β) :
    (perform op >>= f) = .act op f := rfl

def run (h : Handler S σ) (agent : Nat) : Prog S α → σ → Outcome σ α
  | .ret value, s => .done s value
  | .spin, _ => .spun
  | .act op next, s =>
      match h agent s op with
      | .ok t answer => run h agent (next answer) t
      | .blocked => .blocked
      | .fault => .faulted

@[simp] theorem run_ret (h : Handler S σ) (agent : Nat) (value : α) (s : σ) :
    run h agent (.ret value) s = .done s value := rfl

theorem run_act_ok {h : Handler S σ} {agent : Nat} {op : S.Op} {s t : σ} {answer : S.Res op}
    (answered : h agent s op = .ok t answer) (next : S.Res op → Prog S α) :
    run h agent (.act op next) s = run h agent (next answer) t := by
  simp only [run, answered]

theorem run_bind (h : Handler S σ) (agent : Nat) (p : Prog S α) (f : α → Prog S β) (s : σ) :
    run h agent (p >>= f) s =
      match run h agent p s with
      | .done t value => run h agent (f value) t
      | .spun => .spun
      | .blocked => .blocked
      | .faulted => .faulted := by
  induction p generalizing s with
  | ret value => rfl
  | spin => rfl
  | act op next ih =>
      simp only [act_bind, run]
      cases h agent s op with
      | ok t answer => exact ih answer t
      | blocked => rfl
      | fault => rfl

theorem run_bind_done {h : Handler S σ} {agent : Nat} {p : Prog S α} {s t : σ} {value : α}
    (first : run h agent p s = .done t value) (f : α → Prog S β) :
    run h agent (p >>= f) s = run h agent (f value) t := by
  rw [run_bind, first]

theorem run_bind_inv {h : Handler S σ} {agent : Nat} {p : Prog S α} {f : α → Prog S β} {s t : σ}
    {value : β} (done : run h agent (p >>= f) s = .done t value) :
    ∃ u middle, run h agent p s = .done u middle ∧ run h agent (f middle) u = .done t value := by
  rw [run_bind] at done
  cases first : run h agent p s with
  | done u middle =>
      rw [first] at done
      exact ⟨u, middle, rfl, done⟩
  | spun => rw [first] at done; cases done
  | blocked => rw [first] at done; cases done
  | faulted => rw [first] at done; cases done

/-- `Visits h agent p s q t`: running `p` alone from `s` passes through `q` in state `t`. -/
inductive Visits (h : Handler S σ) (agent : Nat) : Prog S α → σ → Prog S α → σ → Prop
  | here (p : Prog S α) (s : σ) : Visits h agent p s p s
  | next {op : S.Op} {next : S.Res op → Prog S α} {s t u : σ} {answer : S.Res op}
      {q : Prog S α} (answered : h agent s op = .ok t answer)
      (rest : Visits h agent (next answer) t q u) : Visits h agent (.act op next) s q u

def walk (h : Handler S σ) (agent : Nat) : Nat → Prog S α → σ → Option (Prog S α × σ)
  | 0, p, s => some (p, s)
  | n + 1, .act op next, s =>
      match h agent s op with
      | .ok t answer => walk h agent n (next answer) t
      | _ => none
  | _ + 1, _, _ => none

theorem walk_visits {h : Handler S σ} {agent n : Nat} {p q : Prog S α} {s t : σ}
    (walked : walk h agent n p s = some (q, t)) : Visits h agent p s q t := by
  induction n generalizing p s with
  | zero =>
      cases walked
      exact .here _ _
  | succ n ih =>
      cases p with
      | ret value => cases walked
      | spin => cases walked
      | act op next =>
          simp only [walk] at walked
          cases answered : h agent s op with
          | ok u answer =>
              rw [answered] at walked
              exact .next answered (ih walked)
          | blocked => rw [answered] at walked; cases walked
          | fault => rw [answered] at walked; cases walked

theorem run_done_visits {h : Handler S σ} {agent : Nat} {p : Prog S α} {s t : σ} {value : α}
    (finished : run h agent p s = .done t value) : Visits h agent p s (.ret value) t := by
  induction p generalizing s with
  | ret other =>
      simp only [run_ret, Outcome.done.injEq] at finished
      obtain ⟨rfl, rfl⟩ := finished
      exact .here _ _
  | spin => cases finished
  | act op next ih =>
      simp only [run] at finished
      cases answered : h agent s op with
      | ok u answer =>
          rw [answered] at finished
          exact .next answered (ih answer finished)
      | blocked => rw [answered] at finished; cases finished
      | fault => rw [answered] at finished; cases finished

end Prog

/-! ### Programs inside larger ones -/

/-- Code that performs the actions of `S` inside programs over `T`. -/
class Supports (S T : Sig) where
  call : (op : S.Op) → Prog T (S.Res op)

instance Supports.same (S : Sig) : Supports S S := ⟨Prog.perform⟩

def Prog.lift (T : Sig) [Supports S T] : Prog S α → Prog T α
  | .ret value => .ret value
  | .spin => .spin
  | .act op next => Supports.call op >>= fun answer => lift T (next answer)

theorem Prog.lift_bind (T : Sig) [Supports S T] (p : Prog S α) (f : α → Prog S β) :
    (p >>= f).lift T = (p.lift T >>= fun value => (f value).lift T) := by
  induction p with
  | ret value => rfl
  | spin => rfl
  | act op next ih =>
      simp only [act_bind, lift, bind_assoc]
      congr 1
      funext answer
      exact ih answer

theorem Prog.lift_perform (T : Sig) [Supports S T] (op : S.Op) :
    (Prog.perform op).lift T = Supports.call op := bind_ret _

end Interaction
