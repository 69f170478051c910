import Mathlib

/-!
Slices and counting loops of code that panics outside its bounds, as computations in `Option`.
A loop with a stride is the fold over its indexes; the equations of the `while` loop and its
invariant rule are derived from that.
-/

namespace Checked

variable {α β σ ρ : Type}

/-- `&row[start..][..len]` -/
def slice (row : List α) (start len : Nat) : Option (List α) :=
  if start + len ≤ row.length then some ((row.drop start).take len) else none

theorem slice_inside {row : List α} {start len : Nat} (inside : start + len ≤ row.length) :
    slice row start len = some ((row.drop start).take len) := if_pos inside

theorem slice_length {row : List α} {start len : Nat} (inside : start + len ≤ row.length) :
    ((row.drop start).take len).length = len := by
  rw [List.length_take, List.length_drop]
  omega

theorem foldlM_some {items : List α} {step : σ → α → Option σ} (next : σ → α → σ)
    (succeeds : ∀ state, ∀ item ∈ items, step state item = some (next state item)) (state : σ) :
    items.foldlM step state = some (items.foldl next state) := by
  induction items generalizing state with
  | nil => rfl
  | cons item items ih =>
      rw [List.foldlM_cons, succeeds state item List.mem_cons_self]
      apply ih
      intro state other member
      exact succeeds state other (List.mem_cons_of_mem _ member)

theorem mapM_some {items : List α} {step : α → Option β} (next : α → β)
    (succeeds : ∀ item ∈ items, step item = some (next item)) :
    items.mapM step = some (items.map next) := by
  induction items with
  | nil => rfl
  | cons item items ih =>
      rw [List.mapM_cons, succeeds item List.mem_cons_self,
        ih fun other member => succeeds other (List.mem_cons_of_mem _ member)]
      rfl

/-! ### Loops -/

/-- `while i + stride <= stop { body; i += stride }` from `start`. -/
def strides {m : Type → Type} [Monad m] (stride start stop : Nat) (body : σ → Nat → m σ)
    (state : σ) : m σ :=
  (List.range' start ((stop - start) / stride) stride).foldlM body state

def strideEnd (stride start stop : Nat) : Nat := start + (stop - start) / stride * stride

section While

variable {m : Type → Type} [Monad m] {stride start stop : Nat} {body : σ → Nat → m σ}

theorem strides_step (positive : 0 < stride) (inside : start + stride ≤ stop) (state : σ) :
    strides stride start stop body state =
      body state start >>= strides stride (start + stride) stop body := by
  have turns : (stop - start) / stride = (stop - (start + stride)) / stride + 1 := by
    rw [← Nat.add_div_right _ positive]
    congr 1
    omega
  unfold strides
  rw [turns, List.range'_succ, List.foldlM_cons]

theorem strides_stop (positive : 0 < stride) (outside : stop < start + stride) (state : σ) :
    strides stride start stop body state = pure state := by
  unfold strides
  rw [Nat.div_eq_of_lt (by omega)]
  rfl

theorem strides_induction {motive : Nat → σ → m σ → Prop} (positive : 0 < stride)
    (turn : ∀ i state, i + stride ≤ stop →
      (∀ next, motive (i + stride) next (strides stride (i + stride) stop body next)) →
        motive i state (body state i >>= strides stride (i + stride) stop body))
    (done : ∀ i state, stop < i + stride → motive i state (pure state)) (state : σ) :
    motive start state (strides stride start stop body state) := by
  induction remaining : stop - start using Nat.strong_induction_on generalizing start state with
  | _ remaining ih =>
      by_cases inside : start + stride ≤ stop
      · rw [strides_step positive inside]
        exact turn start state inside fun next => ih (stop - (start + stride)) (by omega) next rfl
      · rw [strides_stop positive (by omega)]
        exact done start state (by omega)

end While

theorem strideEnd_step {stride start stop : Nat} (positive : 0 < stride)
    (inside : start + stride ≤ stop) :
    strideEnd stride start stop = strideEnd stride (start + stride) stop := by
  have turns : (stop - start) / stride = (stop - (start + stride)) / stride + 1 := by
    rw [← Nat.add_div_right _ positive]
    congr 1
    omega
  unfold strideEnd
  rw [turns, Nat.add_mul, Nat.one_mul]
  omega

theorem strideEnd_stop {stride start stop : Nat} (positive : 0 < stride)
    (outside : stop < start + stride) : strideEnd stride start stop = start := by
  unfold strideEnd
  rw [Nat.div_eq_of_lt (by omega), Nat.zero_mul, Nat.add_zero]

theorem strideEnd_le {stride start stop : Nat} (inside : start ≤ stop) :
    strideEnd stride start stop ≤ stop := by
  unfold strideEnd
  have divided := Nat.div_mul_le_self (stop - start) stride
  omega

theorem strideEnd_one {start stop : Nat} (inside : start ≤ stop) :
    strideEnd 1 start stop = stop := by
  unfold strideEnd
  rw [Nat.div_one, Nat.mul_one]
  omega

/-- What every turn keeps holds where the loop ends. -/
theorem strides_rule (Keeps : Nat → σ → Prop) (body : σ → Nat → Option σ) (stop : Nat)
    {stride : Nat} (positive : 0 < stride)
    (turn : ∀ i state, Keeps i state → i + stride ≤ stop →
      ∃ next, body state i = some next ∧ Keeps (i + stride) next)
    {start : Nat} {state : σ} (first : Keeps start state) :
    ∃ last, strides stride start stop body state = some last ∧
      Keeps (strideEnd stride start stop) last := by
  apply strides_induction (motive := fun i state loop => Keeps i state →
    ∃ last, loop = some last ∧ Keeps (strideEnd stride i stop) last) positive ?_ ?_ state first
  · intro i state inside rest kept
    have ⟨next, ran, keptNext⟩ := turn i state kept inside
    rw [ran, strideEnd_step positive inside]
    exact rest next keptNext
  · intro i state outside kept
    rw [strideEnd_stop positive outside]
    exact ⟨state, rfl, kept⟩

theorem strides_log_rule (Keeps : Nat → σ → ρ → Prop) (body : σ → Nat → StateT ρ Option σ)
    (stop : Nat) {stride : Nat} (positive : 0 < stride)
    (turn : ∀ i state log, Keeps i state log → i + stride ≤ stop →
      ∃ next after, (body state i).run log = some (next, after) ∧ Keeps (i + stride) next after)
    {start : Nat} {state : σ} (log : ρ) (first : Keeps start state log) :
    ∃ last after, (strides stride start stop body state).run log = some (last, after) ∧
      Keeps (strideEnd stride start stop) last after := by
  apply strides_induction (m := StateT ρ Option) (motive := fun i state loop =>
    ∀ log, Keeps i state log → ∃ last after, loop.run log = some (last, after) ∧
      Keeps (strideEnd stride i stop) last after) positive ?_ ?_ state log first
  · intro i state inside rest log kept
    have ⟨next, after, ran, keptNext⟩ := turn i state log kept inside
    rw [StateT.run_bind, ran, strideEnd_step positive inside]
    exact rest next after keptNext
  · intro i state outside log kept
    rw [strideEnd_stop positive outside]
    exact ⟨state, log, rfl, kept⟩

end Checked
