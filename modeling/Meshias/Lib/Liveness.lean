import Mathlib.Order.WellFounded
import Meshias.Lib.Machine

/-!
# Infinite runs

A run on an infinite sequence of inputs, and what it must come to.

* `states` — the states of such a run.
* `leadsTo_of_helpful` — a property that lasts until a helpful input comes ends, if helpful inputs
  keep coming.
* `eventually_of_decreasing` — a goal is reached if a rank goes down until it is.
* `schedule` — the inputs that a scheduler chooses, which knows the state.
-/

set_option autoImplicit false

namespace Liveness

variable {σ ι α : Type}

/-- The states of the run from `s` on the inputs `ω`. -/
def states (step : σ → ι → σ) (s : σ) (ω : Nat → ι) : Nat → σ
  | 0 => s
  | n + 1 => step (states step s ω n) (ω n)

/-- The run so far is a run on a list. -/
theorem states_eq_run (step : σ → ι → σ) (s : σ) (ω : Nat → ι) (n : Nat) :
    states step s ω n = Machine.run step s ((List.range n).map ω) := by
  induction n with
  | zero => rfl
  | succ n ih =>
    rw [states, ih, List.range_succ, List.map_append, Machine.run_append]
    rfl

section Sequences

variable {st : Nat → σ} {ω : Nat → ι}

/-- **Fairness rule.**  `P` lasts until `Q` comes, and an input of `H`, the helpful ones, brings
    `Q`. -/
theorem leadsTo_of_helpful {P Q : σ → Prop} {H : ι → Prop}
    (hstep : ∀ n, P (st n) → P (st (n + 1)) ∨ Q (st (n + 1)))
    (hhelp : ∀ n, P (st n) → H (ω n) → Q (st (n + 1)))
    (hfair : ∀ n, ∃ m, n ≤ m ∧ H (ω m)) {n : Nat} (h : P (st n)) : ∃ m, Q (st m) := by
  by_contra hnever
  have hlasts : ∀ d, P (st (n + d)) := by
    intro d
    induction d with
    | zero => exact h
    | succ d ih => exact (hstep _ ih).resolve_right fun hq => hnever ⟨_, hq⟩
  obtain ⟨m, hnm, hm⟩ := hfair n
  obtain ⟨d, rfl⟩ := Nat.exists_eq_add_of_le hnm
  exact hnever ⟨_, hhelp _ (hlasts d) hm⟩

/-- **Progress rule.**  `I a` holds at rank `a`, and what holds at a rank leads to the goal or to a
    lower rank. -/
theorem eventually_of_decreasing {r : α → α → Prop} (hr : WellFounded r) {I : α → σ → Prop}
    {Goal : σ → Prop}
    (hnext : ∀ a n, I a (st n) → ∃ m, Goal (st m) ∨ ∃ b, r b a ∧ I b (st m)) {a : α} {n : Nat}
    (h : I a (st n)) : ∃ m, Goal (st m) := by
  induction a using hr.induction generalizing n with
  | h a ih =>
    obtain ⟨m, hgoal | ⟨b, hlt, hb⟩⟩ := hnext a n h
    · exact ⟨m, hgoal⟩
    · exact ih b hlt hb

end Sequences

/-! ## Schedulers -/

/-- The states of the run whose inputs are chosen by the state and the number of the step. -/
def follow (step : σ → ι → σ) (choose : σ → Nat → ι) (s : σ) : Nat → σ
  | 0 => s
  | n + 1 => step (follow step choose s n) (choose (follow step choose s n) n)

/-- These inputs. -/
def schedule (step : σ → ι → σ) (choose : σ → Nat → ι) (s : σ) (n : Nat) : ι :=
  choose (follow step choose s n) n

theorem states_schedule (step : σ → ι → σ) (choose : σ → Nat → ι) (s : σ) (n : Nat) :
    states step s (schedule step choose s) n = follow step choose s n := by
  induction n with
  | zero => rfl
  | succ n ih => rw [states, ih]; rfl

end Liveness
