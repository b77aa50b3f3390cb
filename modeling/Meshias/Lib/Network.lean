import Mathlib.Logic.Function.Basic
import Meshias.Lib.Machine

/-!
# Networks of deterministic nodes

A network is a family of machines of one kind; an action gives one input to one node and leaves the
others alone.

* `act` — the step of the network.
* `act_same`, `act_other` — what an action does to a node.
* `run_apply` — a node of the network runs on the inputs addressed to it.
-/

set_option autoImplicit false

namespace Network

variable {ι σ α : Type} [DecidableEq ι]

structure Action (ι α : Type) where
  node : ι
  input : α
  deriving DecidableEq, Repr

def act (step : σ → α → σ) (n : ι → σ) (a : Action ι α) : ι → σ :=
  Function.update n a.node (step (n a.node) a.input)

/-- The inputs of one node. -/
def inputsOf (k : ι) (as : List (Action ι α)) : List α :=
  (as.filter (fun a => a.node = k)).map (·.input)

variable {step : σ → α → σ}

@[simp] theorem act_same (n : ι → σ) (a : Action ι α) :
    act step n a a.node = step (n a.node) a.input := by simp [act]

theorem act_other (n : ι → σ) {a : Action ι α} {k : ι} (h : k ≠ a.node) :
    act step n a k = n k := by simp [act, h]

/-- A node is where its own inputs have taken it. -/
theorem run_apply (n : ι → σ) (as : List (Action ι α)) (k : ι) :
    Machine.run (act step) n as k = Machine.run step (n k) (inputsOf k as) := by
  induction as generalizing n with
  | nil => rfl
  | cons a as ih =>
    rw [Machine.run_cons, ih]
    by_cases hk : a.node = k
    · subst hk
      rw [act_same]
      simp [inputsOf]
    · rw [act_other n (Ne.symm hk)]
      simp [inputsOf, hk]

end Network
