import Mathlib.Tactic

/-!
# Deterministic machines and conditional invariants

A machine is a step function `σ → ι → σ`; a run is a list of inputs.

* `StepsMeet` — every step of a run meets a condition on the state before it and its input;
  `stepsMeet_iff_prefix` says it by prefixes.
* `run_invariant` — a property that every such step keeps holds at the end of every such run;
  `run_invariant_always` is the case without a condition.
* `forall_steps_iff` — when one step keeps the property exactly if it meets the condition, the
  property holds all along a run exactly if all its steps meet the condition; `forall_prefix_iff`
  and `stepsMeet_iff` are the cases of a property of states alone and of steps alone; `run_iff` is
  the rule for a property of the last state that does not come back.
* `recording` — the machine that also keeps what each step adds to a history.
-/

set_option autoImplicit false

namespace Machine

variable {σ ι η : Type}

def run (step : σ → ι → σ) (s : σ) (is : List ι) : σ := is.foldl step s

/-- Every step of the run meets the condition. -/
def StepsMeet (step : σ → ι → σ) (cond : σ → ι → Prop) : σ → List ι → Prop
  | _, [] => True
  | s, i :: is => cond s i ∧ StepsMeet step cond (step s i) is

instance StepsMeet.decidable (step : σ → ι → σ) (cond : σ → ι → Prop)
    [∀ s i, Decidable (cond s i)] : ∀ s is, Decidable (StepsMeet step cond s is)
  | _, [] => isTrue trivial
  | s, i :: is =>
    have := StepsMeet.decidable step cond (step s i) is
    inferInstanceAs (Decidable (cond s i ∧ StepsMeet step cond (step s i) is))

variable {step : σ → ι → σ} {cond cond' : σ → ι → Prop}

@[simp] theorem run_nil (s : σ) : run step s [] = s := rfl

@[simp] theorem run_cons (s : σ) (i : ι) (is : List ι) :
    run step s (i :: is) = run step (step s i) is := rfl

theorem run_append (s : σ) (is js : List ι) :
    run step s (is ++ js) = run step (run step s is) js := List.foldl_append ..

theorem stepsMeet_append (s : σ) (is js : List ι) :
    StepsMeet step cond s (is ++ js) ↔
      StepsMeet step cond s is ∧ StepsMeet step cond (run step s is) js := by
  induction is generalizing s with
  | nil => simp [StepsMeet]
  | cons i is ih => simp [StepsMeet, ih, and_assoc]

/-- The steps of a run, by the inputs that come before them. -/
theorem stepsMeet_iff_prefix {s : σ} {is : List ι} :
    StepsMeet step cond s is ↔ ∀ pre i, pre ++ [i] <+: is → cond (run step s pre) i := by
  induction is generalizing s with
  | nil => simp [StepsMeet]
  | cons j is ih =>
    rw [StepsMeet, ih]
    constructor
    · rintro ⟨hj, hrest⟩ pre i hpre
      cases pre with
      | nil =>
        obtain ⟨rfl, -⟩ := List.cons_prefix_cons.1 hpre
        exact hj
      | cons j' pre =>
        obtain ⟨rfl, hpre'⟩ := List.cons_prefix_cons.1 hpre
        exact hrest pre i hpre'
    · intro hall
      exact ⟨hall [] j (by simp), fun pre i hpre => hall (j :: pre) i (by simpa using hpre)⟩

theorem StepsMeet.mono {s : σ} {is : List ι} (h : StepsMeet step cond s is)
    (hc : ∀ s i, cond s i → cond' s i) : StepsMeet step cond' s is := by
  induction is generalizing s with
  | nil => trivial
  | cons i is ih => exact ⟨hc _ _ h.1, ih h.2⟩

theorem StepsMeet.and {s : σ} {is : List ι} (h : StepsMeet step cond s is)
    (h' : StepsMeet step cond' s is) : StepsMeet step (fun s i => cond s i ∧ cond' s i) s is := by
  induction is generalizing s with
  | nil => trivial
  | cons i is ih => exact ⟨⟨h.1, h'.1⟩, ih h.2 h'.2⟩

theorem StepsMeet.of_forall (h : ∀ s i, cond s i) (s : σ) (is : List ι) :
    StepsMeet step cond s is := by
  induction is generalizing s with
  | nil => trivial
  | cons i is ih => exact ⟨h s i, ih _⟩

/-- **Conditional invariant rule.** -/
theorem run_invariant {I : σ → Prop} (hstep : ∀ s i, I s → cond s i → I (step s i))
    {s : σ} {is : List ι} (hs : I s) (his : StepsMeet step cond s is) :
    I (run step s is) := by
  induction is generalizing s with
  | nil => exact hs
  | cons i is ih => exact ih (hstep s i hs his.1) his.2

/-- The rule without a condition. -/
theorem run_invariant_always {I : σ → Prop} (hstep : ∀ s i, I s → I (step s i)) {s : σ} (hs : I s)
    (is : List ι) : I (run step s is) :=
  run_invariant (fun s i h _ => hstep s i h) hs (StepsMeet.of_forall (fun _ _ => trivial) s is)

/-- A condition may be strengthened by an invariant of the run. -/
theorem StepsMeet.and_invariant {I : σ → Prop}
    (hstep : ∀ s i, I s → cond s i → I (step s i)) {s : σ} {is : List ι} (hs : I s)
    (his : StepsMeet step cond s is) : StepsMeet step (fun s i => I s ∧ cond s i) s is := by
  induction is generalizing s with
  | nil => trivial
  | cons i is ih => exact ⟨⟨hs, his.1⟩, ih (hstep s i hs his.1) his.2⟩

/-- **Exact conditions.**  `I` is what every run keeps; `P`, of states, and `Q`, of steps, are in
    question. -/
theorem forall_steps_iff {I P : σ → Prop} {Q : σ → ι → Prop}
    (hinv : ∀ s i, I s → I (step s i))
    (hstep : ∀ s i, I s → P s → (P (step s i) ∧ Q s i ↔ cond s i)) {s : σ} {is : List ι}
    (hs : I s) (hP : P s) :
    ((∀ pre, pre <+: is → P (run step s pre)) ∧ StepsMeet step Q s is) ↔
      StepsMeet step cond s is := by
  induction is generalizing s with
  | nil => simp [StepsMeet, hP]
  | cons i is ih =>
    constructor
    · rintro ⟨hall, hQ, hrest⟩
      have h1 : P (step s i) := by simpa using hall [i] (by simp)
      refine ⟨(hstep s i hs hP).1 ⟨h1, hQ⟩, (ih (hinv s i hs) h1).1 ⟨fun pre hpre => ?_, hrest⟩⟩
      simpa using hall (i :: pre) (by simpa using hpre)
    · rintro ⟨hc, hrest⟩
      obtain ⟨h1, hQ⟩ := (hstep s i hs hP).2 hc
      obtain ⟨hall, hrestQ⟩ := (ih (hinv s i hs) h1).2 hrest
      refine ⟨fun pre hpre => ?_, hQ, hrestQ⟩
      cases pre with
      | nil => exact hP
      | cons j pre =>
        obtain ⟨rfl, htail⟩ := List.cons_prefix_cons.1 hpre
        exact hall pre htail

/-- The same for a property of steps alone. -/
theorem stepsMeet_iff {I : σ → Prop} (hinv : ∀ s i, I s → I (step s i))
    (hstep : ∀ s i, I s → (cond s i ↔ cond' s i)) {s : σ} (hs : I s) (is : List ι) :
    StepsMeet step cond s is ↔ StepsMeet step cond' s is := by
  induction is generalizing s with
  | nil => exact Iff.rfl
  | cons i is ih => exact and_congr (hstep s i hs) (ih (hinv s i hs))

/-- The same for a property of states alone. -/
theorem forall_prefix_iff {I P : σ → Prop} (hinv : ∀ s i, I s → I (step s i))
    (hstep : ∀ s i, I s → P s → (P (step s i) ↔ cond s i)) {s : σ} {is : List ι}
    (hs : I s) (hP : P s) :
    (∀ pre, pre <+: is → P (run step s pre)) ↔ StepsMeet step cond s is := by
  have h : ((∀ pre, pre <+: is → P (run step s pre)) ∧ StepsMeet step (fun _ _ => True) s is) ↔
      StepsMeet step cond s is :=
    forall_steps_iff hinv (fun s i hs hP => by rw [and_true]; exact hstep s i hs hP) hs hP
  rwa [and_iff_left (StepsMeet.of_forall (fun _ _ => trivial) s is)] at h

/-- A property that a step which misses the condition spoils for good. -/
theorem run_iff {I P : σ → Prop} (hinv : ∀ s i, I s → I (step s i))
    (hstep : ∀ s i, I s → (P (step s i) ↔ P s ∧ cond s i)) {s : σ} (hs : I s) (is : List ι) :
    P (run step s is) ↔ P s ∧ StepsMeet step cond s is := by
  induction is generalizing s with
  | nil => simp [StepsMeet]
  | cons i is ih => rw [run_cons, ih (hinv s i hs), hstep s i hs, StepsMeet, and_assoc]

/-! ## Projections -/

section Projection

variable {τ : Type} {step' : τ → ι → τ} {f : τ → σ} (hf : ∀ t i, f (step' t i) = step (f t) i)
include hf

theorem run_proj (t : τ) (is : List ι) : f (run step' t is) = run step (f t) is := by
  induction is generalizing t with
  | nil => rfl
  | cons i is ih => rw [run_cons, run_cons, ih, hf]

/-- A condition that looks at the projection only. -/
theorem stepsMeet_proj (t : τ) (is : List ι) :
    StepsMeet step' (fun t i => cond (f t) i) t is ↔ StepsMeet step cond (f t) is := by
  induction is generalizing t with
  | nil => exact Iff.rfl
  | cons i is ih => rw [StepsMeet, StepsMeet, ih, hf]

end Projection

/-! ## Histories -/

/-- The machine that records, in front of what it has, what `log` says about each step. -/
def recording (step : σ → ι → σ) (log : σ → ι → List η) (c : σ × List η) (i : ι) : σ × List η :=
  (step c.1 i, log c.1 i ++ c.2)

theorem run_recording_fst (log : σ → ι → List η) (c : σ × List η) (is : List ι) :
    (run (recording step log) c is).1 = run step c.1 is :=
  run_proj (f := Prod.fst) (fun _ _ => rfl) c is

/-- A condition that does not look at the history. -/
theorem StepsMeet.recording (log : σ → ι → List η) (hist : List η) {s : σ} {is : List ι}
    (h : StepsMeet step cond s is) :
    StepsMeet (recording step log) (fun c i => cond c.1 i) (s, hist) is :=
  (stepsMeet_proj (f := Prod.fst) (fun _ _ => rfl) (s, hist) is).2 h

end Machine
