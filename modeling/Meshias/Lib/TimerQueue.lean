import Mathlib.Data.List.Sort
import Mathlib.Data.List.TakeWhile
import Mathlib.Tactic

/-!
# Timer queues

A queue of pending timers, the one that expires first in front, those with the same time in the
order in which they were set.

* `Queue` — the pending timers, each of them once, ordered by time.
* `del`, `add`, `due` — a timer is stopped, is set, and those that have expired.
* `Stamped` — the same queue as a collection of timers with a time and a number, larger for a
  timer that was set later.

Principal results: `Stamped.add` and `Stamped.due_eq` — the numbers keep track of the order.
-/

set_option autoImplicit false

namespace Timers

variable {α τ : Type} [LinearOrder τ]

/-- The pending timers with their times. -/
structure Queue (α τ : Type) [LinearOrder τ] where
  entries : List (α × τ)
  sorted : entries.Pairwise (fun x y => x.2 ≤ y.2)
  nodup : (entries.map Prod.fst).Nodup

namespace Queue

variable {q : Queue α τ} {a b : α} {t now : τ}

@[ext] theorem ext {q q' : Queue α τ} (h : q.entries = q'.entries) : q = q' := by
  cases q; cases q'
  congr

def empty : Queue α τ := ⟨[], .nil, .nil⟩

/-- Behind all that expire at the same time or earlier. -/
def place (a : α) (t : τ) (l : List (α × τ)) : List (α × τ) :=
  l.takeWhile (fun x => x.2 ≤ t) ++ (a, t) :: l.dropWhile (fun x => x.2 ≤ t)

theorem perm_place (a : α) (t : τ) (l : List (α × τ)) : (place a t l).Perm ((a, t) :: l) := by
  rw [place]
  refine List.perm_middle.trans (.cons _ ?_)
  rw [List.takeWhile_append_dropWhile]

theorem le_of_mem_takeWhile {l : List (α × τ)} {x : α × τ}
    (hx : x ∈ l.takeWhile (fun x => x.2 ≤ t)) : x.2 ≤ t := by
  simpa using List.mem_takeWhile_imp hx

/-- Behind the first one that is later, all are. -/
theorem lt_of_mem_dropWhile {l : List (α × τ)} (hl : l.Pairwise (fun x y => x.2 ≤ y.2)) {x : α × τ}
    (hx : x ∈ l.dropWhile (fun x => x.2 ≤ t)) : t < x.2 := by
  induction l with
  | nil => cases hx
  | cons y l ih =>
    rw [List.pairwise_cons] at hl
    by_cases hy : y.2 ≤ t
    · rw [List.dropWhile_cons_of_pos (by simpa using hy)] at hx
      exact ih hl.2 hx
    · rw [List.dropWhile_cons_of_neg (by simpa using hy)] at hx
      rcases List.mem_cons.1 hx with rfl | hx
      · exact not_le.1 hy
      · exact (not_le.1 hy).trans_le (hl.1 x hx)

theorem sorted_place {l : List (α × τ)} (hl : l.Pairwise (fun x y => x.2 ≤ y.2)) (a : α) (t : τ) :
    (place a t l).Pairwise (fun x y => x.2 ≤ y.2) := by
  rw [place, List.pairwise_append, List.pairwise_cons]
  refine ⟨hl.sublist (List.takeWhile_sublist _), ⟨fun x hx => (lt_of_mem_dropWhile hl hx).le,
    hl.sublist (List.dropWhile_sublist _)⟩, fun x hx y hy => ?_⟩
  have hxt := le_of_mem_takeWhile hx
  rcases List.mem_cons.1 hy with rfl | hy
  · exact hxt
  · exact hxt.trans (lt_of_mem_dropWhile hl hy).le

variable [DecidableEq α]

def del (q : Queue α τ) (a : α) : Queue α τ where
  entries := q.entries.filter (fun x => x.1 ≠ a)
  sorted := q.sorted.sublist List.filter_sublist
  nodup := q.nodup.sublist (List.filter_sublist.map _)

theorem entries_del (q : Queue α τ) (a : α) :
    (q.del a).entries = q.entries.filter (fun x => x.1 ≠ a) := rfl

theorem not_mem_del : a ∉ (q.del a).entries.map Prod.fst := by
  simp [del]

def add (q : Queue α τ) (a : α) (t : τ) : Queue α τ where
  entries := place a t (q.del a).entries
  sorted := sorted_place (q.del a).sorted a t
  nodup := by
    rw [((perm_place a t (q.del a).entries).map Prod.fst).nodup_iff, List.map_cons, List.nodup_cons]
    exact ⟨not_mem_del, (q.del a).nodup⟩

theorem entries_add (q : Queue α τ) (a : α) (t : τ) :
    (q.add a t).entries = place a t (q.del a).entries := rfl

/-- What has expired, the latest first. -/
def due (q : Queue α τ) (now : τ) : List α :=
  ((q.entries.takeWhile (fun x => x.2 ≤ now)).map Prod.fst).reverse

def Pending (q : Queue α τ) (a : α) : Prop := a ∈ q.entries.map Prod.fst

instance (q : Queue α τ) (a : α) : Decidable (q.Pending a) :=
  inferInstanceAs (Decidable (a ∈ q.entries.map Prod.fst))

@[simp] theorem pending_del : (q.del a).Pending b ↔ b ≠ a ∧ q.Pending b := by
  simp [Pending, del, and_comm]

@[simp] theorem pending_add : (q.add a t).Pending b ↔ b = a ∨ q.Pending b := by
  have hperm := (perm_place a t (q.del a).entries).map Prod.fst
  rw [Pending, add, hperm.mem_iff, List.map_cons, List.mem_cons]
  have hdel := pending_del (q := q) (a := a) (b := b)
  rw [Pending] at hdel
  rw [hdel]
  tauto

theorem del_of_not_pending (h : ¬ q.Pending a) : q.del a = q := by
  refine Queue.ext (List.filter_eq_self.2 fun x hx => ?_)
  have hne : x.1 ≠ a := fun he => h (List.mem_map.2 ⟨x, hx, he⟩)
  simpa using hne

/-- A timer that is set again is stopped first. -/
theorem add_del : (q.del a).add a t = q.add a t := by
  refine Queue.ext ?_
  rw [entries_add, entries_add, del_of_not_pending (q := q.del a) (by simp)]

theorem length_del_le : (q.del a).entries.length ≤ q.entries.length := List.length_filter_le ..

omit [DecidableEq α] in
/-- The first timer is the one that expires first. -/
theorem head_le {x y : α × τ} (hx : q.entries.head? = some x) (hy : y ∈ q.entries) : x.2 ≤ y.2 := by
  obtain ⟨rest, hrest⟩ := List.head?_eq_some_iff.1 hx
  have hsorted := q.sorted
  rw [hrest] at hsorted hy
  rcases List.mem_cons.1 hy with rfl | hy
  · exact le_rfl
  · exact (List.pairwise_cons.1 hsorted).1 y hy

omit [DecidableEq α] in
theorem takeWhile_eq_filter :
    q.entries.takeWhile (fun x => x.2 ≤ now) = q.entries.filter (fun x => x.2 ≤ now) := by
  have hkeep : ∀ x ∈ q.entries.takeWhile (fun x => x.2 ≤ now), x.2 ≤ now :=
    fun x hx => le_of_mem_takeWhile hx
  have hdrop : ∀ x ∈ q.entries.dropWhile (fun x => x.2 ≤ now), ¬ x.2 ≤ now :=
    fun x hx => not_le.2 (lt_of_mem_dropWhile q.sorted hx)
  conv_rhs => rw [← List.takeWhile_append_dropWhile (p := fun x : α × τ => x.2 ≤ now) (l := q.entries)]
  rw [List.filter_append, List.filter_eq_self.2 (by simpa using hkeep),
    List.filter_eq_nil_iff.2 (by simpa using hdrop), List.append_nil]

end Queue

/-! ## Timers with numbers -/

/-- Before the other one in the queue. -/
def Earlier (x y : α × τ × ℕ) : Prop := x.2.1 < y.2.1 ∨ x.2.1 = y.2.1 ∧ x.2.2 < y.2.2

/-- The queue orders the timers of `l` by time and by number. -/
def Stamped (q : Queue α τ) (l : List (α × τ × ℕ)) : Prop :=
  ∃ o : List (α × τ × ℕ), o.Perm l ∧ o.Pairwise Earlier ∧ o.map (fun x => (x.1, x.2.1)) = q.entries

namespace Stamped

variable {q : Queue α τ} {l l' : List (α × τ × ℕ)} {a : α} {t now : τ} {k : ℕ}

theorem perm (h : Stamped q l) (hl : l.Perm l') : Stamped q l' := by
  obtain ⟨o, ho, hsorted, hmap⟩ := h
  exact ⟨o, ho.trans hl, hsorted, hmap⟩

theorem pending_iff (h : Stamped q l) : q.Pending a ↔ a ∈ l.map Prod.fst := by
  obtain ⟨o, ho, -, hmap⟩ := h
  rw [Queue.Pending, ← hmap, List.map_map, ← (ho.map _).mem_iff]
  rfl

variable [DecidableEq α]

theorem del (h : Stamped q l) (a : α) : Stamped (q.del a) (l.filter (fun x => x.1 ≠ a)) := by
  obtain ⟨o, ho, hsorted, hmap⟩ := h
  refine ⟨o.filter (fun x => x.1 ≠ a), ho.filter _, hsorted.sublist List.filter_sublist, ?_⟩
  rw [Queue.entries_del, ← hmap, List.filter_map]
  rfl

/-- **A timer that is set** gets a number above all others. -/
theorem add (h : Stamped q l) (hk : ∀ x ∈ l, x.2.2 < k) (a : α) (t : τ) :
    Stamped (q.add a t) ((a, t, k) :: l.filter (fun x => x.1 ≠ a)) := by
  obtain ⟨o, ho, hsorted, hmap⟩ := h.del a
  have hlt : ∀ x ∈ o, x.2.2 < k := fun x hx => hk x (List.mem_filter.1 (ho.mem_iff.1 hx)).1
  have hlate : ∀ x ∈ o.dropWhile (fun x => x.2.1 ≤ t), t < x.2.1 := by
    intro x hx
    have hq := (q.del a).sorted
    rw [← hmap] at hq
    refine Queue.lt_of_mem_dropWhile (x := (x.1, x.2.1)) hq ?_
    rw [List.dropWhile_map]
    exact List.mem_map_of_mem (f := fun x : α × τ × ℕ => (x.1, x.2.1)) hx
  refine ⟨o.takeWhile (fun x => x.2.1 ≤ t) ++ (a, t, k) :: o.dropWhile (fun x => x.2.1 ≤ t),
    ?_, ?_, ?_⟩
  · refine List.perm_middle.trans (.cons _ ?_)
    rw [List.takeWhile_append_dropWhile]
    exact ho
  · rw [List.pairwise_append, List.pairwise_cons]
    refine ⟨hsorted.sublist (List.takeWhile_sublist _), ⟨fun x hx => .inl (hlate x hx),
      hsorted.sublist (List.dropWhile_sublist _)⟩, fun x hx y hy => ?_⟩
    have hxt : x.2.1 ≤ t := by simpa using List.mem_takeWhile_imp hx
    rcases List.mem_cons.1 hy with rfl | hy
    · rcases hxt.lt_or_eq with hlt' | heq
      · exact .inl hlt'
      · exact .inr ⟨heq, hlt x (List.takeWhile_sublist _ |>.subset hx)⟩
    · exact .inl (hxt.trans_lt (hlate y hy))
  · rw [Queue.entries_add, Queue.place, ← hmap, List.takeWhile_map, List.dropWhile_map, List.map_append]
    rfl

omit [DecidableEq α] in
/-- **What has expired**, as any list of these timers that the numbers put in order. -/
theorem due_eq {o : List (α × τ × ℕ)} (h : Stamped q l)
    (ho : o.Perm (l.filter (fun x => x.2.1 ≤ now)))
    (hsorted : o.Pairwise (fun x y => y.2.1 < x.2.1 ∨ y.2.1 = x.2.1 ∧ y.2.2 ≤ x.2.2)) :
    q.due now = o.map Prod.fst := by
  obtain ⟨o', ho', hsorted', hmap⟩ := h
  have hfilter : q.entries.filter (fun x => x.2 ≤ now) =
      (o'.filter (fun x => x.2.1 ≤ now)).map (fun x => (x.1, x.2.1)) := by
    rw [← hmap, List.filter_map]
    rfl
  have hperm : o.reverse.Perm (o'.filter (fun x => x.2.1 ≤ now)) :=
    (List.reverse_perm o).trans (ho.trans (ho'.filter _).symm)
  -- no two timers have the same time and number
  have hstamps : (o'.map Prod.snd).Nodup := by
    refine List.pairwise_map.2 (hsorted'.imp ?_)
    rintro x y (hlt | ⟨-, hlt⟩) heq
    · exact absurd hlt (by simp [heq])
    · exact absurd hlt (by simp [heq])
  have hmerge : o.reverse = o'.filter (fun x => x.2.1 ≤ now) := by
    let before : α × τ × ℕ → α × τ × ℕ → Prop :=
      fun x y => x.2.1 < y.2.1 ∨ x.2.1 = y.2.1 ∧ x.2.2 ≤ y.2.2
    refine hperm.eq_of_pairwise (show ∀ x y, _ → _ → before x y → before y x → x = y from ?_) ?_ ?_
    · intro x y hx hy hxy hyx
      refine List.inj_on_of_nodup_map hstamps (List.mem_filter.1 (hperm.mem_iff.1 hx)).1
        (List.mem_filter.1 hy).1 ?_
      rcases hxy with hlt | ⟨heq, hle⟩ <;> rcases hyx with hlt' | ⟨heq', hle'⟩
      · exact absurd hlt' hlt.asymm
      · exact absurd hlt (by simp [heq'])
      · exact absurd hlt' (by simp [heq])
      · exact Prod.ext heq (le_antisymm hle hle')
    · exact List.pairwise_reverse.2 hsorted
    · refine (hsorted'.sublist List.filter_sublist).imp ?_
      rintro x y (hlt | ⟨heq, hlt⟩)
      · exact .inl hlt
      · exact .inr ⟨heq, hlt.le⟩
  rw [Queue.due, Queue.takeWhile_eq_filter, hfilter, ← hmerge, List.map_map, ← List.map_reverse,
    List.reverse_reverse]
  rfl

end Stamped

end Timers
