import Mathlib.Data.List.MinMax
import Mathlib.Logic.Relation

/-!
# Distance vectors

Nodes point, for one destination, at a neighbour.  A node learns from time to time that the
destination can be reached, and how good the way is: its rank, of which the greater is the better.

* `Routes` — where every node points, and the best that it has learned so far.
* `Ordered` — a node points at the destination, or at a node that has learned better.
* `Turn` — what one node may do: keep its route and learn nothing, drop its route, point at the
  destination, or point at a node that has learned better than what it has learned itself by then.
* `best` — the best rank in a list of facts.

Principal results: `Ordered.turn` — a turn keeps the order, and `Ordered.loopFree` — where there
is order, there is no cycle.
-/

set_option autoImplicit false

namespace DistanceVector

variable {ι δ α : Type}

/-! ## Routes to one destination -/

structure Routes (ι α : Type) where
  next : ι → ι → Prop
  best : ι → WithBot α

def LoopFree (next : ι → ι → Prop) : Prop := ∀ n, ¬ Relation.TransGen next n n

theorem LoopFree.mono {next next' : ι → ι → Prop} (h : LoopFree next)
    (hle : ∀ n m, next' n m → next n m) : LoopFree next' :=
  fun n hn => h n (Relation.TransGen.mono hle n n hn)

section Order

variable [Preorder α]

/-- The destination, `sink`, does not point anywhere. -/
structure Ordered (sink : ι → Prop) (r : Routes ι α) : Prop where
  source : ∀ n m, r.next n m → ¬ sink n
  better : ∀ n m, r.next n m → sink m ∨ r.best n < r.best m

/-- What node `k` may do in one turn. -/
structure Turn (sink : ι → Prop) (k : ι) (r r' : Routes ι α) : Prop where
  others_next : ∀ n, n ≠ k → ∀ m, r'.next n m → r.next n m
  others_best : ∀ n, n ≠ k → r'.best n = r.best n
  grows : r.best k ≤ r'.best k
  source : ∀ m, r'.next k m → ¬ sink k
  route : ∀ m, r'.next k m →
    sink m ∨ r'.best k < r.best m ∨ r.next k m ∧ r'.best k = r.best k

variable {sink : ι → Prop} {r r' : Routes ι α} {k : ι}

theorem Turn.best_le (h : Turn sink k r r') (n : ι) : r.best n ≤ r'.best n := by
  by_cases hn : n = k
  · rw [hn]; exact h.grows
  · exact (h.others_best n hn).ge

/-- **A turn keeps the order.** -/
theorem Ordered.turn (h : Ordered sink r) (ht : Turn sink k r r') : Ordered sink r' := by
  refine ⟨fun n m hnext => ?_, fun n m hnext => ?_⟩
  · by_cases hn : n = k
    · subst hn; exact ht.source m hnext
    · exact h.source n m (ht.others_next n hn m hnext)
  · by_cases hn : n = k
    · subst hn
      rcases ht.route m hnext with hsink | hlt | ⟨hold, hbest⟩
      · exact .inl hsink
      · exact .inr (hlt.trans_le (ht.best_le m))
      · refine (h.better n m hold).imp_right fun hlt => ?_
        rw [hbest]
        exact hlt.trans_le (ht.best_le m)
    · refine (h.better n m (ht.others_next n hn m hnext)).imp_right fun hlt => ?_
      rw [ht.others_best n hn]
      exact hlt.trans_le (ht.best_le m)

/-- Along a path the ranks grow, until it reaches the destination. -/
theorem Ordered.path (h : Ordered sink r) {n m : ι} (hpath : Relation.TransGen r.next n m) :
    sink m ∨ r.best n < r.best m := by
  induction hpath with
  | single hnext => exact h.better _ _ hnext
  | tail _ hnext ih =>
    have hlt := ih.resolve_left (h.source _ _ hnext)
    exact (h.better _ _ hnext).imp_right hlt.trans

/-- **Where there is order, there is no cycle.** -/
theorem Ordered.loopFree (h : Ordered sink r) : LoopFree r.next := by
  intro n hcycle
  obtain ⟨m, hnext, -⟩ := Relation.TransGen.head'_iff.1 hcycle
  rcases h.path hcycle with hsink | hlt
  · exact h.source n m hnext hsink
  · exact lt_irrefl _ hlt

end Order

/-! ## What has been learned -/

/-- A node has learned of a way to a destination. -/
structure Fact (ι δ α : Type) where
  node : ι
  about : δ
  rank : α

section Best

variable [DecidableEq ι] [DecidableEq δ] [LinearOrder α]

def best (facts : List (Fact ι δ α)) (n : ι) (d : δ) : WithBot α :=
  ((facts.filter (fun f => f.node = n ∧ f.about = d)).map (·.rank)).maximum

variable (facts : List (Fact ι δ α)) {n : ι} {d : δ}

theorem best_cons (f : Fact ι δ α) (n : ι) (d : δ) :
    best (f :: facts) n d =
      if f.node = n ∧ f.about = d then max ↑f.rank (best facts n d) else best facts n d := by
  unfold best
  by_cases hf : f.node = n ∧ f.about = d
  · rw [List.filter_cons_of_pos (by simpa using hf), List.map_cons, List.maximum_cons, if_pos hf]
  · rw [List.filter_cons_of_neg (by simpa using hf), if_neg hf]

theorem best_le_cons (f : Fact ι δ α) (n : ι) (d : δ) : best facts n d ≤ best (f :: facts) n d := by
  rw [best_cons]
  split
  · exact le_max_right _ _
  · exact le_refl _

/-- What is not worse than anything before is the best. -/
theorem best_cons_of_not_lt {f : Fact ι δ α}
    (h : ∀ g ∈ facts, g.node = f.node → g.about = f.about → ¬ f.rank < g.rank) :
    best (f :: facts) f.node f.about = f.rank := by
  rw [best_cons, if_pos ⟨rfl, rfl⟩, max_eq_left]
  refine List.maximum_le_of_forall_le fun x hx => ?_
  obtain ⟨g, hg, rfl⟩ := List.mem_map.1 hx
  obtain ⟨hmem, hsame⟩ := List.mem_filter.1 hg
  obtain ⟨hnode, habout⟩ := of_decide_eq_true hsame
  exact WithBot.coe_le_coe.2 (not_lt.1 (h g hmem hnode habout))

end Best

end DistanceVector
