import Meshias.AlarmTree

/-!
# The alarm tree is a timer queue

* `Shows` — the memory shows a queue: its tree is balanced, holds the pending blocks in the order of
  the queue, and every other block is marked as not inserted.
* `addAlarm_spec`, `delAlarm_spec`, `alarmPending_spec`, `getNextAlarmRun_spec` — each operation on
  the memory is the operation on the queue.

Principal results: these, and `collectExpired_spec` — the first loop of `do_alarm_run` collects what is
due in the queue, the latest first.
-/

set_option autoImplicit false

namespace Meshias

open RedBlack
open RedBlack.RBTree
open Pointers (Heap)
open Timers (Queue)

/-! ## What a memory shows -/

/-- The tree of a memory, its blocks, and the queue it stands for. -/
structure TreeShows (m : AlarmMem) (blocks : Set Ptr) (q : Queue Ptr Int) (t : RBTree Ptr) :
    Prop where
  holds : HoldsTree m.rb.nodes.cell m.rb t
  balanced : RootBlack t
  entries : q.entries = t.inorder.map (fun a => (a, (m.tv a).micros))
  normal : ∀ a ∈ t.inorder, (m.tv a).Normal
  known : ∀ a ∈ t.inorder, a ∈ blocks
  idle : ∀ a ∈ blocks, a ∉ t.inorder → m.rb.emptyNode a = some true

def Shows (m : AlarmMem) (blocks : Set Ptr) (q : Queue Ptr Int) : Prop :=
  ∃ t, TreeShows m blocks q t

section Basics

variable {rest : Cells} {m : RbMem} {t : RBTree Ptr} {a : Ptr} {g : RbNode → RbNode}

theorem HoldsTree.self (h : HoldsTree rest m t) : HoldsTree m.nodes.cell m t :=
  ⟨h.tree, h.root, h.nodup, fun _ _ => rfl⟩

/-- A write outside of the tree. -/
theorem HoldsTree.modify_outside (h : HoldsTree rest m t) (ha : a ∉ t.inorder) :
    HoldsTree (m.modify a g).nodes.cell (m.modify a g) t :=
  ⟨(treeAt_modify ha).2 h.tree, h.root, h.nodup, fun _ _ => rfl⟩

theorem rbParent_rbSetParent (p : Ptr) (r : RbNode) : rbParent (rbSetParent p r) = p := by
  have hword : (r.rb_parent_color &&& 3 ||| p.addr) &&& ~~~3 = p.addr := by
    rw [BitVec.and_or_distrib_right, BitVec.and_assoc, and_not_of_disjoint p.aligned]
    simp
  simp only [rbParent, rbSetParent, hword]

/-- A node of a tree is not its own parent. -/
theorem HoldsTree.emptyNode (h : HoldsTree rest m t) (ha : a ∈ t.inorder) :
    m.emptyNode a = some false := by
  obtain ⟨p, c, l, r, rfl⟩ := exists_place ha
  have hparent : above p ≠ a := by
    cases p with
    | nil => exact (h.ne_null ha).symm
    | cons f p =>
      rintro rfl
      exact (nodup_fill.1 h.nodup).2.2 (by simp [inorder]) (mem_around_cons.2 (.inl rfl))
  have hget : m.get a = some (mkNode (above p) c .left (ptr l) (ptr r)) := h.treeAt.1
  simp [RbMem.emptyNode, hget, hparent]

theorem emptyNode_of_get {n : RbNode} (h : m.get a = some n) :
    m.emptyNode a = some (rbParent n == a) := by
  simp [RbMem.emptyNode, h]

theorem emptyNode_congr {m' : RbMem} (h : m'.nodes.cell a = m.nodes.cell a) :
    m'.emptyNode a = m.emptyNode a := by
  simp only [RbMem.emptyNode, RbMem.get, h]

/-- `RB_CLEAR_NODE`. -/
theorem clearNode_eq {n : RbNode} (h : m.get a = some n) :
    m.clearNode a = some (m.modify a (rbSetParent a)) ∧
      (m.modify a (rbSetParent a)).emptyNode a = some true := by
  refine ⟨update_of_get h _, ?_⟩
  have hget : (m.modify a (rbSetParent a)).get a = some (rbSetParent a n) := by
    have hcell : m.nodes.cell a = some n := h
    rw [RbMem.get, cell_modify_same, hcell]
    rfl
  simp [emptyNode_of_get hget, rbParent_rbSetParent]

end Basics

section Shown

variable {m : AlarmMem} {blocks : Set Ptr} {q : Queue Ptr Int} {a b : Ptr} {fuel : Nat}
variable {t : RBTree Ptr}

theorem TreeShows.pending_iff (h : TreeShows m blocks q t) : q.Pending a ↔ a ∈ t.inorder := by
  rw [Queue.Pending, h.entries, List.map_map]
  simp

theorem TreeShows.length (h : TreeShows m blocks q t) : t.inorder.length = q.entries.length := by
  rw [h.entries, List.length_map]

/-- As many rounds as this are enough for every loop over a tree with `n` nodes. -/
def depthBound (n : Nat) : Nat := 2 * Nat.log2 (n + 1)

theorem TreeShows.height_le (h : TreeShows m blocks q t) :
    t.height ≤ depthBound q.entries.length := by
  rw [← h.length]
  exact h.balanced.height_le

theorem TreeShows.get (h : TreeShows m blocks q t) (ha : a ∈ blocks) : ∃ n, m.rb.get a = some n := by
  by_cases hin : a ∈ t.inorder
  · obtain ⟨p, c, l, r, rfl⟩ := exists_place hin
    exact ⟨_, h.holds.treeAt.1⟩
  · have hidle := h.idle a ha hin
    cases hget : m.rb.get a with
    | none => simp [RbMem.emptyNode, hget] at hidle
    | some n => exact ⟨n, rfl⟩

theorem TreeShows.emptyNode (h : TreeShows m blocks q t) (ha : a ∈ blocks) :
    m.rb.emptyNode a = some !decide (q.Pending a) := by
  by_cases hin : a ∈ t.inorder
  · simp [h.holds.emptyNode hin, h.pending_iff.2 hin]
  · simp [h.idle a ha hin, mt h.pending_iff.1 hin]

/-- **A block is pending** as long as it is in the queue. -/
theorem alarmPending_spec (h : Shows m blocks q) (ha : a ∈ blocks) :
    m.alarmPending a = some (decide (q.Pending a)) := by
  obtain ⟨t, h⟩ := h
  simp [AlarmMem.alarmPending, h.emptyNode ha]

/-! ## A block leaves the tree -/

theorem filter_ne_middle {u v : List Ptr} (h : (u ++ a :: v).Nodup) :
    (u ++ a :: v).filter (fun b => b ≠ a) = u ++ v := by
  have hout := (List.nodup_cons.1 (List.nodup_middle.1 h)).1
  have hkeep : ∀ b ∈ u ++ v, decide (b ≠ a) = true := by
    intro b hb
    have hne : b ≠ a := fun he => hout (he ▸ hb)
    simpa using hne
  rw [List.filter_append, List.filter_cons_of_neg (by simp), ← List.filter_append,
    List.filter_eq_self.2 hkeep]

/-- The removal of a node that is in the tree. -/
theorem rbErase_shows (h : TreeShows m blocks q t) (ha : q.Pending a)
    (hfuel : depthBound q.entries.length < fuel) :
    ∃ rb rb', rbErase fuel m.rb a = some rb ∧ rb.clearNode a = some rb' ∧
      Shows { m with rb := rb' } blocks (q.del a) := by
  have hdepth := h.height_le.trans_lt hfuel
  obtain ⟨p, c, l, r, rfl⟩ := exists_place (h.pending_iff.1 ha)
  obtain ⟨rb, o, hrb, h'⟩ := rbErase_spec h.holds h.balanced hdepth
  obtain ⟨hbalanced, hin⟩ := erase_spec h.balanced
  have hold : (fill p (node c l a r)).inorder = (before p ++ l.inorder) ++ a :: (r.inorder ++ after p) := by
    rw [inorder_fill]
    simp [inorder]
  have hfilter : (erase p c l r).inorder = (fill p (node c l a r)).inorder.filter (fun b => b ≠ a) := by
    rw [hold, filter_ne_middle (hold ▸ h.holds.nodup), hin]
    simp
  have hout : a ∉ (erase p c l r).inorder := by simp [hfilter]
  have hget : rb.get a = some o := (h'.frame a hout).trans (Function.update_self ..)
  obtain ⟨hclear, hempty⟩ := clearNode_eq hget
  have hsub : ∀ b ∈ (erase p c l r).inorder, b ∈ (fill p (node c l a r)).inorder := by
    intro b hb
    exact (List.mem_filter.1 (hfilter ▸ hb)).1
  refine ⟨rb, _, hrb, hclear, erase p c l r, h'.modify_outside hout, hbalanced, ?_,
    fun b hb => h.normal b (hsub b hb), fun b hb => h.known b (hsub b hb), fun b hb hbout => ?_⟩
  · rw [Queue.entries_del, h.entries, hfilter, List.filter_map]
    rfl
  · by_cases hba : b = a
    · exact hba ▸ hempty
    · have hbold : b ∉ (fill p (node c l a r)).inorder := by
        intro hmem
        exact hbout (hfilter ▸ List.mem_filter.2 ⟨hmem, by simpa using hba⟩)
      have hcell : (rb.modify a (rbSetParent a)).nodes.cell b = m.rb.nodes.cell b := by
        rw [cell_modify_other hba, h'.frame b hbout, Function.update_of_ne hba]
      exact (emptyNode_congr hcell).trans (h.idle b hb hbold)

theorem delAlarm_spec (h : Shows m blocks q) (ha : a ∈ blocks)
    (hfuel : depthBound q.entries.length < fuel) :
    ∃ rb, m.delAlarm fuel a = some { m with rb } ∧ Shows { m with rb } blocks (q.del a) := by
  obtain ⟨t, h⟩ := h
  by_cases hp : q.Pending a
  · obtain ⟨rb, rb', hrb, hrb', h'⟩ := rbErase_shows h hp hfuel
    exact ⟨rb', by simp [AlarmMem.delAlarm, h.emptyNode ha, hp, hrb, hrb'], h'⟩
  · rw [Queue.del_of_not_pending hp]
    exact ⟨m.rb, by simp [AlarmMem.delAlarm, h.emptyNode ha, hp], t, h⟩

/-! ## A block enters the tree -/

theorem deref_linkOf {rb : RbMem} {p : List (Frame Ptr)} {child : Ptr} (h : PathAt rb p child) :
    rb.deref (linkOf p) = some child := by
  cases p with
  | nil => exact congrArg some h
  | cons f p =>
    have hget : rb.get f.val = some _ := h.1
    simp [RbMem.deref, linkOf, hget]

/-- The loop of `__add_alarm` finds the place behind all that do not expire later. -/
theorem findPlace_spec {tv : Timeval} {p : List (Frame Ptr)}
    (h : HoldsTree m.rb.nodes.cell m.rb (fill p t)) (hfuel : t.height < fuel) :
    m.findPlace tv fuel (linkOf p) (above p) =
      some (linkOf (locate (fun b => timerLt tv (m.tv b)) t p),
        above (locate (fun b => timerLt tv (m.tv b)) t p)) := by
  induction t generalizing p fuel with
  | nil =>
    obtain ⟨fuel, rfl⟩ : ∃ j, fuel = j + 1 := ⟨fuel - 1, by omega⟩
    simp [AlarmMem.findPlace, deref_linkOf h.pathAt, locate]
  | node c l a r ihl ihr =>
    obtain ⟨fuel, rfl⟩ : ∃ j, fuel = j + 1 := ⟨fuel - 1, by omega⟩
    simp only [height] at hfuel
    have hnull : a ≠ NULL := Heap.ne_null h.treeAt.1
    have hl := ihl (p := ⟨.left, c, a, r⟩ :: p) h (show l.height < fuel by omega)
    have hr := ihr (p := ⟨.right, c, a, l⟩ :: p) h (show r.height < fuel by omega)
    rw [AlarmMem.findPlace, deref_linkOf h.pathAt, locate]
    cases hlt : timerLt tv (m.tv a) with
    | true => simpa [hnull, hlt] using hl
    | false => simpa [hnull, hlt] using hr

/-- The order of the tree, for the comparison with a time. -/
theorem TreeShows.sorted (h : TreeShows m blocks q t) (T : Int) :
    t.inorder.Pairwise (fun a b =>
      decide (T < (m.tv a).micros) = true → decide (T < (m.tv b).micros) = true) := by
  have hq := q.sorted
  rw [h.entries, List.pairwise_map] at hq
  refine hq.imp fun {a b} hle hlt => ?_
  simp only [decide_eq_true_eq] at hlt ⊢
  exact hlt.trans_le hle

theorem depthBound_mono {n k : Nat} (h : n ≤ k) : depthBound n ≤ depthBound k := by
  have hlog : Nat.log2 (n + 1) ≤ Nat.log2 (k + 1) := by
    rw [Nat.le_log2 (by omega)]
    exact (Nat.log2_self_le (by omega)).trans (by omega)
  simp only [depthBound]
  omega

/-- **`__add_alarm`** puts a block behind all that do not expire later. -/
theorem insertAlarm_spec (h : TreeShows m blocks q t) (ha : a ∈ blocks) (hnot : ¬ q.Pending a)
    (htv : (m.tv a).Normal) (hfuel : depthBound q.entries.length + 1 < fuel) :
    ∃ rb, m.insertAlarm fuel a = some { m with rb } ∧
      Shows { m with rb } blocks (q.add a (m.tv a).micros) := by
  have hdepth := h.height_le
  have hnotin : a ∉ t.inorder := mt h.pending_iff.2 hnot
  let lt : Ptr → Bool := fun b => decide ((m.tv a).micros < (m.tv b).micros)
  have hlt : ∀ b ∈ t.inorder, timerLt (m.tv a) (m.tv b) = lt b := by
    intro b hb
    rw [Bool.eq_iff_iff, timerLt_iff htv (h.normal b hb)]
    simp [lt]
  have hfind : m.findPlace (m.tv a) fuel .root NULL = _ :=
    findPlace_spec (p := []) h.holds (show t.height < fuel by omega)
  rw [locate_congr hlt] at hfind
  have hplace : fill (locate lt t []) nil = t := fill_locate
  have hlen := length_le_height (p := locate lt t []) (t := (nil : RBTree Ptr))
  rw [hplace] at hlen
  obtain ⟨n, hp, hnil, -⟩ := hole_of_fill (hplace ▸ h.balanced)
  have hout : a ∉ around (locate lt t []) := by
    intro hmem
    exact hnotin (hplace ▸ mem_inorder_fill.2 (.inr hmem))
  obtain ⟨r, hr⟩ := h.get ha
  have hholds := h.holds
  rw [← hplace] at hholds
  obtain ⟨rb, hrb, hlinked⟩ := holds_rbLinkNode hholds hr hout
  have hshort : (locate lt t []).length < fuel := by omega
  obtain ⟨rb', hrb', hdone⟩ := rbInsertColor_spec hlinked hp (by simp [nodeOn]) hshort
  rw [ptr_nodeOn] at hrb'
  have hinsert : insertColor (locate lt t []) (nodeOn .left .red nil a nil) = insert lt a t := rfl
  rw [hinsert] at hdone
  have hin : (insert lt a t).inorder =
      t.inorder.takeWhile (fun b => (m.tv b).micros ≤ (m.tv a).micros) ++
        a :: t.inorder.dropWhile (fun b => (m.tv b).micros ≤ (m.tv a).micros) := by
    have hle : (fun b => !lt b) = fun b => decide ((m.tv b).micros ≤ (m.tv a).micros) := by
      funext b
      simp only [lt]
      rw [← decide_not, Bool.eq_iff_iff]
      simp
    rw [inorder_insert (h.sorted _), hle]
  have hmem : ∀ b, b ∈ (insert lt a t).inorder ↔ b = a ∨ b ∈ t.inorder := by
    intro b
    rw [hin, List.mem_append, List.mem_cons]
    conv_rhs => rw [← List.takeWhile_append_dropWhile
      (p := fun b => decide ((m.tv b).micros ≤ (m.tv a).micros)) (l := t.inorder), List.mem_append]
    tauto
  refine ⟨rb', ?_, insert lt a t, hdone.self,
    RedBlack.RootBlack.insert h.balanced lt a, ?_, ?_, ?_, ?_⟩
  · simp [AlarmMem.insertAlarm, hfind, hrb, hrb']
  · rw [Queue.entries_add, Queue.del_of_not_pending hnot, h.entries, Queue.place, hin,
      List.takeWhile_map, List.dropWhile_map, List.map_append]
    rfl
  · intro b hb
    rcases (hmem b).1 hb with rfl | hb
    · exact htv
    · exact h.normal b hb
  · intro b hb
    rcases (hmem b).1 hb with rfl | hb
    · exact ha
    · exact h.known b hb
  · intro b hb hbout
    have hbold : b ∉ t.inorder := fun hmem' => hbout ((hmem b).2 (.inr hmem'))
    exact (emptyNode_congr (hdone.frame b hbout)).trans (h.idle b hb hbold)

/-- The time of a block that is not in the tree does not matter. -/
theorem TreeShows.setTv (h : TreeShows m blocks q t) (hnot : ¬ q.Pending a) (tv : Timeval) :
    TreeShows { m with tv := Function.update m.tv a tv } blocks q t := by
  have hkeep : ∀ b ∈ t.inorder, Function.update m.tv a tv b = m.tv b := by
    intro b hb
    refine Function.update_of_ne ?_ ..
    rintro rfl
    exact hnot (h.pending_iff.2 hb)
  refine ⟨h.holds, h.balanced, ?_, fun b hb => ?_, h.known, h.idle⟩
  · rw [h.entries]
    exact List.map_congr_left fun b hb => by simp only [hkeep b hb]
  · simp only [hkeep b hb]
    exact h.normal b hb

/-- **`add_alarm`** stops the alarm and sets it to expire after the given time. -/
theorem addAlarm_spec {now : Timeval} (sc : Nat) {usc : Nat} (h : Shows m blocks q)
    (ha : a ∈ blocks) (hnow : now.Normal) (husc : usc < 1000000) (hfuel : depthBound q.entries.length + 1 < fuel) :
    ∃ rb, m.addAlarm fuel now a sc usc =
        some { m with rb, tv := Function.update m.tv a (timeradd ⟨sc, usc⟩ now) } ∧
      Shows { m with rb, tv := Function.update m.tv a (timeradd ⟨sc, usc⟩ now) } blocks
        (q.add a (now.micros + (sc * 1000000 + usc))) := by
  obtain ⟨rb, hrb, t, h'⟩ := delAlarm_spec h ha (show depthBound q.entries.length < fuel by omega)
  have hnot : ¬ (q.del a).Pending a := by simp
  have htime : Timeval.Normal ⟨sc, usc⟩ := ⟨by simp, by simpa using husc⟩
  have hset := h'.setTv hnot (timeradd ⟨sc, usc⟩ now)
  have hlen := depthBound_mono (Queue.length_del_le (q := q) (a := a))
  obtain ⟨rb', hrb', hshows⟩ := insertAlarm_spec hset ha hnot
    (by simpa using normal_timeradd htime hnow) (show _ < fuel by omega)
  refine ⟨rb', by simp [AlarmMem.addAlarm, hrb, hrb'], ?_⟩
  have hmicros : (timeradd ⟨sc, usc⟩ now).micros = now.micros + (sc * 1000000 + usc) := by
    rw [micros_timeradd]
    simp [Timeval.micros]
    ring
  simpa [Queue.add_del, hmicros] using hshows

/-- **`init_alarm`** makes a block known that is in memory. -/
theorem initAlarm_spec (data function : Ptr) (h : Shows m blocks q)
    (hmem : m.rb.get a ≠ none) (hnot : ¬ q.Pending a) :
    ∃ m', m.initAlarm a data function = some m' ∧ Shows m' (insert a blocks) q := by
  obtain ⟨t, h⟩ := h
  obtain ⟨n, hn⟩ := Option.ne_none_iff_exists'.1 hmem
  obtain ⟨hclear, hempty⟩ := clearNode_eq hn
  have hnotin : a ∉ t.inorder := mt h.pending_iff.2 hnot
  have hset := h.setTv hnot ⟨0, 0⟩
  let m' : AlarmMem := {
    rb := m.rb.modify a (rbSetParent a)
    tv := Function.update m.tv a ⟨0, 0⟩
    data := Function.update m.data a data
    function := Function.update m.function a function }
  refine ⟨m', by simp [AlarmMem.initAlarm, hclear, m'], t, h.holds.modify_outside hnotin,
    h.balanced, hset.entries, hset.normal, fun b hb => .inr (h.known b hb), fun b hb hbout => ?_⟩
  by_cases hba : b = a
  · exact hba ▸ hempty
  · exact (emptyNode_congr (cell_modify_other hba)).trans
      (h.idle b (hb.resolve_left hba) hbout)

/-! ## What expires next, and what has expired -/

theorem calculateNextRun_spec {cand now : Timeval} (hcand : cand.Normal) (hnow : now.Normal)
    (hmax : cand.tv_sec ≠ LONG_MAX) :
    ∃ tv, calculateNextRun cand now = some tv ∧ tv.Normal ∧
      tv.micros = max (cand.micros - now.micros) 0 := by
  rw [calculateNextRun, if_pos hmax]
  have hiff := timerLt_iff hnow hcand
  cases hlt : timerLt now cand with
  | true =>
    rw [hlt] at hiff
    refine ⟨_, rfl, normal_timersub hcand hnow, ?_⟩
    rw [micros_timersub, max_eq_left]
    have := hiff.1 rfl
    omega
  | false =>
    rw [hlt] at hiff
    refine ⟨_, rfl, by simp [Timeval.Normal], ?_⟩
    rw [max_eq_right]
    · rfl
    · have : ¬ now.micros < cand.micros := fun hlt' => Bool.false_ne_true (hiff.2 hlt')
      omega

/-- **`get_next_alarm_run`**: nothing without a pending alarm, else the time to the first one. -/
theorem getNextAlarmRun_spec {now : Timeval} (h : Shows m blocks q) (hnow : now.Normal)
    (hmax : ∀ x ∈ q.entries, x.2 < LONG_MAX * 1000000)
    (hfuel : depthBound q.entries.length ≤ fuel) :
    ∃ next, m.getNextAlarmRun fuel now = some next ∧
      (next = none ↔ q.entries = []) ∧
      ∀ tv ∈ next, tv.Normal ∧ ∀ x ∈ q.entries.head?, tv.micros = max (x.2 - now.micros) 0 := by
  obtain ⟨t, h⟩ := h
  have hfirst : rbFirst fuel m.rb = some (firstOf t.inorder) :=
    rbEnd_spec (d := .left) h.holds (h.height_le.trans hfuel)
  cases hin : t.inorder with
  | nil =>
    have hempty : q.entries = [] := by rw [h.entries, hin]; rfl
    rw [hin] at hfirst
    exact ⟨none, by simp [AlarmMem.getNextAlarmRun, hfirst, firstOf], by simp [hempty], by simp⟩
  | cons a rest =>
    have ha : a ∈ t.inorder := by simp [hin]
    have hentries : q.entries = (a, (m.tv a).micros) :: rest.map (fun a => (a, (m.tv a).micros)) := by
      rw [h.entries, hin]
      rfl
    have hnull : a ≠ NULL := h.holds.ne_null ha
    have hbound := hmax (a, (m.tv a).micros) (by simp [hentries])
    have hsec : (m.tv a).tv_sec ≠ LONG_MAX := by
      have hnorm := h.normal a ha
      unfold Timeval.Normal at hnorm
      unfold Timeval.micros at hbound
      intro heq
      rw [heq] at hbound
      simp only at hbound
      omega
    obtain ⟨tv, htv, hnormal, hmicros⟩ := calculateNextRun_spec (h.normal a ha) hnow hsec
    have hhead : firstOf (a :: rest) = a := rfl
    rw [hin, hhead] at hfirst
    refine ⟨some tv, by simp [AlarmMem.getNextAlarmRun, hfirst, hnull, htv], by simp [hentries], ?_⟩
    intro tv' htv'
    obtain rfl : tv = tv' := by simpa using htv'
    exact ⟨hnormal, by simp [hentries, hmicros]⟩

/-- The first loop of `do_alarm_run`, from a block on. -/
theorem collectExpired_from {now : Timeval} {v : List Ptr} {rounds : Nat} (u queue : List Ptr)
    (h : TreeShows m blocks q t) (hnow : now.Normal) (hin : t.inorder = u ++ v)
    (hfuel : depthBound q.entries.length ≤ fuel) (hrounds : v.length < rounds) :
    m.collectExpired fuel now rounds (firstOf v) queue =
      some ((v.takeWhile (fun a => (m.tv a).micros ≤ now.micros)).reverse ++ queue) := by
  induction v generalizing u queue rounds with
  | nil =>
    obtain ⟨rounds, rfl⟩ : ∃ j, rounds = j + 1 := ⟨rounds - 1, by omega⟩
    simp [AlarmMem.collectExpired, firstOf]
  | cons a v ih =>
    obtain ⟨rounds, rfl⟩ : ∃ j, rounds = j + 1 := ⟨rounds - 1, by omega⟩
    have ha : a ∈ t.inorder := by simp [hin]
    have hnull : a ≠ NULL := h.holds.ne_null ha
    have hhead : firstOf (a :: v) = a := rfl
    have hnext : rbNext fuel m.rb a = some (firstOf v) :=
      (rbNext_spec h.holds hin (h.height_le.trans hfuel)).1
    have hiff := timerLt_iff hnow (h.normal a ha)
    rw [AlarmMem.collectExpired, hhead, if_pos hnull]
    cases hlt : timerLt now (m.tv a) with
    | true =>
      rw [hlt] at hiff
      have hstop : ¬ (m.tv a).micros ≤ now.micros := not_le.2 (hiff.1 rfl)
      simp [hstop]
    | false =>
      rw [hlt] at hiff
      have hgo : (m.tv a).micros ≤ now.micros :=
        not_lt.1 (fun hlt' => Bool.false_ne_true (hiff.2 hlt'))
      have hrest := ih (u ++ [a]) (a :: queue) (by simp [hin])
        (show v.length < rounds by simpa using hrounds)
      simp [hnext, hrest, hgo]

/-- **The first loop of `do_alarm_run`** collects what has expired, the latest in front. -/
theorem collectExpired_spec {now : Timeval} {rounds : Nat} (h : Shows m blocks q)
    (hnow : now.Normal) (hfuel : depthBound q.entries.length ≤ fuel)
    (hrounds : q.entries.length < rounds) :
    ∃ node, rbFirst fuel m.rb = some node ∧
      m.collectExpired fuel now rounds node [] = some (q.due now.micros) := by
  obtain ⟨t, h⟩ := h
  have hfirst : rbFirst fuel m.rb = some (firstOf t.inorder) :=
    rbEnd_spec (d := .left) h.holds (h.height_le.trans hfuel)
  have hall := collectExpired_from [] [] h hnow (v := t.inorder) rfl hfuel
    (h.length ▸ hrounds)
  refine ⟨_, hfirst, hall.trans ?_⟩
  rw [Queue.due, h.entries, List.takeWhile_map, List.map_map]
  simp [Function.comp_def]

end Shown

end Meshias
