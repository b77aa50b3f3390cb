import Mathlib.Data.List.Nodup
import Mathlib.Tactic

/-!
# Lists of records with a key

A list whose entries have pairwise different keys is a finite map; `find?` on the key is its
lookup.

* `find_key_some` — the lookup finds exactly the entry with the key; `find_place` — so does a lookup
  by its address.
* `find_key_map`, `find_key_filter` — what in-place updates and removals do to the lookup.
* `perm_map_update`, `perm_cons_filter` — an entry, and the others; `sum_map_update` and `sum_filter`
  are what that says about sums.
-/

set_option autoImplicit false

namespace KeyedList

variable {β κ κ' : Type} [DecidableEq κ]

omit [DecidableEq κ] in
theorem eq_of_key {key : β → κ} {l : List β} (hl : (l.map key).Nodup) {a b : β} (ha : a ∈ l)
    (hb : b ∈ l) (h : key a = key b) : a = b := List.inj_on_of_nodup_map hl ha hb h

theorem find_key_some {key : β → κ} {l : List β} (hl : (l.map key).Nodup) {k : κ} {b : β} :
    l.find? (fun b => key b = k) = some b ↔ b ∈ l ∧ key b = k := by
  constructor
  · intro h
    exact ⟨List.mem_of_find?_eq_some h, by simpa using List.find?_some h⟩
  · rintro ⟨hb, rfl⟩
    cases hf : l.find? (fun b' => key b' = key b) with
    | none => simpa using List.find?_eq_none.1 hf b hb
    | some c =>
      have hc : key c = key b := by simpa using List.find?_some hf
      rw [eq_of_key hl (List.mem_of_find?_eq_some hf) hb hc]

omit [DecidableEq κ] in
/-- The lookup by an address that only entries with one key have. -/
theorem find_place {α : Type} [DecidableEq α] {key : β → κ} {place : κ → α} {l : List β}
    (hl : (l.map key).Nodup) {b : β}
    (hinj : ∀ c ∈ l, place (key c) = place (key b) → key c = key b) (hb : b ∈ l) :
    l.find? (fun c => place (key c) = place (key b)) = some b := by
  cases hf : l.find? (fun c => place (key c) = place (key b)) with
  | none => simpa using List.find?_eq_none.1 hf b hb
  | some c =>
    have hmem := List.mem_of_find?_eq_some hf
    have hplace : place (key c) = place (key b) := by simpa using List.find?_some hf
    rw [eq_of_key hl hmem hb (hinj c hmem hplace)]

theorem find_key_none {key : β → κ} {l : List β} {k : κ} :
    l.find? (fun b => key b = k) = none ↔ ∀ b ∈ l, key b ≠ k := by
  simp [List.find?_eq_none]

theorem find_key_map {key : β → κ} {f : β → β} (hf : ∀ b, key (f b) = key b) (l : List β)
    (k : κ) : (l.map f).find? (fun b => key b = k) = (l.find? (fun b => key b = k)).map f := by
  rw [List.find?_map]
  simp only [Function.comp_def, hf]

theorem find_key_filter {key : β → κ} {l : List β} (hl : (l.map key).Nodup) (p : β → Bool)
    (k : κ) : (l.filter p).find? (fun b => key b = k) =
      (l.find? (fun b => key b = k)).filter p := by
  have hl' : ((l.filter p).map key).Nodup := hl.sublist ((List.filter_sublist).map key)
  ext b
  simp only [find_key_some hl', Option.filter_eq_some_iff, find_key_some hl, List.mem_filter]
  tauto

omit [DecidableEq κ] in
theorem map_key_map {key : β → κ} {f : β → β} (hf : ∀ b, key (f b) = key b) (l : List β) :
    (l.map f).map key = l.map key := by
  rw [List.map_map]
  exact List.map_congr_left fun b _ => hf b

/-- An update at one value of a second key leaves every other entry alone. -/
theorem find_key_map_at [DecidableEq κ'] {key : β → κ} {ptr : β → κ'} {l : List β} (hl : (l.map key).Nodup)
    (hp : (l.map ptr).Nodup) {f : β → β} (hf : ∀ b, key (f b) = key b) {b : β} (hb : b ∈ l)
    (k : κ) :
    (l.map (fun c => if ptr c = ptr b then f c else c)).find? (fun c => key c = k) =
      if k = key b then some (f b) else l.find? (fun c => key c = k) := by
  have hkey : ∀ c, key (if ptr c = ptr b then f c else c) = key c := by
    intro c; split
    · exact hf c
    · rfl
  rw [find_key_map hkey]
  split
  · rename_i hk
    rw [(find_key_some hl).2 ⟨hb, hk.symm⟩]
    simp
  · rename_i hk
    cases hc : l.find? (fun c => key c = k) with
    | none => rfl
    | some c =>
      obtain ⟨hcl, hck⟩ := (find_key_some hl).1 hc
      have hne : ptr c ≠ ptr b := fun h => hk (by rw [← hck, eq_of_key hp hcl hb h])
      simp [hne]

/-- An optional part of each entry, after the one with a key is changed. -/
theorem perm_filterMap_update {γ : Type} {key : β → κ} {l : List β} (hl : (l.map key).Nodup)
    {b : β} (hb : b ∈ l) {f : β → β} {g : β → Option γ} {c : γ} (hc : g (f b) = some c) :
    ((l.map (fun x => if key x = key b then f x else x)).filterMap g).Perm
      (c :: (l.filter (fun x => key x ≠ key b)).filterMap g) := by
  induction l with
  | nil => cases hb
  | cons x l ih =>
    rw [List.map_cons, List.nodup_cons] at hl
    by_cases hx : key x = key b
    · have hsame : x = b := by
        rcases List.mem_cons.1 hb with rfl | hb
        · rfl
        · exact absurd (List.mem_map.2 ⟨b, hb, hx.symm⟩) hl.1
      subst hsame
      have hother : ∀ y ∈ l, key y ≠ key x := fun y hy he => hl.1 (List.mem_map.2 ⟨y, hy, he⟩)
      have hmap : l.map (fun y => if key y = key x then f y else y) = l := by
        rw [List.map_congr_left (g := id) fun y hy => by simp [hother y hy], List.map_id]
      have hfilter : l.filter (fun y => key y ≠ key x) = l :=
        List.filter_eq_self.2 fun y hy => by simpa using hother y hy
      rw [List.map_cons, if_pos rfl, hmap, List.filter_cons_of_neg (by simp), hfilter,
        List.filterMap_cons_some hc]
    · have hbl : b ∈ l := (List.mem_cons.1 hb).resolve_left fun he => hx (by rw [he])
      have hrest := ih hl.2 hbl
      rw [List.map_cons, if_neg hx, List.filter_cons_of_pos (by simpa using hx)]
      cases hgx : g x with
      | none => simpa [hgx] using hrest
      | some d =>
        rw [List.filterMap_cons_some hgx, List.filterMap_cons_some hgx]
        exact (hrest.cons d).trans (.swap c d _)

/-- The entry with a key loses that part. -/
theorem filterMap_update_none {γ : Type} {key : β → κ} {f : β → β} {g : β → Option γ}
    (hf : ∀ b, g (f b) = none) (l : List β) (k : κ) :
    (l.map (fun x => if key x = k then f x else x)).filterMap g =
      (l.filter (fun x => key x ≠ k)).filterMap g := by
  induction l with
  | nil => rfl
  | cons x l ih =>
    by_cases hx : key x = k
    · simpa [hx, hf] using ih
    · rw [List.map_cons, if_neg hx, List.filter_cons_of_pos (by simpa using hx),
        List.filterMap_cons, List.filterMap_cons, ih]

/-- The entry with a key, changed, and the others. -/
theorem perm_map_update {key : β → κ} {l : List β} (hl : (l.map key).Nodup) {b : β} (hb : b ∈ l)
    (f : β → β) :
    (l.map (fun x => if key x = key b then f x else x)).Perm
      (f b :: l.filter (fun x => key x ≠ key b)) := by
  simpa using perm_filterMap_update (g := some) hl hb rfl

theorem perm_cons_filter {key : β → κ} {l : List β} (hl : (l.map key).Nodup) {b : β} (hb : b ∈ l) :
    l.Perm (b :: l.filter (fun x => key x ≠ key b)) := by
  simpa using perm_map_update hl hb id

/-- The entry that was changed is taken out. -/
theorem filter_map_update {key : β → κ} {f : β → β} (hf : ∀ b, key (f b) = key b) (l : List β)
    (k : κ) :
    (l.map (fun x => if key x = k then f x else x)).filter (fun x => key x ≠ k) =
      l.filter (fun x => key x ≠ k) := by
  induction l with
  | nil => rfl
  | cons x l ih =>
    by_cases hx : key x = k
    · simpa [hx, hf] using ih
    · simpa [hx] using ih

/-- A sum over the entries, after the one with a key is changed. -/
theorem sum_map_update {key : β → κ} {l : List β} (hl : (l.map key).Nodup) {b : β} (hb : b ∈ l)
    (f : β → β) (w : β → Nat) :
    ((l.map (fun x => if key x = key b then f x else x)).map w).sum + w b =
      (l.map w).sum + w (f b) := by
  have hnew := ((perm_map_update hl hb f).map w).sum_eq
  have hold := ((perm_cons_filter hl hb).map w).sum_eq
  simp only [List.map_cons, List.sum_cons] at hnew hold
  omega

theorem sum_filter {key : β → κ} {l : List β} (hl : (l.map key).Nodup) {b : β} (hb : b ∈ l)
    (w : β → Nat) : ((l.filter (fun x => key x ≠ key b)).map w).sum + w b = (l.map w).sum := by
  have hold := ((perm_cons_filter hl hb).map w).sum_eq
  simp only [List.map_cons, List.sum_cons] at hold
  omega

omit [DecidableEq κ] in
/-- A test on the parts that is one on the entries. -/
theorem filter_filterMap_eq {γ : Type} {l : List β} {g : β → Option γ} {p : γ → Bool} {q : β → Bool}
    (h : ∀ x c, g x = some c → p c = q x) :
    (l.filterMap g).filter p = (l.filter q).filterMap g := by
  rw [List.filter_filterMap, List.filterMap_filter]
  refine List.filterMap_congr fun x _ => ?_
  cases hg : g x with
  | none => simp
  | some c => cases hq : q x <;> simp [Option.filter, h x c hg, hq]

end KeyedList
