import Mathlib.Data.BitVec

/-!
# Serial numbers

Numbers of `w` bits that go round: of two numbers the older one is the one from which the other is
reached in fewer than half of all steps.

* `Older a b` — the difference `a - b` is negative as a signed number.
* `SameHalf a b` — the signed values of `a` and `b` are no further apart than half way round.

Principal results: `slt_add_iff`, `slt_sub_iff` — a comparison of the signed values finds a number
ahead, or behind, exactly if it does not have to go round.
-/

set_option autoImplicit false

namespace SerialNumbers

variable {w : Nat}

def Older (a b : BitVec w) : Prop := (a - b).toInt < 0

instance (a b : BitVec w) : Decidable (Older a b) := inferInstanceAs (Decidable (_ < _))

theorem not_older_self (a : BitVec w) : ¬ Older a a := by
  rw [Older, BitVec.sub_self, BitVec.toInt_zero]
  exact lt_irrefl 0

/-- The next number is not older, also where it goes round. -/
theorem not_older_add_one (hw : 1 < w) (a : BitVec w) : ¬ Older (a + 1) a := by
  have hone : a + 1 - a = 1#w := by
    rw [BitVec.add_comm, BitVec.add_sub_cancel]
    rfl
  rw [Older, hone, BitVec.toInt_one hw]
  decide

/-! ## Comparing the signed values -/

def SameHalf (a b : BitVec w) : Prop := 2 * (b.toInt - a.toInt).natAbs ≤ 2 ^ w

instance (a b : BitVec w) : Decidable (SameHalf a b) := inferInstanceAs (Decidable (_ ≤ _))

/-- The two halves of the signed values. -/
theorem toInt_cases (a : BitVec w) :
    2 * a.toNat < 2 ^ w ∧ a.toInt = a.toNat ∨
      2 ^ w ≤ 2 * a.toNat ∧ a.toInt = a.toNat - ((2 ^ w : Nat) : Int) := by
  rw [BitVec.toInt_eq_toNat_cond]
  split
  · rename_i hlow
    exact .inl ⟨hlow, rfl⟩
  · rename_i hhigh
    exact .inr ⟨Nat.not_lt.1 hhigh, rfl⟩

theorem toNat_add_ofNat_cases {k : Nat} (hk : k < 2 ^ w) (a : BitVec w) :
    a.toNat + k < 2 ^ w ∧ (a + BitVec.ofNat w k).toNat = a.toNat + k ∨
      2 ^ w ≤ a.toNat + k ∧ (a + BitVec.ofNat w k).toNat = a.toNat + k - 2 ^ w := by
  have ha := a.isLt
  rw [BitVec.toNat_add, BitVec.toNat_ofNat, Nat.mod_eq_of_lt hk]
  rcases Nat.lt_or_ge (a.toNat + k) (2 ^ w) with hlt | hge
  · exact .inl ⟨hlt, Nat.mod_eq_of_lt hlt⟩
  · exact .inr ⟨hge, by rw [Nat.mod_eq_sub_mod hge, Nat.mod_eq_of_lt (by omega)]⟩

theorem toNat_sub_ofNat_cases {k : Nat} (hk : k < 2 ^ w) (a : BitVec w) :
    k ≤ a.toNat ∧ (a - BitVec.ofNat w k).toNat = a.toNat - k ∨
      a.toNat < k ∧ (a - BitVec.ofNat w k).toNat = a.toNat + 2 ^ w - k := by
  have ha := a.isLt
  rw [BitVec.toNat_sub, BitVec.toNat_ofNat, Nat.mod_eq_of_lt hk]
  rcases Nat.lt_or_ge a.toNat k with hlt | hge
  · exact .inr ⟨hlt, by rw [Nat.mod_eq_of_lt (by omega)]; omega⟩
  · refine .inl ⟨hge, ?_⟩
    rw [show 2 ^ w - k + a.toNat = a.toNat - k + 2 ^ w by omega, Nat.add_mod_right,
      Nat.mod_eq_of_lt (by omega)]

/-- **A number ahead** is greater exactly if the signed values do not go round. -/
theorem slt_add_iff {k : Nat} (hpos : 0 < k) (hk : 2 * k < 2 ^ w) (a : BitVec w) :
    a.slt (a + BitVec.ofNat w k) = true ↔ SameHalf a (a + BitVec.ofNat w k) := by
  have hsum := toNat_add_ofNat_cases (by omega) a (k := k)
  have hold := toInt_cases a
  have hnew := toInt_cases (a + BitVec.ofNat w k)
  have ha := a.isLt
  rw [BitVec.slt_eq_decide, decide_eq_true_iff, SameHalf]
  omega

/-- **A number behind** is not greater exactly if the signed values do not go round. -/
theorem slt_sub_iff {k : Nat} (hpos : 0 < k) (hk : 2 * k < 2 ^ w) (a : BitVec w) :
    a.slt (a - BitVec.ofNat w k) = false ↔ SameHalf a (a - BitVec.ofNat w k) := by
  have hdiff := toNat_sub_ofNat_cases (by omega) a (k := k)
  have hold := toInt_cases a
  have hnew := toInt_cases (a - BitVec.ofNat w k)
  have ha := a.isLt
  rw [BitVec.slt_eq_decide, decide_eq_false_iff_not, SameHalf]
  omega

/-- Two numbers whose signed values go round are ahead of each other by less than half way. -/
theorem ahead_or_behind {a b : BitVec w} (h : ¬ SameHalf a b) :
    ∃ k : Nat, 0 < k ∧ 2 * k < 2 ^ w ∧ (b = a + BitVec.ofNat w k ∨ b = a - BitVec.ofNat w k) := by
  have hb : b = a + BitVec.ofNat w (b - a).toNat := by
    rw [BitVec.ofNat_toNat, BitVec.setWidth_eq, BitVec.add_comm, BitVec.sub_add_cancel]
  have hm := (b - a).isLt
  generalize (b - a).toNat = m at hb hm
  have hsum := toNat_add_ofNat_cases hm a
  rw [← hb] at hsum
  have hold := toInt_cases a
  have hnew := toInt_cases b
  have ha := a.isLt
  unfold SameHalf at h
  rcases Nat.lt_trichotomy (2 * m) (2 ^ w) with hlt | heq | hgt
  · exact ⟨m, by omega, hlt, .inl hb⟩
  · omega
  · refine ⟨2 ^ w - m, by omega, by omega, .inr ?_⟩
    refine BitVec.eq_of_toNat_eq ?_
    have hdiff := toNat_sub_ofNat_cases (show 2 ^ w - m < 2 ^ w by omega) a
    omega

end SerialNumbers
