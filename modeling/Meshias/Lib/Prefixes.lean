import Mathlib.Data.BitVec
import Mathlib.Tactic

/-!
# Address prefixes

Networks of addresses of `w` bits, given by an address and the number of low bits that are free.

* `SameNet k a b` — `a` and `b` differ in their `k` low bits at most.  It gets weaker with `k`,
  so two networks that meet are nested.
* `Net`, `Net.Contains` — the networks.
* `NewestFirst` — a list of networks in which no network contains the address of one inserted
  after it; `Disjoint` — no network contains the address of another.

Principal results: `sameNet_iff_mask` — the test with a mask; `NewestFirst.free_lt` — among the
networks that contain an address the newest is the widest; `mostSpecific_iff` — the first match is
a most specific one, for every address, exactly if the networks are disjoint.
-/

set_option autoImplicit false

namespace Prefixes

variable {w : Nat}

/-- The addresses agree from bit `k` upwards. -/
def SameNet (k : Nat) (a b : BitVec w) : Prop := a >>> k = b >>> k

instance (k : Nat) (a b : BitVec w) : Decidable (SameNet k a b) :=
  inferInstanceAs (Decidable (_ = _))

theorem SameNet.refl (k : Nat) (a : BitVec w) : SameNet k a a := rfl

theorem SameNet.symm {k : Nat} {a b : BitVec w} (h : SameNet k a b) : SameNet k b a := Eq.symm h

theorem SameNet.trans {k : Nat} {a b c : BitVec w} (h : SameNet k a b) (h' : SameNet k b c) :
    SameNet k a c := Eq.trans h h'

theorem SameNet.mono {k k' : Nat} {a b : BitVec w} (h : SameNet k a b) (hk : k ≤ k') :
    SameNet k' a b := by
  obtain ⟨j, rfl⟩ := Nat.exists_eq_add_of_le hk
  unfold SameNet at h ⊢
  rw [BitVec.shiftRight_add, h, ← BitVec.shiftRight_add]

@[simp] theorem sameNet_zero {a b : BitVec w} : SameNet 0 a b ↔ a = b := by
  simp [SameNet]

theorem sameNet_iff_bits {k : Nat} {a b : BitVec w} :
    SameNet k a b ↔ ∀ i, k ≤ i → a.getLsbD i = b.getLsbD i := by
  unfold SameNet
  constructor
  · intro h i hi
    have hbit := congrArg (fun v => v.getLsbD (i - k)) h
    simpa [BitVec.getLsbD_ushiftRight, Nat.add_sub_cancel' hi] using hbit
  · intro h
    apply BitVec.eq_of_getLsbD_eq
    intro i _
    rw [BitVec.getLsbD_ushiftRight, BitVec.getLsbD_ushiftRight]
    exact h (k + i) (Nat.le_add_right k i)

/-- **A mask of ones with `k` zeros behind them compares networks.** -/
theorem sameNet_iff_mask {k : Nat} {a b : BitVec w} :
    a &&& (BitVec.allOnes w <<< k) = b &&& (BitVec.allOnes w <<< k) ↔ SameNet k a b := by
  have hmask : ∀ (v : BitVec w) (i : Nat),
      (v &&& (BitVec.allOnes w <<< k)).getLsbD i = (decide (k ≤ i) && v.getLsbD i) := by
    intro v i
    rw [BitVec.getLsbD_and, BitVec.getLsbD_shiftLeft, BitVec.getLsbD_allOnes]
    by_cases hi : i < w
    · by_cases hk : i < k
      · simp [hk]
      · simp [hi, hk, Nat.lt_of_le_of_lt (Nat.sub_le i k) hi, Nat.le_of_not_lt hk]
    · simp [BitVec.getLsbD_of_ge v i (Nat.le_of_not_lt hi)]
  rw [sameNet_iff_bits]
  constructor
  · intro h i hi
    have hbit := congrArg (fun v => v.getLsbD i) h
    simpa [hmask, hi] using hbit
  · intro h
    apply BitVec.eq_of_getLsbD_eq
    intro i _
    rw [hmask, hmask]
    by_cases hi : k ≤ i
    · rw [h i hi]
    · simp [hi]

/-- If every address of one network is in the other, the first has no more free bits. -/
theorem le_of_sameNet {k k' : Nat} {b : BitVec w} (hk : k ≤ w)
    (h : ∀ a, SameNet k a b → SameNet k' a b) : k ≤ k' := by
  by_contra hlt
  have hlt : k' < k := Nat.lt_of_not_le hlt
  -- the address that differs from `b` in bit `k'` only
  have hflip : SameNet k (b ^^^ BitVec.twoPow w k') b := by
    rw [sameNet_iff_bits]
    intro i hi
    simp [BitVec.getLsbD_xor, BitVec.getLsbD_twoPow, Nat.ne_of_lt (Nat.lt_of_lt_of_le hlt hi)]
  have hbit := sameNet_iff_bits.1 (h _ hflip) k' (le_refl k')
  simp [Nat.lt_of_lt_of_le hlt hk] at hbit

/-! ## Networks -/

structure Net (w : Nat) where
  addr : BitVec w
  free : Nat
  deriving DecidableEq, Repr

def Net.Contains (n : Net w) (a : BitVec w) : Prop := SameNet n.free a n.addr

instance (n : Net w) (a : BitVec w) : Decidable (n.Contains a) :=
  inferInstanceAs (Decidable (SameNet _ _ _))

theorem Net.contains_addr (n : Net w) : n.Contains n.addr := SameNet.refl _ _

/-- Two networks with a common address: the wider one contains the other. -/
theorem Net.Contains.nested {m n : Net w} {a : BitVec w} (hm : m.Contains a) (hn : n.Contains a)
    (hfree : n.free ≤ m.free) : m.Contains n.addr :=
  (SameNet.mono (SameNet.symm hn) hfree).trans hm

/-! ## Lists of networks -/

/-- No network contains the address of one that was put in front of it. -/
def NewestFirst (l : List (Net w)) : Prop := l.Pairwise (fun new old => ¬ old.Contains new.addr)

/-- Nor that of one behind it. -/
def Disjoint (l : List (Net w)) : Prop := l.Pairwise (fun new old => ¬ new.Contains old.addr)

/-- The first network of the list that contains `a`. -/
def firstMatch (l : List (Net w)) (a : BitVec w) : Option (Net w) :=
  l.find? (fun n => n.Contains a)

/-- The first match for `a`, if anything matches, leaves no more bits free than any match. -/
def MostSpecific (l : List (Net w)) (a : BitVec w) : Prop :=
  ∀ n ∈ l, n.Contains a → ∃ m, firstMatch l a = some m ∧ m.free ≤ n.free

/-- **Of two networks with a common address the newer one is the wider one.** -/
theorem NewestFirst.free_lt {new : Net w} {l : List (Net w)} (h : NewestFirst (new :: l))
    {old : Net w} (hold : old ∈ l) {a : BitVec w} (hnew : new.Contains a) (ha : old.Contains a) :
    old.free < new.free := by
  by_contra hle
  exact (List.pairwise_cons.1 h).1 old hold (ha.nested hnew (Nat.le_of_not_lt hle))

theorem mostSpecific_cons_of_contains {new : Net w} {l : List (Net w)} {a : BitVec w}
    (h : new.Contains a) :
    MostSpecific (new :: l) a ↔ ∀ n ∈ l, n.Contains a → new.free ≤ n.free := by
  have hfirst : firstMatch (new :: l) a = some new := List.find?_cons_of_pos (by simpa using h)
  unfold MostSpecific
  rw [hfirst]
  constructor
  · intro hall n hn ha
    obtain ⟨m, hm, hle⟩ := hall n (List.mem_cons_of_mem _ hn) ha
    rwa [Option.some.inj hm]
  · intro hall n hn ha
    refine ⟨new, rfl, ?_⟩
    rcases List.mem_cons.1 hn with rfl | hn
    · exact le_refl _
    · exact hall n hn ha

theorem mostSpecific_cons_of_not {new : Net w} {l : List (Net w)} {a : BitVec w}
    (h : ¬ new.Contains a) : MostSpecific (new :: l) a ↔ MostSpecific l a := by
  have hfirst : firstMatch (new :: l) a = firstMatch l a :=
    List.find?_cons_of_neg (by simpa using h)
  unfold MostSpecific
  rw [hfirst]
  constructor
  · exact fun hall n hn => hall n (List.mem_cons_of_mem _ hn)
  · intro hall n hn ha
    rcases List.mem_cons.1 hn with rfl | hn
    · exact absurd ha h
    · exact hall n hn ha

/-- **The first match is a most specific one for every address exactly if no network contains
    another.** -/
theorem mostSpecific_iff {l : List (Net w)} (h : NewestFirst l) :
    (∀ a, MostSpecific l a) ↔ Disjoint l := by
  induction l with
  | nil => simp [MostSpecific, Disjoint]
  | cons new l ih =>
    have htail : NewestFirst l := (List.pairwise_cons.1 h).2
    unfold Disjoint
    rw [List.pairwise_cons]
    constructor
    · intro hall
      -- an older network inside the new one would be hidden by it
      have hapart : ∀ old ∈ l, ¬ new.Contains old.addr := by
        intro old hold hin
        have hlt := h.free_lt hold hin old.contains_addr
        have hle := (mostSpecific_cons_of_contains hin).1 (hall old.addr) old hold
          old.contains_addr
        omega
      refine ⟨hapart, (ih htail).1 fun a n hn ha => ?_⟩
      have hnot : ¬ new.Contains a := by
        intro hnew
        have hlt := h.free_lt hn hnew ha
        exact hapart n hn (hnew.nested ha (Nat.le_of_lt hlt))
      exact (mostSpecific_cons_of_not hnot).1 (hall a) n hn ha
    · rintro ⟨hapart, hdis⟩ a
      by_cases hnew : new.Contains a
      · rw [mostSpecific_cons_of_contains hnew]
        intro n hn ha
        have hlt := h.free_lt hn hnew ha
        exact absurd (hnew.nested ha (Nat.le_of_lt hlt)) (hapart n hn)
      · rw [mostSpecific_cons_of_not hnew]
        exact (ih htail).2 hdis a

end Prefixes
