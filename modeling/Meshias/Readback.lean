import Meshias.RrepLifetimes

/-!
# A lifetime that is read back

`msh_route_set_lifetime` at one time and `msh_route_get_lifetime` at a later one, on one object.
The getter takes the expiry time from the clock, so what it returns is the remaining time with the
wrong sign.

Principal result: `readsBack_iff`.
-/

set_option autoImplicit false

namespace Meshias

abbrev ManagedRoute := { route : MshRoute // route.hasFlag RTFLAG_UNMANAGED = false }

/-- The lifetime set at `now` is read `elapsed` milliseconds later as what is left of it.  Nothing
    has happened to the object in between. -/
def ReadsBack (route : ManagedRoute) (lifetime : U32) (now rank elapsed : Nat) : Prop :=
  mshRouteGetLifetime (now + elapsed * 1000) (mshRouteSetLifetime now rank route.1 lifetime) =
    if elapsed < lifetime.toNat then BitVec.ofNat 32 (lifetime.toNat - elapsed) else 0

instance (route : ManagedRoute) (lifetime : U32) (now rank elapsed : Nat) :
    Decidable (ReadsBack route lifetime now rank elapsed) :=
  inferInstanceAs (Decidable (_ = _))

/-- A whole number of milliseconds leaves a whole number of them. -/
theorem msLeft_elapsed (now elapsed : Nat) (lifetime : U32) :
    msLeft (now + elapsed * 1000) (now + lifetime.toNat * 1000) = lifetime.toNat - elapsed := by
  unfold msLeft
  omega

theorem getLifetime_setLifetime (route : ManagedRoute) (lifetime : U32) (now rank elapsed : Nat) :
    mshRouteGetLifetime (now + elapsed * 1000) (mshRouteSetLifetime now rank route.1 lifetime) =
      -BitVec.ofNat 32 (lifetime.toNat - elapsed) := by
  rw [mshRouteGetLifetime_eq, expiry_mshRouteSetLifetime route.2, lifetimeRead_eq, msLeft_elapsed]

/-- Only zero and the number half way round are their own negatives. -/
theorem neg_ofNat_eq_iff {m : Nat} (hm : m < 2 ^ 32) :
    -BitVec.ofNat 32 m = BitVec.ofNat 32 m ↔ m = 0 ∨ m = 2 ^ 31 := by
  rw [← BitVec.toNat_inj, BitVec.toNat_neg, BitVec.toNat_ofNat, Nat.mod_eq_of_lt hm]
  omega

/-- **When a lifetime is read back**: when it is over, or exactly `2 ^ 31` milliseconds are left. -/
theorem readsBack_iff (route : ManagedRoute) (lifetime : U32) (now rank elapsed : Nat) :
    ReadsBack route lifetime now rank elapsed ↔
      lifetime.toNat ≤ elapsed ∨ lifetime.toNat = elapsed + 2 ^ 31 := by
  have hlt : lifetime.toNat - elapsed < 2 ^ 32 := Nat.lt_of_le_of_lt (Nat.sub_le _ _) lifetime.isLt
  have hleft : (if elapsed < lifetime.toNat then BitVec.ofNat 32 (lifetime.toNat - elapsed) else 0)
      = BitVec.ofNat 32 (lifetime.toNat - elapsed) := by
    split
    · rfl
    · rename_i hover
      rw [Nat.sub_eq_zero_of_le (Nat.not_lt.1 hover)]
      rfl
  rw [ReadsBack, hleft, getLifetime_setLifetime, neg_ofNat_eq_iff hlt]
  omega

/-- A route with no flag set. -/
def plainRoute : ManagedRoute := ⟨{ self := 0 }, by decide⟩

/-- **Three seconds are read back as almost fifty days**, at once. -/
theorem three_seconds_misread :
    ¬ ∀ (route : ManagedRoute) (lifetime : U32) (now rank elapsed : Nat),
      ReadsBack route lifetime now rank elapsed := by
  intro hall
  have h := hall plainRoute ACTIVE_ROUTE_TIMEOUT 0 0 0
  revert h
  decide

end Meshias
