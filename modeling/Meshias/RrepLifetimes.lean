import Meshias.Expiry

/-!
# The lifetimes that a route reply sets

The comments in `aodv_process_rrep` take an expiry time to be the sum of the clock and a lifetime;
`msh_route_set_lifetime` takes a lifetime.  So the clock is added twice.  The entry of the next hop
that a reply is passed on to is given the lifetime that has been read from it, with the wrong sign.

* `LifetimeTaken` — an accepted reply sets the expiry time of its destination.
* `LifetimeExact` — the condition on the turn.
* `ForwardKept` — the entry a reply is passed on through stays in use.
* `StaysAlive` — the condition on the turn.

Principal results: `lifetimeTaken_iff`, `forwardKept_iff`; `lifetime_counted_from_epoch` — a reply
that arrives a second after the epoch lasts a second too long; `reverse_route_not_renewed`.
-/

set_option autoImplicit false

namespace Meshias

open Machine (run)

variable {s t : MshData} {i : Input} {pkt : AodvPkt} {b : InAddr}

/-! ## The destination of a reply -/

/-- **An accepted reply with lifetime `L` sets the alarm of its destination to `L` from now.** -/
def LifetimeTaken (s : MshData) (i : Input) : Prop :=
  ∀ pkt ∈ receivedRrep s i, rrepAcceptable s pkt = true →
    InUseUntil (step s i) (rrepNext pkt).dest_ip_addr
      (i.now + (rrepNext pkt).lifetime.toNat * 1000)

/-- The clock reads 0; or the reply is passed on through the entry of its own destination, which is
    set again, and the clock reads 0 with twice the lifetime added. -/
def lifetimeExact (s : MshData) (i : Input) (pkt : AodvPkt) : Bool :=
  let dest := (rrepNext pkt).dest_ip_addr
  let lifetime := (rrepNext pkt).lifetime
  if passedThrough s i pkt = some dest ∧
      -(clockMs i.now + lifetime) < clockMs i.now + ACTIVE_ROUTE_TIMEOUT then
    clockMs i.now + lifetime + lifetime = 0
  else clockMs i.now = 0

/-- The condition on one turn; the kernel must not refuse the route. -/
def LifetimeExact (s : MshData) (i : Input) : Prop :=
  ∀ pkt ∈ receivedRrep s i, rrepAcceptable s pkt = true →
    knownOnUpdate s i pkt (rrepNext pkt).dest_ip_addr = true ∧ lifetimeExact s i pkt = true

theorem msLeft_set (now : Nat) (lifetime : U32) :
    msLeft now (now + lifetime.toNat * 1000) = lifetime.toNat := by
  unfold msLeft
  omega

/-- What has just been set is read with the wrong sign. -/
theorem lifetimeRead_set (now : Nat) (lifetime : U32) :
    lifetimeRead now (now + lifetime.toNat * 1000) = -lifetime := by
  rw [lifetimeRead_eq, msLeft_set, BitVec.ofNat_toNat, BitVec.setWidth_eq]

theorem set_eq_set_iff {now : Nat} {v w : U32} :
    now + v.toNat * 1000 = now + w.toNat * 1000 ↔ v = w := by
  rw [← BitVec.toNat_inj]
  omega

/-- The entry of the destination is in use after the turn. -/
theorem active_dest (h : Wf s) (hpkt : receivedRrep s i = some pkt)
    (hacc : rrepAcceptable s pkt = true)
    (hknown : knownOnUpdate s i pkt (rrepNext pkt).dest_ip_addr = true) :
    (step s i).active (rrepNext pkt).dest_ip_addr = true := by
  obtain ⟨stats, hstep⟩ := step_of_receivedRrep hpkt
  have hmem : (rrepNext pkt).dest_ip_addr ∈ rrepActivated s i pkt := by
    rw [knownOnUpdate, decide_eq_true rfl, Bool.true_and] at hknown
    simp [rrepActivated, hacc, destActivated, hknown]
  rw [hstep, active_rrep i stats pkt _ h, decide_eq_true hmem, Bool.true_or]

theorem inUse_dest_iff (h : Wf s) (hs : TimersOk (step s i)) (hpkt : receivedRrep s i = some pkt)
    (hacc : rrepAcceptable s pkt = true) :
    InUseUntil (step s i) (rrepNext pkt).dest_ip_addr
        (i.now + (rrepNext pkt).lifetime.toNat * 1000) ↔
      knownOnUpdate s i pkt (rrepNext pkt).dest_ip_addr = true ∧ lifetimeExact s i pkt = true := by
  rw [inUseUntil_iff hs]
  cases hknown : knownOnUpdate s i pkt (rrepNext pkt).dest_ip_addr with
  | false =>
    -- the kernel has refused the route
    refine iff_of_false ?_ (fun hc => Bool.false_ne_true hc.1)
    rintro ⟨hact, -⟩
    have hsome := isSome_of_active hact
    rw [isSome_step_rrep h hpkt hacc, hknown] at hsome
    cases hsome
  | true =>
    have hset : expiryUpdated s i pkt (rrepNext pkt).dest_ip_addr =
        i.now + (clockMs i.now + (rrepNext pkt).lifetime).toNat * 1000 := by
      rw [expiryUpdated, if_pos ⟨rfl, hknown⟩]
    rw [and_iff_right (active_dest h hpkt hacc hknown), and_iff_right rfl,
      expiry_step_rrep h hpkt hacc, hset, setAgain, lifetimeRead_set, lifetimeExact]
    simp only [decide_eq_true_eq]
    generalize clockMs i.now = c
    generalize (rrepNext pkt).lifetime = l
    split
    · -- the entry has been set again, to what was read
      rw [set_eq_set_iff, decide_eq_true_eq]
      constructor <;> intro heq <;> bv_omega
    · rw [set_eq_set_iff, decide_eq_true_eq]
      constructor <;> intro heq <;> bv_omega

theorem lifetimeTaken_step_iff (h : Wf s) (hs : TimersOk (step s i)) :
    LifetimeTaken s i ↔ LifetimeExact s i := by
  refine forall_congr' fun pkt => forall_congr' fun hpkt => forall_congr' fun hacc => ?_
  exact inUse_dest_iff h hs hpkt hacc

/-- **The lifetime of a reply is taken** in exactly the turns in which the clock, in 32-bit
    milliseconds, reads 0, the replies aside that are passed on through the entry of their own
    destination. -/
theorem lifetimeTaken_iff (ip bcast : InAddr) (iface : U32) (is : List Input) (i : Input) :
    LifetimeTaken (run step (mshDataInit ip bcast iface) is) i ↔
      LifetimeExact (run step (mshDataInit ip bcast iface) is) i :=
  lifetimeTaken_step_iff (wf_run ip bcast iface is) (timersOk_step_run ip bcast iface is i)

/-- A second after the epoch 10.0.0.2 answers a request of 10.0.0.1, for 6 s. -/
def lateReply : Input :=
  ⟨1000000, [], [], datagramFrom 0x0A000002 64 (aodvPktBuildRrep 0 0 0 0x0A000002 1 0x0A000001 6000)⟩

/-- **The route lasts 7 s.** -/
theorem lifetime_counted_from_epoch :
    ¬ ∀ (ip bcast : InAddr) (iface : U32) (is : List Input) (i : Input),
      LifetimeTaken (run step (mshDataInit ip bcast iface) is) i := by
  intro hall
  have hexact := (lifetimeTaken_step_iff (wf_run _ _ _ []) (timersOk_step_run _ _ _ [] lateReply)).1
    (hall 0x0A000001 0x0A0000FF 0 [] lateReply)
  exact absurd hexact (by unfold LifetimeExact; decide +kernel)

/-! ## The reverse route of a reply -/

/-- **The entry that a reply is passed on through** is in use afterwards, until the later of the
    time it had and `ACTIVE_ROUTE_TIMEOUT` from now.  The time it had is that of the table with the
    route to the destination made, where the handler looks the entry up. -/
def ForwardKept (s : MshData) (i : Input) : Prop :=
  ∀ pkt ∈ receivedRrep s i, rrepAcceptable s pkt = true → s.ip_addr ≠ (rrepNext pkt).orig_ip_addr →
    ∀ j ∈ (rrepUpdated (s.arrive i) pkt).info (rrepNext pkt).orig_ip_addr,
      (rrepUpdated (s.arrive i) pkt).info j.next_hop ≠ none →
      InUseUntil (step s i) j.next_hop
        (max ((rrepUpdated (s.arrive i) pkt).expiry j.next_hop) (activeTimeout i.now))

/-- It is in use as long as that anyway, and the test leaves it alone; or 2³¹ ms are left, which is
    the same with the wrong sign. -/
def staysAlive (now expiry : Nat) : Bool :=
  activeTimeout now ≤ expiry && (!setAgain now expiry || expiry = now + 2 ^ 31 * 1000)

/-- The condition on one turn. -/
def StaysAlive (s : MshData) (i : Input) : Prop :=
  ∀ pkt ∈ receivedRrep s i, rrepAcceptable s pkt = true →
    ∀ a ∈ passedThrough s i pkt, staysAlive i.now (expiryUpdated s i pkt a) = true

/-- One entry. -/
theorem set_again_eq_max_iff (now expiry : Nat) :
    (if setAgain now expiry then now + (lifetimeRead now expiry).toNat * 1000 else expiry) =
        max expiry (activeTimeout now) ↔ staysAlive now expiry = true := by
  have hread : (lifetimeRead now expiry).toNat = (2 ^ 32 - msLeft now expiry % 2 ^ 32) % 2 ^ 32 := by
    rw [lifetimeRead_eq, BitVec.toNat_neg, BitVec.toNat_ofNat]
  have htimeout : activeTimeout now = now + 3000 * 1000 := rfl
  rw [staysAlive, Bool.and_eq_true, decide_eq_true_eq, hread, htimeout, msLeft]
  cases setAgain now expiry with
  | true =>
    rw [if_pos rfl, Bool.not_true, Bool.false_or, decide_eq_true_eq]
    omega
  | false =>
    rw [if_neg Bool.false_ne_true, Bool.not_false, Bool.true_or, and_iff_left rfl]
    omega

/-- The reply is passed on through the entry of the next hop towards its originator. -/
theorem mem_passedThrough (h : Wf s) (i : Input) (pkt : AodvPkt) (a : InAddr) :
    a ∈ passedThrough s i pkt ↔ s.ip_addr ≠ (rrepNext pkt).orig_ip_addr ∧
      ∃ j ∈ (rrepUpdated (s.arrive i) pkt).info (rrepNext pkt).orig_ip_addr,
        j.next_hop = a ∧ (rrepUpdated (s.arrive i) pkt).info a ≠ none := by
  have hnext := next_hop_passedTo i s.stats pkt h
  have hknown := isSome_updated_iff i s.stats pkt h a
  change ((rrepUpdated (s.arrive i) pkt).info (rrepNext pkt).orig_ip_addr).map _ = _ at hnext
  change ((rrepUpdated (s.arrive i) pkt).info a).isSome = _ at hknown
  rw [passedThrough, ← hnext]
  split
  · rename_i hown
    simp [hown]
  · rename_i hown
    rw [Option.mem_def, Option.filter_eq_some_iff, ← hknown, Option.isSome_iff_ne_none,
      Option.map_eq_some_iff, and_iff_right hown]
    constructor
    · rintro ⟨⟨j, hj, hnext⟩, hsome⟩
      exact ⟨j, hj, hnext, hsome⟩
    · rintro ⟨j, hj, hnext, hsome⟩
      exact ⟨⟨j, hj, hnext⟩, hsome⟩

theorem forwardKept_step_iff (h : Wf s) (hs : TimersOk (step s i)) :
    ForwardKept s i ↔ StaysAlive s i := by
  refine forall_congr' fun pkt => forall_congr' fun hpkt => forall_congr' fun hacc => ?_
  have hexp := expiry_updated i s.stats pkt h
  change ∀ b, (rrepUpdated (s.arrive i) pkt).expiry b = _ at hexp
  have hentry : ∀ a ∈ passedThrough s i pkt,
      (InUseUntil (step s i) a (max (expiryUpdated s i pkt a) (activeTimeout i.now)) ↔
        staysAlive i.now (expiryUpdated s i pkt a) = true) := by
    intro a ha
    have hpos : 0 < max (expiryUpdated s i pkt a) (activeTimeout i.now) :=
      lt_max_of_lt_right (Nat.lt_of_lt_of_le (by decide) (Nat.le_add_left _ _))
    rw [inUseUntil_iff_of_pos hs hpos, expiry_step_rrep h hpkt hacc, ← set_again_eq_max_iff]
    simp only [Option.mem_def.1 ha, true_and]
  constructor
  · intro hkept a ha
    obtain ⟨hown, j, hj, rfl, hsome⟩ := (mem_passedThrough h i pkt a).1 ha
    have huntil := hkept hown j hj hsome
    rw [hexp] at huntil
    exact (hentry _ ha).1 huntil
  · intro hstays hown j hj hsome
    have ha := (mem_passedThrough h i pkt j.next_hop).2 ⟨hown, j, hj, rfl, hsome⟩
    rw [hexp]
    exact (hentry _ ha).2 (hstays _ ha)

/-- **The reverse route of a reply is kept** in exactly the turns in which it does not need it. -/
theorem forwardKept_iff (ip bcast : InAddr) (iface : U32) (is : List Input) (i : Input) :
    ForwardKept (run step (mshDataInit ip bcast iface) is) i ↔
      StaysAlive (run step (mshDataInit ip bcast iface) is) i :=
  forwardKept_step_iff (wf_run ip bcast iface is) (timersOk_step_run ip bcast iface is i)

/-- 10.0.0.1 has a route to 10.0.0.8 over 10.0.0.2, whose own entry is in use until 3 s. -/
def reverseMade : List Input :=
  [⟨0, [], [], datagramFrom 0x0A000002 60 (aodvPktBuildRreq 1 1 7 0x0A000009 0 0x0A000008 1)⟩]

/-- At 1 s the reply of 10.0.0.9 arrives over 10.0.0.3. -/
def replyBack : Input :=
  ⟨1000000, [], [], datagramFrom 0x0A000003 60 (aodvPktBuildRrep 0 0 1 0x0A000009 1 0x0A000008 6000)⟩

/-- **The entry of 10.0.0.2 is still in use until 3 s**, instead of 4 s. -/
theorem reverse_route_not_renewed :
    ¬ ∀ (ip bcast : InAddr) (iface : U32) (is : List Input) (i : Input),
      ForwardKept (run step (mshDataInit ip bcast iface) is) i := by
  intro hall
  have hstays := (forwardKept_step_iff (wf_run _ _ _ reverseMade)
    (timersOk_step_run _ _ _ reverseMade replyBack)).1
    (hall 0x0A000001 0x0A0000FF 0 reverseMade replyBack)
  -- 2 s are left when the reply arrives
  have hends : ∃ pkt ∈ receivedRrep (run step (mshDataInit 0x0A000001 0x0A0000FF 0) reverseMade)
        replyBack,
      rrepAcceptable (run step (mshDataInit 0x0A000001 0x0A0000FF 0) reverseMade) pkt = true ∧
      0x0A000002 ∈ passedThrough (run step (mshDataInit 0x0A000001 0x0A0000FF 0) reverseMade)
        replyBack pkt ∧
      staysAlive replyBack.now
        (expiryUpdated (run step (mshDataInit 0x0A000001 0x0A0000FF 0) reverseMade)
          replyBack pkt 0x0A000002) = false := by decide +kernel
  obtain ⟨pkt, hpkt, hacc, hthrough, hnot⟩ := hends
  exact absurd (hstays pkt hpkt hacc _ hthrough) (by rw [hnot]; exact Bool.false_ne_true)

end Meshias
