import Meshias.Acceptance
import Meshias.PassingOn

/-!
# The reverse route

A new RREQ leaves a route to its originator.  The handler writes next hop and hop count without
looking at the sequence number, and computes the lifetime from the clock.

* `ReverseDecided`, `ReverseUpdated` — the entry is written by a request that is due, and left alone
  by one that is worse.
* `reverseMisjudged`, `ReversesWellJudged` — the requests that are not treated so, and the condition
  on the turn.
* `remaining`, `wantedLifetime`, `LifetimeRaised` — the lifetime is raised to what the request asks
  for.
* `lifetimeFits`, `LifetimesFit` — the condition on the turn.

Principal results: `reverseUpdated_iff`, `lifetimeRaised_iff`; `old_request_redirects`,
`new_reverse_route_short`.
-/

set_option autoImplicit false

namespace Meshias

open Machine (run)

variable {s t : MshData} {i : Input} {pkt : AodvPkt}

/-! ## Sequence number, hop count and next hop -/

/-- The request is newer than the entry, or as new and over a shorter way. -/
def RouteInfo.rreqDue (rreq : AodvRreq) (j : RouteInfo) : Bool :=
  !j.seq_valid || j.dest_seq_num.slt rreq.orig_seq_num ||
    (rreq.orig_seq_num == j.dest_seq_num && rreq.hop_count.toNat + 1 < j.hop_count.toNat)

/-- The entry is newer than the request, or as new and over no longer a way. -/
def RouteInfo.rreqWorse (rreq : AodvRreq) (j : RouteInfo) : Bool :=
  j.seq_valid && (rreq.orig_seq_num.slt j.dest_seq_num ||
    (rreq.orig_seq_num == j.dest_seq_num && j.hop_count ≤ rreq.hop_count))

/-- **The entry of the originator** in the table `t` after the request, against the table `u` behind
    the previous hop step. -/
def ReverseDecided (u t : MshData) (sender : InAddr) (rreq : AodvRreq) : Prop :=
  ((∀ j ∈ u.info rreq.orig_ip_addr, j.rreqDue rreq = true) →
    ∃ j ∈ t.info rreq.orig_ip_addr,
      j.dest_seq_num = rreq.orig_seq_num ∧ j.seq_valid = true ∧ j.next_hop = sender) ∧
  ∀ j ∈ u.info rreq.orig_ip_addr, u.active rreq.orig_ip_addr = true → j.rreqWorse rreq = true →
    (t.info rreq.orig_ip_addr).map RouteInfo.fields = some j.fields

/-- This for the new request of a turn. -/
def ReverseUpdated (s : MshData) (i : Input) : Prop :=
  ∀ pkt ∈ receivedRreq s i, rreqDuplicate s pkt = false →
    ReverseDecided (rreqArrived (s.arrive i) pkt) (step s i) pkt.address (rreqOfPayload pkt.payload)

/-- A number that is not valid is kept if it is the larger one; an active entry is redirected by a
    worse request, unless that comes the same way. -/
def reverseMisjudged (active : Bool) (sender : InAddr) (rreq : AodvRreq) (j : RouteInfo) : Bool :=
  !j.seq_valid && rreq.orig_seq_num.slt j.dest_seq_num ||
    active && j.rreqWorse rreq && (j.next_hop != sender || j.hop_count != rreq.hop_count)

/-- The entry of `b` is in use once the previous hop has been dealt with. -/
def activeArrived (s : MshData) (i : Input) (pkt : AodvPkt) (b : InAddr) : Bool :=
  b = pkt.address && knownOnArrival s i pkt b || s.active b

/-- The request is not misjudged, and a route that has to be created is not refused. -/
def reverseWellJudged (s : MshData) (i : Input) (pkt : AodvPkt) : Bool :=
  let rreq := rreqOfPayload pkt.payload
  match infoArrived s i pkt rreq.orig_ip_addr with
  | some j => !reverseMisjudged (activeArrived s i pkt rreq.orig_ip_addr) pkt.address rreq j
  | none => !nextRefused s i pkt

/-- The condition on one turn. -/
def ReversesWellJudged (s : MshData) (i : Input) : Prop :=
  ∀ pkt ∈ receivedRreq s i, rreqDuplicate s pkt = false → reverseWellJudged s i pkt = true

/-! ### One entry -/

section Entry

variable {p : InAddr} {rreq : AodvRreq} {j : RouteInfo}

/-- A request that is due is followed unless it finds a larger number that is not valid. -/
theorem followed_iff (hdue : j.rreqDue rreq = true) :
    (j.rreqUpdate p rreq.hop_count rreq.orig_seq_num).dest_seq_num = rreq.orig_seq_num ↔
      (!j.seq_valid && rreq.orig_seq_num.slt j.dest_seq_num) = false := by
  change (if j.dest_seq_num.slt rreq.orig_seq_num then rreq.orig_seq_num else j.dest_seq_num) = _ ↔ _
  rcases slt_trichotomy j.dest_seq_num rreq.orig_seq_num with hlt | heq | hgt
  · rw [if_pos hlt, slt_asymm hlt, Bool.and_false]
    simp
  · rw [heq, slt_irrefl, Bool.and_false]
    simp
  · -- the number that is there is the larger one
    have hne : j.dest_seq_num ≠ rreq.orig_seq_num := by
      intro heq
      rw [heq, slt_irrefl] at hgt
      cases hgt
    rw [if_neg (Bool.eq_false_iff.1 (slt_asymm hgt)), hgt, Bool.and_true]
    refine iff_of_false hne ?_
    simp only [RouteInfo.rreqDue, slt_asymm hgt, beq_eq_false_iff_ne.2 (Ne.symm hne), Bool.false_and,
      Bool.or_false] at hdue
    rw [hdue]
    exact Bool.noConfusion

/-- A worse request leaves an entry alone that has its next hop and its hop count. -/
theorem fields_rreqUpdate_iff (hworse : j.rreqWorse rreq = true) :
    (j.rreqUpdate p rreq.hop_count rreq.orig_seq_num).fields = j.fields ↔
      (j.next_hop != p || j.hop_count != rreq.hop_count) = false := by
  have hkept : ¬ j.dest_seq_num.slt rreq.orig_seq_num = true := by
    simp only [RouteInfo.rreqWorse, Bool.and_eq_true, Bool.or_eq_true, beq_iff_eq] at hworse
    rcases hworse.2 with hlt | ⟨heq, -⟩
    · rw [slt_asymm hlt]
      exact Bool.false_ne_true
    · rw [heq, slt_irrefl]
      exact Bool.false_ne_true
  have hfields : (j.rreqUpdate p rreq.hop_count rreq.orig_seq_num).fields =
      (j.dest_seq_num, rreq.hop_count, p) := by
    change ((if j.dest_seq_num.slt rreq.orig_seq_num then rreq.orig_seq_num else j.dest_seq_num),
      rreq.hop_count, p) = _
    rw [if_neg hkept]
  rw [hfields, RouteInfo.fields, Prod.mk.injEq, Prod.mk.injEq, and_iff_right rfl,
    Bool.or_eq_false_iff, bne_eq_false_iff_eq, bne_eq_false_iff_eq]
  constructor
  · rintro ⟨hhop, hnext⟩
    exact ⟨hnext.symm, hhop.symm⟩
  · rintro ⟨hnext, hhop⟩
    exact ⟨hhop.symm, hnext.symm⟩

/-- The first half of the property, for an entry. -/
theorem followed_of_due_iff (j : RouteInfo) :
    (j.rreqDue rreq = true →
      (j.rreqUpdate p rreq.hop_count rreq.orig_seq_num).dest_seq_num = rreq.orig_seq_num ∧
      (j.rreqUpdate p rreq.hop_count rreq.orig_seq_num).seq_valid = true ∧
      (j.rreqUpdate p rreq.hop_count rreq.orig_seq_num).next_hop = p) ↔
    (!j.seq_valid && rreq.orig_seq_num.slt j.dest_seq_num) = false := by
  cases hdue : j.rreqDue rreq with
  | true => rw [forall_prop_of_true rfl, and_iff_left ⟨rfl, rfl⟩, followed_iff hdue]
  | false =>
    refine iff_of_true (fun hc => absurd hc Bool.false_ne_true) ?_
    simp only [RouteInfo.rreqDue, Bool.or_eq_false_iff] at hdue
    rw [hdue.1.1, Bool.false_and]

/-- The second half. -/
theorem left_alone_iff (active : Bool) (j : RouteInfo) :
    (active = true → j.rreqWorse rreq = true →
      (j.rreqUpdate p rreq.hop_count rreq.orig_seq_num).fields = j.fields) ↔
    (active && j.rreqWorse rreq && (j.next_hop != p || j.hop_count != rreq.hop_count)) = false := by
  cases active with
  | false => simp
  | true =>
    cases hworse : j.rreqWorse rreq with
    | false => simp
    | true => rw [forall_prop_of_true rfl, forall_prop_of_true rfl, fields_rreqUpdate_iff hworse,
        Bool.true_and, Bool.true_and]

end Entry

/-! ### A turn -/

theorem active_arrive (h : Wf s) (i : Input) (pkt : AodvPkt) (b : InAddr) :
    (rreqArrived (s.arrive i) pkt).active b = activeArrived s i pkt b := by
  have harrived : (rreqArrived (s.arrive i) pkt).active b =
      (decide (b ∈ prevHopActivated s i pkt) || s.active b) := active_arrived i s.stats pkt b h
  rw [harrived, prevHopActivated, activeArrived]
  by_cases hb : b = pkt.address
  · rw [hb]
    cases knownOnArrival s i pkt pkt.address with
    | false => simp
    | true => simp
  · cases knownOnArrival s i pkt pkt.address with
    | false => simp [hb]
    | true => simp [hb]

theorem info_arrive (h : Wf s) (i : Input) (pkt : AodvPkt) (b : InAddr) :
    (rreqArrived (s.arrive i) pkt).info b = infoArrived s i pkt b :=
  info_arrived h i s.stats pkt b

theorem reverseDecided_iff (h : Wf s) (hpkt : receivedRreq s i = some pkt)
    (hnew : rreqDuplicate s pkt = false) :
    ReverseDecided (rreqArrived (s.arrive i) pkt) (step s i) pkt.address
      (rreqOfPayload pkt.payload) ↔ reverseWellJudged s i pkt = true := by
  rw [ReverseDecided, info_arrive h, active_arrive h, info_new_rreq h hpkt hnew, infoReversed,
    if_pos rfl, reverseWellJudged]
  cases infoArrived s i pkt (rreqOfPayload pkt.payload).orig_ip_addr with
  | none =>
    cases nextRefused s i pkt with
    | true => simp
    | false => simp [RouteInfo.orig]
  | some j =>
    simp only [Option.mem_some_iff, forall_eq', exists_eq_left', Option.map_some, Option.some.injEq]
    rw [Bool.not_eq_true', reverseMisjudged, Bool.or_eq_false_iff]
    exact and_congr (followed_of_due_iff j) (left_alone_iff _ j)

theorem reverseUpdated_step_iff (h : Wf s) : ReverseUpdated s i ↔ ReversesWellJudged s i :=
  forall_congr' fun _ => forall_congr' fun hpkt => forall_congr' fun hnew =>
    reverseDecided_iff h hpkt hnew

/-- **When the reverse route follows the newer request**, in every turn of every run. -/
theorem reverseUpdated_iff (ip bcast : InAddr) (iface : U32) (is : List Input) (i : Input) :
    ReverseUpdated (run step (mshDataInit ip bcast iface) is) i ↔
      ReversesWellJudged (run step (mshDataInit ip bcast iface) is) i :=
  reverseUpdated_step_iff (wf_run ip bcast iface is)

/-- An older request of 10.0.0.9, over 10.0.0.3 and five hops. -/
def oldRequest : Input :=
  ⟨1000000, [], [], datagramFrom 0x0A000003 60 (aodvPktBuildRreq 1 5 4 0x0A000007 0 0x0A000009 3)⟩

/-- **The route to 10.0.0.9 follows it.** -/
theorem old_request_redirects :
    ¬ ∀ (ip bcast : InAddr) (iface : U32) (is : List Input) (i : Input),
      ReverseUpdated (run step (mshDataInit ip bcast iface) is) i := by
  intro hall
  have hwell := (reverseUpdated_step_iff (wf_run _ _ _ destinationKnown)).1
    (hall 0x0A000001 0x0A0000FF 0 destinationKnown oldRequest)
  exact absurd hwell (by unfold ReversesWellJudged; decide +kernel)

/-! ## The lifetime -/

/-- The microseconds that are left to the entry of `b`; none if it is not in use. -/
def remaining (s : MshData) (now : Nat) (b : InAddr) : Nat := s.expiry b - now

/-- `2 * NET_TRAVERSAL_TIME - 2 * hop_count * NODE_TRAVERSAL_TIME`, in microseconds. -/
def wantedLifetime (hop_count : U8) : Nat :=
  (2 * NET_TRAVERSAL_TIME.toNat - 2 * hop_count.toNat * NODE_TRAVERSAL_TIME.toNat) * 1000

/-- **The lifetime of the reverse route is raised** to what a new request asks for; what was left is
    that of the table behind the previous hop step. -/
def LifetimeRaised (s : MshData) (i : Input) : Prop :=
  ∀ pkt ∈ receivedRreq s i, rreqDuplicate s pkt = false →
    remaining (step s i) i.now (rreqOfPayload pkt.payload).orig_ip_addr =
      max (remaining (rreqArrived (s.arrive i) pkt) i.now (rreqOfPayload pkt.payload).orig_ip_addr)
        (wantedLifetime (rreqOfPayload pkt.payload).hop_count)

/-- The entry in use until `expiry`: if the test raises it, the clock reads 0, or what is set is what
    is left; otherwise that is enough. -/
def lifetimeFits (now expiry : Nat) (hop_count : U8) : Bool :=
  if lifetimeRead now expiry < minimalLifetime now hop_count then
    if expiry - now ≤ wantedLifetime hop_count then clockMs now = 0 ∧ hop_count < 70
    else expiry - now = (minimalLifetime now hop_count).toNat * 1000
  else wantedLifetime hop_count ≤ expiry - now

/-- A new entry is in use for `ACTIVE_ROUTE_TIMEOUT`, which is never what the request asks for. -/
def reverseLifetimeFits (s : MshData) (i : Input) (pkt : AodvPkt) : Bool :=
  if knownOnArrival s i pkt (rreqOfPayload pkt.payload).orig_ip_addr then
    lifetimeFits i.now (expiryArrived s i pkt (rreqOfPayload pkt.payload).orig_ip_addr)
      (rreqOfPayload pkt.payload).hop_count
  else nextRefused s i pkt && 70 ≤ (rreqOfPayload pkt.payload).hop_count

/-- The condition on one turn. -/
def LifetimesFit (s : MshData) (i : Input) : Prop :=
  ∀ pkt ∈ receivedRreq s i, rreqDuplicate s pkt = false → reverseLifetimeFits s i pkt = true

theorem toNat_minimalLifetime (now : Nat) (hop_count : U8) :
    (minimalLifetime now hop_count).toNat =
      ((clockMs now).toNat + 5600 + (2 ^ 32 - 80 * hop_count.toNat)) % 2 ^ 32 := by
  have hnet : 2 * NET_TRAVERSAL_TIME = 5600#32 := by decide
  have hnode : NODE_TRAVERSAL_TIME = 40#32 := rfl
  have hclock : getAlarmTime (tvSec now) (tvUsec now) = clockMs now := rfl
  rw [minimalLifetime, hnet, hnode, hclock]
  bv_omega

theorem wantedLifetime_eq (hop_count : U8) :
    wantedLifetime hop_count = (5600 - 80 * hop_count.toNat) * 1000 := by
  have hnet : 2 * NET_TRAVERSAL_TIME.toNat = 5600 := by decide
  have hnode : NODE_TRAVERSAL_TIME.toNat = 40 := rfl
  rw [wantedLifetime, hnet, hnode]
  omega

/-- One entry. -/
theorem raised_eq_iff (now expiry : Nat) (hop_count : U8) :
    (if lifetimeRead now expiry < minimalLifetime now hop_count then
        now + (minimalLifetime now hop_count).toNat * 1000
      else expiry) - now = max (expiry - now) (wantedLifetime hop_count) ↔
    lifetimeFits now expiry hop_count = true := by
  have hm := toNat_minimalLifetime now hop_count
  rw [lifetimeFits]
  by_cases hraise : lifetimeRead now expiry < minimalLifetime now hop_count
  · have hpos : 0 < (minimalLifetime now hop_count).toNat := by bv_omega
    rw [if_pos hraise, if_pos hraise, Nat.add_sub_cancel_left, wantedLifetime_eq]
    by_cases hleft : expiry - now ≤ (5600 - 80 * hop_count.toNat) * 1000
    · have hclock : clockMs now = 0 ↔ (clockMs now).toNat = 0 := BitVec.toNat_inj.symm
      have hhops : hop_count < 70 ↔ hop_count.toNat < 70 := Iff.rfl
      have hlt := (clockMs now).isLt
      rw [if_pos hleft, decide_eq_true_eq, max_eq_right hleft, hclock, hhops]
      omega
    · rw [if_neg hleft, decide_eq_true_eq, max_eq_left (Nat.le_of_not_le hleft)]
      exact eq_comm
  · rw [if_neg hraise, if_neg hraise, decide_eq_true_eq]
    exact left_eq_sup

/-- The expiry time after a turn with a new request. -/
theorem expiry_new_rreq (h : Wf s) (hpkt : receivedRreq s i = some pkt)
    (hnew : rreqDuplicate s pkt = false) (b : InAddr) : ∃ stats,
    (step s i).expiry b = (rreqReversed ((s.arrive i).withStats stats) pkt).expiry b := by
  obtain ⟨stats, hstep⟩ := step_of_receivedRreq hpkt
  have hwf := (h.arrive i).withStats stats
  refine ⟨stats, ?_⟩
  rw [hstep, expiry_aodvProcessRreq pkt hwf, rreqDuplicate_arrive, hnew, if_neg Bool.false_ne_true]

/-- The reverse route then. -/
theorem expiry_reversed (h : Wf s) (i : Input) (stats : Statistics) (pkt : AodvPkt) :
    (rreqReversed ((s.arrive i).withStats stats) pkt).expiry (rreqOfPayload pkt.payload).orig_ip_addr =
      if knownOnArrival s i pkt (rreqOfPayload pkt.payload).orig_ip_addr then
        if lifetimeRead i.now (expiryArrived s i pkt (rreqOfPayload pkt.payload).orig_ip_addr) <
            minimalLifetime i.now (rreqOfPayload pkt.payload).hop_count then
          i.now + (minimalLifetime i.now (rreqOfPayload pkt.payload).hop_count).toNat * 1000
        else expiryArrived s i pkt (rreqOfPayload pkt.payload).orig_ip_addr
      else if nextRefused s i pkt then 0 else activeTimeout i.now := by
  have hwf := (h.arrive i).withStats stats
  have hknown := isSome_rreqArrived h i stats pkt (rreqOfPayload pkt.payload).orig_ip_addr
  have hbuffered : (rreqBuffered ((s.arrive i).withStats stats) pkt).info =
      (rreqArrived ((s.arrive i).withStats stats) pkt).info := rfl
  have hexpiry : (rreqBuffered ((s.arrive i).withStats stats) pkt).expiry =
      (rreqArrived ((s.arrive i).withStats stats) pkt).expiry := expiry_congr rfl
  have hrefuses : (rreqBuffered ((s.arrive i).withStats stats) pkt).refuses = nextRefused s i pkt :=
    nextRefused_eq h i stats pkt
  have hnow : (rreqBuffered ((s.arrive i).withStats stats) pkt).os.now = i.now :=
    (onlyTable_rreqArrived pkt hwf).now
  rw [rreqReversed, expiry_aodvUpdateOrig _ _ _ _ (wf_rreqBuffered pkt hwf), if_pos rfl, hnow,
    hexpiry, hbuffered, hrefuses, expiry_arrived i stats pkt h, ← hknown]
  cases (rreqArrived ((s.arrive i).withStats stats) pkt).info
    (rreqOfPayload pkt.payload).orig_ip_addr with
  | none => exact (if_neg Bool.false_ne_true).symm
  | some j => exact (if_pos rfl).symm

/-- An entry that is not there is not in use. -/
theorem expiryArrived_of_unknown {b : InAddr} (hknown : knownOnArrival s i pkt b = false) :
    expiryArrived s i pkt b = 0 := by
  have hnone : s.info b = none := by
    rw [knownOnArrival, Bool.or_eq_false_iff] at hknown
    exact Option.isSome_eq_false_iff.1 hknown.1 |> Option.isNone_iff_eq_none.1
  rw [expiryArrived, if_neg, expiry_of_none hnone]
  rintro ⟨rfl, hsome⟩
  rw [hknown] at hsome
  cases hsome

theorem lifetimeRaised_step_iff (h : Wf s) : LifetimeRaised s i ↔ LifetimesFit s i := by
  refine forall_congr' fun pkt => forall_congr' fun hpkt => forall_congr' fun hnew => ?_
  obtain ⟨stats, hexpiry⟩ := expiry_new_rreq h hpkt hnew (rreqOfPayload pkt.payload).orig_ip_addr
  have hbefore : (rreqArrived (s.arrive i) pkt).expiry (rreqOfPayload pkt.payload).orig_ip_addr =
      expiryArrived s i pkt (rreqOfPayload pkt.payload).orig_ip_addr :=
    expiry_arrived i s.stats pkt h _
  rw [remaining, remaining, hexpiry, hbefore, expiry_reversed h, reverseLifetimeFits]
  cases hknown : knownOnArrival s i pkt (rreqOfPayload pkt.payload).orig_ip_addr with
  | true =>
    rw [if_pos rfl, if_pos rfl]
    exact raised_eq_iff _ _ _
  | false =>
    rw [if_neg Bool.false_ne_true, if_neg Bool.false_ne_true, expiryArrived_of_unknown hknown,
      Nat.zero_sub, max_eq_right (Nat.zero_le _), wantedLifetime_eq, Bool.and_eq_true,
      decide_eq_true_eq]
    have hhops : 70 ≤ (rreqOfPayload pkt.payload).hop_count ↔
        70 ≤ (rreqOfPayload pkt.payload).hop_count.toNat := Iff.rfl
    rw [hhops]
    cases nextRefused s i pkt with
    | true =>
      rw [if_pos rfl, and_iff_right rfl]
      omega
    | false =>
      -- 3 s are no multiple of the traversal time
      have htimeout : activeTimeout i.now - i.now = 3000000 := Nat.add_sub_cancel_left _ _
      rw [if_neg Bool.false_ne_true, htimeout]
      refine iff_of_false (by omega) (fun hc => Bool.false_ne_true hc.1)

/-- **When the lifetime of the reverse route is what the request asks for**, in every turn of every
    run. -/
theorem lifetimeRaised_iff (ip bcast : InAddr) (iface : U32) (is : List Input) (i : Input) :
    LifetimeRaised (run step (mshDataInit ip bcast iface) is) i ↔
      LifetimesFit (run step (mshDataInit ip bcast iface) is) i :=
  lifetimeRaised_step_iff (wf_run ip bcast iface is)

/-- The first request of 10.0.0.9 that 10.0.0.1 hears, over 10.0.0.2 and one hop. -/
def firstRequest : Input :=
  ⟨0, [], [], datagramFrom 0x0A000002 60 (aodvPktBuildRreq 1 1 7 0x0A000008 0 0x0A000009 5)⟩

/-- **The new route lasts 3 s**, instead of 5.52 s. -/
theorem new_reverse_route_short :
    ¬ ∀ (ip bcast : InAddr) (iface : U32) (is : List Input) (i : Input),
      LifetimeRaised (run step (mshDataInit ip bcast iface) is) i := by
  intro hall
  have hfit := (lifetimeRaised_step_iff (wf_run _ _ _ [])).1
    (hall 0x0A000001 0x0A0000FF 0 [] firstRequest)
  exact absurd hfit (by unfold LifetimesFit; decide +kernel)

end Meshias
