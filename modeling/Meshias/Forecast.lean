import Meshias.Traffic

/-!
# What a turn is going to do

The handlers decide on states in the middle of a turn.  Here the same decisions are read off the
state before it and the input: which insertions the kernel refuses, whether a RREP is accepted, and
which entries come into use.

* `knownOnArrival`, `nextRefused` — the table and the kernel once the previous hop is dealt with.
* `rrepAcceptable` — the test of the RREP handler.
* `activated` — the addresses whose entries a datagram or a data packet brings into use.

Principal results: `rrepAccepted_eq`, and `active_step` — a turn other than an alarm run brings
into use exactly the entries of `activated`, and takes none out of use.
-/

set_option autoImplicit false

namespace Meshias

variable {s t : MshData}

/-! ## After the previous hop -/

/-- The kernel refuses the insertion after the one for the previous hop. -/
def nextRefused (s : MshData) (i : Input) (pkt : AodvPkt) : Bool :=
  (if s.info pkt.address = none then i.refusals.tail else i.refusals).headD false

/-- There is an entry for `b` once the previous hop has been dealt with. -/
def knownOnArrival (s : MshData) (i : Input) (pkt : AodvPkt) (b : InAddr) : Bool :=
  (s.info b).isSome || b = pkt.address && !i.refusals.headD false

theorem isSome_rreqArrived (h : Wf s) (i : Input) (stats : Statistics) (pkt : AodvPkt)
    (b : InAddr) :
    ((rreqArrived ((s.arrive i).withStats stats) pkt).info b).isSome = knownOnArrival s i pkt b := by
  rw [info_rreqArrived pkt ((h.arrive i).withStats stats), knownOnArrival]
  change (if s.info pkt.address = none ∧ i.refusals.headD false = false ∧ b = pkt.address then _
    else s.info b).isSome = _
  split
  · rename_i hc
    rw [hc.2.2, hc.2.1]
    simp
  · rename_i hc
    cases hb : s.info b with
    | some _ => rfl
    | none =>
      -- without an entry for `b`, the two conditions say the same
      by_cases hbp : b = pkt.address
      · subst hbp
        cases href : i.refusals.headD false with
        | false => exact absurd ⟨hb, href, rfl⟩ hc
        | true => simp
      · simp [hbp]

theorem nextRefused_eq (h : Wf s) (i : Input) (stats : Statistics) (pkt : AodvPkt) :
    (rreqArrived ((s.arrive i).withStats stats) pkt).refuses = nextRefused s i pkt :=
  refuses_rreqArrived pkt ((h.arrive i).withStats stats)

/-- The reply is accepted. -/
def rrepAcceptable (s : MshData) (pkt : AodvPkt) : Bool :=
  match s.info (rrepNext pkt).dest_ip_addr with
  | some j => j.rrepUpdates
      (s.active (rrepNext pkt).dest_ip_addr || (rrepNext pkt).dest_ip_addr = pkt.address)
      (rrepNext pkt)
  | none => true

theorem info_rreqArrived_of_some (h : Wf s) (pkt : AodvPkt) {b : InAddr} {j : RouteInfo}
    (hj : s.info b = some j) : (rreqArrived s pkt).info b = some j := by
  rw [info_rreqArrived pkt h, if_neg]
  · exact hj
  · rintro ⟨hnone, -, rfl⟩
    rw [hnone] at hj
    exact absurd hj (by simp)

/-- An entry is in use on arrival if it was before, or is that of the sender. -/
theorem active_rreqArrived_of_some (h : Wf s) (pkt : AodvPkt) {b : InAddr} {j : RouteInfo}
    (hj : s.info b = some j) :
    (rreqArrived s pkt).active b = (s.active b || b = pkt.address) := by
  rw [active_rreqArrived pkt h, Bool.or_comm]
  congr 1
  rw [decide_eq_decide]
  refine ⟨fun hc => hc.1, fun hc => ⟨hc, .inl ?_⟩⟩
  rw [← hc, hj]
  simp

theorem rrepAccepted_eq (h : Wf s) (pkt : AodvPkt) :
    rrepAccepted (rreqArrived s pkt) (rrepNext pkt) = rrepAcceptable s pkt := by
  rw [rrepAccepted, rrepAcceptable]
  cases hd : s.info (rrepNext pkt).dest_ip_addr with
  | some j => rw [info_rreqArrived_of_some h pkt hd, active_rreqArrived_of_some h pkt hd]
  | none =>
    rw [info_rreqArrived pkt h]
    split
    · rename_i j hj
      split at hj
      · obtain rfl := Option.some.inj hj
        rfl
      · rw [hd] at hj; exact absurd hj (by simp)
    · rfl

/-- In a turn the test is made on the state before it. -/
theorem rrepAccepted_arrive (h : Wf s) (i : Input) (stats : Statistics) (pkt : AodvPkt) :
    rrepAccepted (rreqArrived ((s.arrive i).withStats stats) pkt) (rrepNext pkt) =
      rrepAcceptable s pkt :=
  rrepAccepted_eq ((h.arrive i).withStats stats) pkt

/-! ## Entries that come into use -/

/-- The previous hop, unless its insertion is refused. -/
def prevHopActivated (s : MshData) (i : Input) (pkt : AodvPkt) : List InAddr :=
  if knownOnArrival s i pkt pkt.address then [pkt.address] else []

/-- A RREQ: the previous hop and, if the request is new, the originator. -/
def rreqActivated (s : MshData) (i : Input) (pkt : AodvPkt) : List InAddr :=
  let rreq := rreqOfPayload pkt.payload
  prevHopActivated s i pkt ++
    if rreqDuplicate s pkt then []
    else if knownOnArrival s i pkt rreq.orig_ip_addr then
      if minimalLifetime i.now rreq.hop_count ≠ 0 then [rreq.orig_ip_addr] else []
    else if nextRefused s i pkt then [] else [rreq.orig_ip_addr]

/-- The destination of an accepted RREP, unless its insertion is refused. -/
def destActivated (s : MshData) (i : Input) (pkt : AodvPkt) : List InAddr :=
  if knownOnArrival s i pkt (rrepNext pkt).dest_ip_addr || !nextRefused s i pkt then
    [(rrepNext pkt).dest_ip_addr]
  else []

/-- The next hop a RREP is passed on to. -/
def passedActivated (s : MshData) (i : Input) (pkt : AodvPkt) : List InAddr :=
  match s.info (rrepNext pkt).orig_ip_addr with
  | some j =>
    if (rrepNext pkt).orig_ip_addr ≠ s.ip_addr ∧
        (rrepNext pkt).orig_ip_addr ≠ (rrepNext pkt).dest_ip_addr ∧
        (s.info j.next_hop).isSome = true ∧
        getAlarmTime (tvSec i.now) (tvUsec i.now) + ACTIVE_ROUTE_TIMEOUT ≠ 0 then
      [j.next_hop]
    else []
  | none => []

def rrepActivated (s : MshData) (i : Input) (pkt : AodvPkt) : List InAddr :=
  prevHopActivated s i pkt ++
    if rrepAcceptable s pkt then destActivated s i pkt ++ passedActivated s i pkt else []

/-- A data packet: the destination, the source, and the next hop of each. -/
def refreshList (s : MshData) (a : InAddr) : List InAddr :=
  match s.info a with
  | some j => a :: if (s.info j.next_hop).isSome then [j.next_hop] else []
  | none => []

def packetActivated (s : MshData) (nfa : NfqData) : List InAddr :=
  let dest := nfqueuePacketGetDest nfa
  let orig := if nfqueuePacketGetHook nfa = NF_IP_LOCAL_OUT then 0 else nfqueuePacketGetOrig nfa
  if !packetPasses s nfa && routeUsable s dest then
    (if dest ≠ s.ip_addr then refreshList s dest else []) ++
      if orig ≠ 0 then refreshList s orig else []
  else []

/-- **The addresses whose entries a turn brings into use.** -/
def activated (s : MshData) (i : Input) : List InAddr :=
  match receivedRreq s i, receivedRrep s i, i.event with
  | some pkt, _, _ => rreqActivated s i pkt
  | none, some pkt, _ => rrepActivated s i pkt
  | none, none, .packet nfa => packetActivated s nfa
  | none, none, _ => []

section

variable (i : Input) (stats : Statistics) (pkt : AodvPkt) (b : InAddr)

theorem active_arrived (h : Wf s) :
    (rreqArrived ((s.arrive i).withStats stats) pkt).active b =
      (decide (b ∈ prevHopActivated s i pkt) || s.active b) := by
  rw [active_rreqArrived pkt ((h.arrive i).withStats stats), prevHopActivated, knownOnArrival]
  change (decide (b = pkt.address ∧ (s.info pkt.address ≠ none ∨ i.refusals.headD false = false)) ||
    s.active b) = _
  cases s.info pkt.address with
  | some j => simp
  | none =>
    cases i.refusals.headD false with
    | false => simp
    | true => simp

theorem active_rreq (h : Wf s) :
    (aodvProcessRreq ((s.arrive i).withStats stats) pkt).active b =
      (decide (b ∈ rreqActivated s i pkt) || s.active b) := by
  have hwf := (h.arrive i).withStats stats
  have harr := active_arrived i stats pkt b h
  rw [active_aodvProcessRreq pkt hwf, rreqActivated]
  change (if rreqDuplicate s pkt then _ else _ : InAddr → Bool) b = _
  cases rreqDuplicate s pkt with
  | true => simpa using harr
  | false =>
    have hknown := isSome_rreqArrived h i stats pkt (rreqOfPayload pkt.payload).orig_ip_addr
    have hnow : (rreqArrived ((s.arrive i).withStats stats) pkt).os.now = i.now :=
      (onlyTable_rreqArrived pkt hwf).now
    rw [if_neg Bool.false_ne_true, active_rreqReversed pkt hwf, harr, origActivates, hnow,
      nextRefused_eq h, ← hknown]
    cases (rreqArrived ((s.arrive i).withStats stats) pkt).info
      (rreqOfPayload pkt.payload).orig_ip_addr with
    | none =>
      cases nextRefused s i pkt <;> simp [Bool.or_comm, Bool.or_assoc]
    | some j =>
      by_cases hlife : minimalLifetime i.now (rreqOfPayload pkt.payload).hop_count ≠ 0
      · rw [Option.isSome_some, if_pos rfl, if_pos hlife]
        simp only [decide_eq_true hlife, Bool.and_true]
        simp [Bool.or_comm, Bool.or_assoc]
      · rw [Option.isSome_some, if_pos rfl, if_neg hlife]
        simp only [decide_eq_false hlife, Bool.and_false]
        simp

theorem active_updated (h : Wf s) :
    (rrepUpdated ((s.arrive i).withStats stats) pkt).active b =
      (decide (b ∈ destActivated s i pkt) || (decide (b ∈ prevHopActivated s i pkt) ||
        s.active b)) := by
  have hwf := (h.arrive i).withStats stats
  rw [active_rrepUpdated pkt hwf, active_arrived i stats pkt b h, nextRefused_eq h,
    isSome_rreqArrived h, destActivated]
  cases knownOnArrival s i pkt (rrepNext pkt).dest_ip_addr <;> cases nextRefused s i pkt <;> simp

/-- An entry that is there after the update was there before or has come into use. -/
theorem isSome_updated (h : Wf s)
    (hsome : ((rrepUpdated ((s.arrive i).withStats stats) pkt).info b).isSome = true) :
    (s.info b).isSome = true ∨ b ∈ prevHopActivated s i pkt ∨ b ∈ destActivated s i pkt := by
  have hwf := (h.arrive i).withStats stats
  have hknown := isSome_rreqArrived h i stats pkt b
  have harr : ((rreqArrived ((s.arrive i).withStats stats) pkt).info b).isSome = true →
      (s.info b).isSome = true ∨ b ∈ prevHopActivated s i pkt ∨ b ∈ destActivated s i pkt := by
    intro hb
    rw [hknown] at hb
    by_cases hbp : b = pkt.address
    · subst hbp
      exact .inr (.inl (by rw [prevHopActivated, if_pos hb]; exact List.mem_singleton_self _))
    · left
      rw [knownOnArrival, decide_eq_false hbp, Bool.false_and, Bool.or_false] at hb
      exact hb
  rw [info_rrepUpdated pkt hwf] at hsome
  split at hsome
  · rename_i hb
    subst hb
    split at hsome
    · rename_i j hj
      exact harr (by rw [hj]; rfl)
    · rename_i hj
      rw [nextRefused_eq h] at hsome
      cases href : nextRefused s i pkt with
      | true => rw [href] at hsome; exact absurd hsome (by simp)
      | false =>
        refine .inr (.inr ?_)
        rw [destActivated, href, if_pos (by simp)]
        exact List.mem_singleton_self _
  · exact harr hsome

/-- The next hop towards the originator is an old one, or the sender of the reply. -/
theorem next_hop_updated (h : Wf s) {a : InAddr} {j : RouteInfo}
    (hj : (rrepUpdated ((s.arrive i).withStats stats) pkt).info a = some j) :
    (a ≠ (rrepNext pkt).dest_ip_addr ∧ s.info a = some j) ∨ j.next_hop = pkt.address := by
  have hwf := (h.arrive i).withStats stats
  rw [info_rrepUpdated pkt hwf] at hj
  split at hj
  · right
    split at hj
    · obtain rfl := Option.some.inj hj; rfl
    · split at hj
      · exact absurd hj (by simp)
      · obtain rfl := Option.some.inj hj; rfl
  · rename_i hne
    rw [info_rreqArrived pkt hwf] at hj
    split at hj
    · right; obtain rfl := Option.some.inj hj; rfl
    · exact .inl ⟨hne, hj⟩

/-- What passing the reply on brings into use, beyond the previous hop and the destination. -/
theorem revives_iff (h : Wf s) :
    ((decide (s.ip_addr ≠ (rrepNext pkt).orig_ip_addr) &&
        rrepRevives (rrepUpdated ((s.arrive i).withStats stats) pkt) (rrepNext pkt).orig_ip_addr b)
          = true ∨ b ∈ prevHopActivated s i pkt ∨ b ∈ destActivated s i pkt) ↔
      (b ∈ passedActivated s i pkt ∨ b ∈ prevHopActivated s i pkt ∨
        b ∈ destActivated s i pkt) := by
  have hwf := (h.arrive i).withStats stats
  have hnow : (rrepUpdated ((s.arrive i).withStats stats) pkt).os.now = i.now :=
    (onlyTable_rrepUpdated pkt hwf).now
  constructor
  · rintro (hrev | hrest)
    · simp only [rrepRevives, Bool.and_eq_true, decide_eq_true_eq, hnow] at hrev
      obtain ⟨hne, ⟨hany, hsome⟩, htime⟩ := hrev
      obtain ⟨j, hj, hnext⟩ := (Option.any_eq_true _ _).1 hany
      have hnext : j.next_hop = b := of_decide_eq_true hnext
      rcases isSome_updated i stats pkt b h hsome with hb | hprev | hdest
      · rcases next_hop_updated i stats pkt h hj with ⟨hod, hjs⟩ | hp
        · left
          rw [passedActivated, hjs]
          dsimp only
          rw [if_pos ⟨Ne.symm hne, hod, by rw [hnext]; exact hb, htime⟩, hnext]
          exact List.mem_singleton_self _
        · -- the reply goes back to its sender, whose entry is in use already
          refine .inr (.inl ?_)
          rw [prevHopActivated, if_pos, ← hnext, hp]
          · exact List.mem_singleton_self _
          · rw [knownOnArrival, ← hp, hnext, hb, Bool.true_or]
      · exact .inr (.inl hprev)
      · exact .inr (.inr hdest)
    · exact .inr hrest
  · rintro (hpass | hrest)
    · left
      unfold passedActivated at hpass
      split at hpass
      · rename_i j hj
        split at hpass
        · rename_i hc
          obtain ⟨hne, hod, hsome, htime⟩ := hc
          obtain rfl := List.mem_singleton.1 hpass
          have hinfo : (rrepUpdated ((s.arrive i).withStats stats) pkt).info
              (rrepNext pkt).orig_ip_addr = some j := by
            rw [info_rrepUpdated pkt hwf, if_neg hod]
            exact info_rreqArrived_of_some hwf pkt hj
          have hkeep := (onlyTable_rrepUpdated pkt hwf).keeps_entry j.next_hop
            (Option.isSome_iff_ne_none.1 hsome)
          simp only [rrepRevives, hinfo, hnow, Option.any_some, decide_true, Bool.true_and,
            Bool.and_eq_true, decide_eq_true_eq]
          exact ⟨Ne.symm hne, Option.isSome_iff_ne_none.2 hkeep, htime⟩
        · exact absurd hpass (by simp)
      · exact absurd hpass (by simp)
    · exact .inr hrest

theorem active_rrep (h : Wf s) :
    (aodvProcessRrep ((s.arrive i).withStats stats) pkt).active b =
      (decide (b ∈ rrepActivated s i pkt) || s.active b) := by
  have hwf := (h.arrive i).withStats stats
  have hupd := active_updated i stats pkt b h
  have hrev := revives_iff i stats pkt b h
  rw [active_aodvProcessRrep pkt hwf, rrepAccepted_arrive h, rrepActivated]
  cases rrepAcceptable s pkt with
  | false =>
    rw [if_neg Bool.false_ne_true, active_arrived i stats pkt b h]
    simp
  | true =>
    rw [if_pos rfl, hupd, Bool.eq_iff_iff]
    change (decide (s.ip_addr ≠ _) && _ || _) = true ↔ _
    simp only [Bool.or_eq_true, decide_eq_true_eq, List.mem_append, if_true]
    constructor
    · rintro (hr | hd | hp | ha)
      · rcases hrev.1 (.inl hr) with hm | hm | hm
        · exact .inl (.inr (.inr hm))
        · exact .inl (.inl hm)
        · exact .inl (.inr (.inl hm))
      · exact .inl (.inr (.inl hd))
      · exact .inl (.inl hp)
      · exact .inr ha
    · rintro ((hp | hd | hm) | ha)
      · exact .inr (.inr (.inl hp))
      · exact .inr (.inl hd)
      · rcases hrev.2 (.inl hm) with hr | hp | hd
        · exact .inl hr
        · exact .inr (.inr (.inl hp))
        · exact .inr (.inl hd)
      · exact .inr (.inr (.inr ha))

end

theorem mem_refreshList (s : MshData) (a b : InAddr) : b ∈ refreshList s a ↔ refreshes s a b = true := by
  rw [refreshList, refreshes]
  cases ha : s.info a with
  | none => simp
  | some j =>
    simp only [Option.any_some, decide_eq_true_eq]
    cases hj : (s.info j.next_hop).isSome with
    | true =>
      simp only [if_true, List.mem_cons, List.not_mem_nil, or_false]
      refine or_congr_right ⟨fun hb => ⟨hb, by rw [hb, hj]⟩, fun hb => hb.1⟩
    | false =>
      simp only [Bool.false_eq_true, if_false, List.mem_cons, List.not_mem_nil, or_false]
      refine ⟨.inl, fun hb => hb.resolve_right fun hc => ?_⟩
      rw [hc.1, hj] at hc
      exact absurd hc.2 (by simp)

theorem active_packet (h : Wf s) (nfa : NfqData) (b : InAddr) :
    (managePacket s nfa).active b = (decide (b ∈ packetActivated s nfa) || s.active b) := by
  have hlook : ∀ orig, (packetLookedUp s nfa orig).active b =
      (routeUsable s (nfqueuePacketGetDest nfa) &&
        (decide (nfqueuePacketGetDest nfa ≠ s.ip_addr) && refreshes s (nfqueuePacketGetDest nfa) b ||
          decide (orig ≠ 0) && refreshes s orig b) || s.active b) := fun orig =>
    (routingTableUpdateRoute_spec h _ orig).2.2.2 b
  have hmem : packetPasses s nfa = false → ∀ orig,
      orig = (if nfqueuePacketGetHook nfa = NF_IP_LOCAL_OUT then 0 else nfqueuePacketGetOrig nfa) →
      (packetLookedUp s nfa orig).active b =
        (decide (b ∈ packetActivated s nfa) || s.active b) := by
    intro hpass orig horig
    rw [hlook, packetActivated, hpass, ← horig]
    cases routeUsable s (nfqueuePacketGetDest nfa) with
    | false => simp
    | true =>
      have h1 := mem_refreshList s (nfqueuePacketGetDest nfa) b
      have h2 := mem_refreshList s orig b
      by_cases hd : nfqueuePacketGetDest nfa = s.ip_addr <;> by_cases ho : orig = 0 <;>
        simp [hd, ho, h1, h2]
  have hlocal : NF_IP_LOCAL_IN ≠ NF_IP_LOCAL_OUT := by decide
  cases packetManaged h nfa with
  | passed hpass ht =>
    rw [ht, packetActivated, hpass]
    simp only [Bool.not_true, Bool.false_and, Bool.false_eq_true, if_false, List.not_mem_nil,
      decide_false, Bool.false_or]
    exact congrFun (active_congr rfl) b
  | routed orig hpass horig _ ht => rw [ht, ← hmem hpass orig horig]; rfl
  | unanswered hpass hhook _ ht =>
    rw [ht, ← hmem hpass _ (by rw [hhook, if_neg hlocal])]
  | queued hpass hhook _ _ ht =>
    rw [ht, ← hmem hpass 0 (by rw [hhook, if_pos rfl])]
    rfl
  | discovered hpass hhook _ _ ht =>
    rw [ht, active_congr (originated_aodvFindRoute _ _ _).routing_table,
      ← hmem hpass 0 (by rw [hhook, if_pos rfl])]
    rfl

/-- **A datagram or a data packet** brings the entries of `activated` into use, and no other. -/
theorem active_step (h : Wf s) {i : Input} (hi : i.event ≠ .alarms) (b : InAddr) :
    (step s i).active b = (decide (b ∈ activated s i) || s.active b) := by
  cases turn s i with
  | rreq pkt stats hpkt hstep =>
    rw [hstep, active_rreq i stats pkt b h, activated, hpkt]
  | rrep pkt stats hpkt hstep =>
    rw [hstep, active_rrep i stats pkt b h, activated, receivedRreq_of_rrep hpkt, hpkt]
  | packet nfa hev hstep =>
    obtain ⟨hrreq, hrrep⟩ := received_of_event (s := s) (i := i) (by simp [hev])
    rw [hstep, active_packet (h.arrive i), activated, hrreq, hrrep, hev]
    rfl
  | alarms hev _ => exact absurd hev hi
  | quiet stats hrreq hrrep hno _ hstep =>
    have hempty : activated s i = [] := by
      rw [activated, hrreq, hrrep]
      cases hev : i.event with
      | packet nfa => exact absurd hev (hno nfa)
      | _ => rfl
    have hsame : ((s.arrive i).withStats stats).active b = s.active b :=
      congrFun (active_congr rfl) b
    rw [hstep, hempty, hsame]
    simp

end Meshias
