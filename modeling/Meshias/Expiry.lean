import Meshias.NextHops

/-!
# When entries go out of use

`info` says what an entry knows about its route, `expiry` until when it is in use.  Every block of
the two message handlers is an equation about the expiry times.

* `MshRoute.expiry`, `MshData.expiry` — the time of the alarm of an entry in use, and 0 if there is
  none.
* `InUseUntil` — the entry is in use, and its alarm is set for the given time.
* `clockMs`, `lifetimeRead` — the 32-bit milliseconds that the handlers compute with: the clock, and
  what `msh_route_get_lifetime` returns.
* `expiryArrived`, `expiryUpdated`, `passedThrough` — the expiry times on the way through a RREP, and
  the entry it is passed on through, read off the state before the turn.

Principal results: `lifetimeRead_eq` — the time that is left is read with the wrong sign;
`expiry_rreqArrived`, `expiry_aodvUpdateOrig`, `expiry_destUpdated`, `expiry_refreshNextHop` — the
blocks; `expiry_aodvProcessRreq`, `expiry_aodvProcessRrep`; `expiry_step_rrep` — a turn with a RREP.
-/

set_option autoImplicit false

namespace Meshias

open Machine (run)

variable {s t : MshData} {a b : InAddr} {r : MshRoute}

/-! ## Milliseconds in 32 bits -/

theorem alarmTime_split (tv : Int) : tvUsec tv / 1000 + tvSec tv * 1000 = tv / 1000 := by
  unfold tvUsec tvSec
  omega

/-- The clock as the handlers read it. -/
def clockMs (now : Nat) : U32 := getAlarmTime (tvSec now) (tvUsec now)

/-- `msh_route_get_lifetime`, for an entry that is in use until `expiry`. -/
def lifetimeRead (now expiry : Nat) : U32 :=
  if now < expiry then
    getAlarmTime (tvSec ((now : Int) - expiry)) (tvUsec ((now : Int) - expiry))
  else 0

/-- The milliseconds that are left, rounded up. -/
def msLeft (now expiry : Nat) : Nat := (expiry - now + 999) / 1000

/-- **The time that is left is read with the wrong sign.** -/
theorem lifetimeRead_eq (now expiry : Nat) :
    lifetimeRead now expiry = -BitVec.ofNat 32 (msLeft now expiry) := by
  unfold lifetimeRead
  split
  · rename_i hlt
    have hleft : ((now : Int) - expiry) / 1000 = -(msLeft now expiry : Int) := by
      unfold msLeft
      omega
    rw [getAlarmTime, alarmTime_split, hleft, BitVec.ofInt_neg, BitVec.ofInt_natCast]
  · rename_i hle
    have hzero : msLeft now expiry = 0 := by
      unfold msLeft
      omega
    rw [hzero]
    rfl

/-! ## Expiry times -/

def MshRoute.expiry (r : MshRoute) : Nat :=
  if r.hasFlag RTFLAG_VALID_ENTRY then r.alarm.tv else 0

def MshData.expiry (s : MshData) (a : InAddr) : Nat :=
  match s.entry a with
  | some r => r.expiry
  | none => 0

/-- The entry of `a` is in use, and its alarm is set for `time`. -/
def InUseUntil (s : MshData) (a : InAddr) (time : Nat) : Prop :=
  ∃ r ∈ s.entry a, r.hasFlag RTFLAG_VALID_ENTRY = true ∧ r.alarm.pending = true ∧ r.alarm.tv = time

instance (s : MshData) (a : InAddr) (time : Nat) : Decidable (InUseUntil s a time) := by
  unfold InUseUntil; infer_instance

theorem expiry_of_entry (hr : s.entry a = some r) : s.expiry a = r.expiry := by
  rw [MshData.expiry, hr]

theorem expiry_of_none (hnone : s.info a = none) : s.expiry a = 0 := by
  rw [MshData.expiry, info_eq_none.1 hnone]

theorem expiry_congr (h : t.routing_table = s.routing_table) : t.expiry = s.expiry := by
  funext a
  rw [MshData.expiry, entry_congr h]
  rfl

theorem expiry_of_timer {r' : MshRoute} (h : r'.timer = r.timer) : r'.expiry = r.expiry := by
  have hvalid : r'.hasFlag RTFLAG_VALID_ENTRY = r.hasFlag RTFLAG_VALID_ENTRY :=
    congrArg Timer.valid h
  have halarm : r'.alarm = r.alarm := congrArg Timer.alarm h
  rw [MshRoute.expiry, hvalid, halarm, MshRoute.expiry]

/-- In a state in which every alarm is pending. -/
theorem inUseUntil_iff (hs : TimersOk s) {time : Nat} :
    InUseUntil s a time ↔ s.active a = true ∧ s.expiry a = time := by
  constructor
  · rintro ⟨r, hr, hvalid, -, htv⟩
    rw [active_of_entry hr, expiry_of_entry hr, MshRoute.expiry, hvalid, if_pos rfl]
    exact ⟨rfl, htv⟩
  · rintro ⟨hact, hexp⟩
    obtain ⟨r, hr, hvalid⟩ := entry_of_active hact
    rw [expiry_of_entry hr, MshRoute.expiry, hvalid, if_pos rfl] at hexp
    exact ⟨r, hr, hvalid, (hs r (mem_of_entry hr).1).pending, hexp⟩

theorem active_of_expiry (hexp : s.expiry a ≠ 0) : s.active a = true := by
  unfold MshData.expiry at hexp
  cases hr : s.entry a with
  | none => rw [hr] at hexp; exact absurd rfl hexp
  | some r =>
    rw [hr] at hexp
    rw [active_of_entry hr]
    by_contra hvalid
    exact hexp (if_neg hvalid)

theorem inUseUntil_iff_of_pos (hs : TimersOk s) {time : Nat} (htime : 0 < time) :
    InUseUntil s a time ↔ s.expiry a = time := by
  rw [inUseUntil_iff hs]
  refine and_iff_right_of_imp fun hexp => active_of_expiry ?_
  omega

theorem timersOk_run (ip bcast : InAddr) (iface : U32) (is : List Input) :
    TimersOk (run step (mshDataInit ip bcast iface) is) := by
  have hok := (momentOk ip bcast iface (ticks (mshDataInit ip bcast iface) is)).timers
  rw [startMoment, run_ticks] at hok
  exact hok

theorem timersOk_step_run (ip bcast : InAddr) (iface : U32) (is : List Input) (i : Input) :
    TimersOk (step (run step (mshDataInit ip bcast iface) is) i) := by
  have hrun := timersOk_run ip bcast iface (is ++ [i])
  rw [Machine.run_append] at hrun
  exact hrun

theorem mshRouteGetLifetime_eq (now : Nat) (r : MshRoute) :
    mshRouteGetLifetime now r = lifetimeRead now r.expiry := by
  unfold mshRouteGetLifetime lifetimeRead MshRoute.expiry
  cases r.hasFlag RTFLAG_VALID_ENTRY with
  | false => simp
  | true =>
    by_cases hlt : now < r.alarm.tv
    · simp [hlt]
    · simp [hlt]

/-! ## Writes and insertions -/

theorem expiry_modifyRoute_of_blind {p : Nat} {f : MshRoute → MshRoute} (hf : Keeps f)
    (htimer : ∀ r, (f r).timer = r.timer) : (s.modifyRoute p f).expiry = s.expiry := by
  funext b
  rw [MshData.expiry, entry_modifyRoute_cases hf, MshData.expiry]
  cases s.entry b with
  | none => rfl
  | some r =>
    simp only [Option.map_some]
    split
    · exact expiry_of_timer (htimer r)
    · rfl

theorem timer_addPrecursor (r : MshRoute) (a : InAddr) :
    (mshRouteAddPrecursor r a).timer = r.timer := by
  unfold mshRouteAddPrecursor
  split <;> rfl

theorem expiry_addPrecursor (s : MshData) (p : Nat) (a : InAddr) :
    (s.modifyRoute p (mshRouteAddPrecursor · a)).expiry = s.expiry :=
  expiry_modifyRoute_of_blind (keeps_addPrecursor a) fun r => timer_addPrecursor r a

theorem timer_rreqUpdate (p : InAddr) (hop : U8) (seq : U32) (r : MshRoute) :
    (rreqUpdate p hop seq r).timer = r.timer := by
  have hbase := (timer_mshRouteSetNextHop (mshRouteSetFlag r RTFLAG_VALID_DEST_SEQ_NUM) p).trans
    (timer_setFlag_validDestSeqNum r)
  unfold rreqUpdate
  dsimp only
  split <;> exact hbase

theorem timer_rrepUpdate (p : InAddr) (rrep : AodvRrep) (r : MshRoute) :
    (rrepUpdate p rrep r).timer = r.timer :=
  (timer_mshRouteSetNextHop _ p).trans (timer_setFlag_validDestSeqNum _)

theorem expiry_mshRouteSetLifetime (h : r.hasFlag RTFLAG_UNMANAGED = false) (now rank : Nat)
    (lifetime : U32) :
    (mshRouteSetLifetime now rank r lifetime).expiry = now + lifetime.toNat * 1000 := by
  rw [MshRoute.expiry, if_pos (hasFlag_mshRouteSetLifetime h now rank lifetime)]
  exact (timer_mshRouteSetLifetime h now rank lifetime).tv

/-- **A lifetime is set** from now on. -/
theorem expiry_routeSetLifetime (h : Wf s) (hr : s.entry a = some r) (lifetime : U32)
    (b : InAddr) : (s.routeSetLifetime r.self lifetime).expiry b =
      if b = a then s.os.now + lifetime.toNat * 1000 else s.expiry b := by
  have hentry := entry_modifyRoute h (keeps_setLifetime s.os.now s.alarms lifetime) hr b
  rw [expiry_congr (s := s.modifyRoute r.self _) (t := s.routeSetLifetime r.self lifetime) rfl,
    MshData.expiry, hentry]
  by_cases hb : b = a
  · rw [if_pos hb, if_pos hb]
    exact expiry_mshRouteSetLifetime (h.entryOk hr).managed _ _ _
  · rw [if_neg hb, if_neg hb]
    rfl

/-- **A new entry** is in use for `ACTIVE_ROUTE_TIMEOUT`, whatever lifetime the route had. -/
theorem expiry_routingTableAdd (h : Wf s) {route : MshRoute} (hf : Fresh s route)
    (hnew : s.entry route.dst_ip = none) (b : InAddr) :
    (routingTableAdd s route).1.expiry b =
      if s.refuses = false ∧ b = route.dst_ip then
        s.os.now + ACTIVE_ROUTE_TIMEOUT.toNat * 1000
      else s.expiry b := by
  have hentry := entry_routingTableAdd h hf hnew b
  split
  · rename_i hb
    rw [if_pos hb] at hentry
    rw [expiry_of_entry hentry, installed_eq hf.managed]
    simp +decide [MshRoute.expiry, hasFlag_eq]
  · rename_i hb
    rw [if_neg hb] at hentry
    rw [MshData.expiry, hentry]
    rfl

/-! ## The blocks of the handlers -/

/-- `ACTIVE_ROUTE_TIMEOUT` from now. -/
def activeTimeout (now : Nat) : Nat := now + ACTIVE_ROUTE_TIMEOUT.toNat * 1000

section Blocks

variable (pkt : AodvPkt)

/-- The previous hop. -/
theorem expiry_rreqArrived (h : Wf s) (b : InAddr) :
    (rreqArrived s pkt).expiry b =
      if b = pkt.address ∧ (s.info pkt.address ≠ none ∨ s.refuses = false) then
        activeTimeout s.os.now
      else s.expiry b := by
  rw [rreqArrived]
  cases hr : s.entry pkt.address with
  | some r =>
    rw [aodvRreqPrevHop_found h hr, expiry_routeSetLifetime h hr, info_of_entry hr]
    exact if_congr (by simp) rfl rfl
  | none =>
    rw [aodvRreqPrevHop_new h hr, expiry_routingTableAdd (h.alloc (Nat.le_succ _))
      (fresh_prevHopRoute h pkt.address) hr, info_eq_none.2 hr]
    refine if_congr ?_ rfl rfl
    rw [or_iff_right (not_not.2 rfl)]
    exact and_comm

/-- **The reverse route**: the lifetime of an entry that is there is raised, and a new entry is in
    use for `ACTIVE_ROUTE_TIMEOUT`. -/
theorem expiry_aodvUpdateOrig (p : InAddr) (hop : U8) (orig : InAddr) (seq : U32) (h : Wf s)
    (b : InAddr) : (aodvUpdateOrig s p hop orig seq).1.expiry b =
      if b = orig then
        match s.info orig with
        | some _ =>
          if lifetimeRead s.os.now (s.expiry orig) < minimalLifetime s.os.now hop then
            s.os.now + (minimalLifetime s.os.now hop).toNat * 1000
          else s.expiry orig
        | none => if s.refuses then 0 else activeTimeout s.os.now
      else s.expiry b := by
  cases hr : s.entry orig with
  | some r =>
    have hkeeps := keeps_rreqUpdate p hop seq
    have hsame : (s.modifyRoute r.self (rreqUpdate p hop seq)).expiry = s.expiry :=
      expiry_modifyRoute_of_blind hkeeps (timer_rreqUpdate p hop seq)
    have hentry := entry_modifyRoute h hkeeps hr orig
    rw [if_pos rfl] at hentry
    have hset := expiry_routeSetLifetime (h.modifyRoute r.self hkeeps) hentry
      (minimalLifetime s.os.now hop) b
    rw [hkeeps.self, hsame] at hset
    rw [aodvUpdateOrig_found p hop orig seq h hr, info_of_entry hr, origRaised,
      mshRouteGetLifetime_eq, expiry_of_entry hr]
    simp only [decide_eq_true_eq]
    by_cases hb : b = orig
    · subst hb
      rw [if_pos rfl] at hset ⊢
      split
      · exact hset
      · rw [hsame, expiry_of_entry hr]
    · rw [if_neg hb] at hset ⊢
      split
      · exact hset
      · rw [hsame]
  | none =>
    rw [aodvUpdateOrig_new p hop orig seq h hr, expiry_routingTableAdd (wf_origAlloc h)
      (fresh_origNew p hop orig seq h) hr, info_eq_none.2 hr]
    change (if s.refuses = false ∧ b = orig then activeTimeout s.os.now else s.expiry b) = _
    by_cases hb : b = orig
    · subst hb
      cases s.refuses <;> simp [expiry_of_none (info_eq_none.2 hr)]
    · rw [if_neg hb, if_neg (fun hc => hb hc.2)]

theorem expiry_aodvAnswerToRreq (rreq : AodvRreq) (p : InAddr) (o : Nat) :
    (aodvAnswerToRreq s rreq p o).1.expiry = s.expiry := by
  by_cases hdest : rreq.dest_ip_addr = s.ip_addr
  · rw [aodvAnswerToRreq_own rreq p o hdest]
    dsimp only
    split <;> exact expiry_congr rfl
  · unfold aodvAnswerToRreq
    rw [if_neg hdest]
    cases routingTableFindByIp s.routing_table rreq.dest_ip_addr with
    | none => rfl
    | some r =>
      dsimp only
      split
      · exact (expiry_addPrecursor _ _ _).trans (expiry_addPrecursor s _ _)
      · rfl

theorem expiry_rreqReply (rreq : AodvRreq) (p : InAddr) (o : Nat) :
    (rreqReply s pkt rreq p o).expiry = s.expiry := by
  unfold rreqReply
  split
  · rw [aodvForwardRreq_eq]
    exact (expiry_congr rfl).trans (expiry_aodvAnswerToRreq rreq p o)
  · exact expiry_aodvAnswerToRreq rreq p o

/-- **The expiry times after a RREQ.** -/
theorem expiry_aodvProcessRreq (h : Wf s) :
    (aodvProcessRreq s pkt).expiry =
      if rreqDuplicate s pkt then (rreqArrived s pkt).expiry else (rreqReversed s pkt).expiry := by
  obtain ⟨o, heq⟩ := aodvProcessRreq_eq pkt h
  rw [heq]
  split
  · rfl
  · exact expiry_rreqReply pkt _ _ o

/-- **The route to the destination**: the lifetime that is set is the sum of the clock and the
    lifetime of the reply, in 32 bits. -/
theorem expiry_destUpdated (p : InAddr) (rrep : AodvRrep) (h : Wf s) (b : InAddr) :
    (destUpdated s p rrep).expiry b =
      if b = rrep.dest_ip_addr ∧ (s.info rrep.dest_ip_addr ≠ none ∨ s.refuses = false) then
        s.os.now + (clockMs s.os.now + rrep.lifetime).toNat * 1000
      else s.expiry b := by
  have hupdate : ∀ {u : MshData} {a : InAddr} {r : MshRoute}, Wf u → u.entry a = some r →
      (aodvUpdateDest u p rrep r.self).expiry b =
        if b = a then u.os.now + (clockMs u.os.now + rrep.lifetime).toNat * 1000
        else u.expiry b := by
    intro u a r hu hr
    have hkeeps := keeps_rrepUpdate p rrep
    have hentry := entry_modifyRoute hu hkeeps hr a
    rw [if_pos rfl] at hentry
    have hset := expiry_routeSetLifetime (hu.modifyRoute r.self hkeeps) hentry
      (clockMs u.os.now + rrep.lifetime) b
    rw [hkeeps.self, expiry_modifyRoute_of_blind hkeeps (timer_rrepUpdate p rrep)] at hset
    exact hset
  cases hr : s.entry rrep.dest_ip_addr with
  | some r =>
    rw [destUpdated, aodvFindDest_found p rrep h hr, hupdate h hr, info_of_entry hr]
    simp
  | none =>
    rw [info_eq_none.2 hr]
    cases href : s.refuses with
    | true =>
      obtain ⟨htbl, hptr⟩ := destRoute_absent p rrep h href hr
      rw [destUpdated, expiry_congr
        ((routing_table_aodvUpdateDest_absent p rrep (by rw [htbl]; exact hptr)).trans htbl)]
      simp
    | false =>
      obtain ⟨r, hrent, hself, -⟩ := entry_aodvFindDest_new p rrep h href hr
      have hnow : (aodvFindDest s p rrep).1.os.now = s.os.now :=
        (onlyTable_aodvFindDest p rrep h).now
      rw [destUpdated, ← hself, hupdate (wf_aodvFindDest p rrep h) hrent, hnow,
        aodvFindDest_new p rrep h hr, expiry_routingTableAdd (h.alloc (Nat.le_succ _))
          (fresh_destRoute p rrep h) hr]
      by_cases hb : b = rrep.dest_ip_addr
      · rw [if_pos hb, if_pos ⟨hb, .inr rfl⟩]
      · rw [if_neg hb, if_neg (fun hc => hb hc.2), if_neg (fun hc => hb hc.1)]
        rfl

/-- **The next hop of a reply**: the lifetime that was read is set again, if it is smaller than the
    sum of the clock and `ACTIVE_ROUTE_TIMEOUT`. -/
theorem expiry_refreshNextHop (h : Wf s) (a b : InAddr) :
    (refreshNextHop s a).expiry b =
      if b = a ∧ s.info a ≠ none ∧
          lifetimeRead s.os.now (s.expiry a) < clockMs s.os.now + ACTIVE_ROUTE_TIMEOUT then
        s.os.now + (lifetimeRead s.os.now (s.expiry a)).toNat * 1000
      else s.expiry b := by
  unfold refreshNextHop
  rw [routingTableFindByIp_eq h]
  cases hr : s.entry a with
  | none => rw [info_eq_none.2 hr, if_neg (by simp)]
  | some r =>
    have hset := expiry_routeSetLifetime h hr (mshRouteGetLifetime s.os.now r) b
    rw [info_of_entry hr, expiry_of_entry hr, ← mshRouteGetLifetime_eq]
    dsimp only
    by_cases hlt : mshRouteGetLifetime s.os.now r < clockMs s.os.now + ACTIVE_ROUTE_TIMEOUT
    · refine (congrFun (congrArg MshData.expiry (if_pos hlt)) b).trans (hset.trans ?_)
      exact if_congr (by simp [hlt]) rfl rfl
    · refine (congrFun (congrArg MshData.expiry (if_neg hlt)) b).trans ?_
      rw [if_neg (fun hc => hlt hc.2.2)]

/-- A reply that goes on. -/
theorem expiry_aodvForwardRrep (rrep : AodvRrep) (ph d : Nat) (h : Wf s) (b : InAddr) :
    (aodvForwardRrep s pkt rrep ph d).expiry b =
      match s.info rrep.orig_ip_addr with
      | some j => (refreshNextHop s j.next_hop).expiry b
      | none => s.expiry b := by
  rw [aodvForwardRrep_eq pkt rrep ph d h]
  cases hr : s.entry rrep.orig_ip_addr with
  | none => rw [info_eq_none.2 hr]
  | some r =>
    obtain ⟨hsame, -⟩ := rrepPassed_spec (s := s) pkt rrep d r.next_hop
    have hpassed : (rrepPassed s pkt rrep d r.next_hop).expiry = s.expiry := by
      unfold rrepPassed
      dsimp only
      split
      · exact (expiry_addPrecursor _ _ _).trans (expiry_congr rfl)
      · exact expiry_congr rfl
    rw [info_of_entry hr]
    dsimp only
    rw [expiry_addPrecursor, expiry_refreshNextHop (hsame.wf h), expiry_refreshNextHop h, hpassed,
      hsame.now, hsame.info h]
    rfl

/-- **The expiry times after a RREP.** -/
theorem expiry_aodvProcessRrep (h : Wf s) (b : InAddr) :
    (aodvProcessRrep s pkt).expiry b =
      if rrepAcceptable s pkt then
        if s.ip_addr = (rrepNext pkt).orig_ip_addr then (rrepUpdated s pkt).expiry b
        else
          match (rrepUpdated s pkt).info (rrepNext pkt).orig_ip_addr with
          | some j => (refreshNextHop (rrepUpdated s pkt) j.next_hop).expiry b
          | none => (rrepUpdated s pkt).expiry b
      else (rreqArrived s pkt).expiry b := by
  have haccepted := rrepAccepted_eq h pkt
  cases rrepProcessed pkt h with
  | refused hrej ht => rw [ht, ← haccepted, hrej, if_neg Bool.false_ne_true]
  | ended hacc hown ht =>
    rw [ht, ← haccepted, if_pos hacc, if_pos hown]
    exact congrFun (expiry_congr rfl) b
  | forwarded hacc hother ph d ht =>
    rw [ht, ← haccepted, if_pos hacc, if_neg hother]
    exact expiry_aodvForwardRrep pkt _ ph d (wf_rrepUpdated pkt h) b

end Blocks

/-! ## A turn -/

/-- The expiry times once the previous hop has been dealt with. -/
def expiryArrived (s : MshData) (i : Input) (pkt : AodvPkt) (b : InAddr) : Nat :=
  if b = pkt.address ∧ knownOnArrival s i pkt pkt.address then activeTimeout i.now else s.expiry b

/-- There is an entry for `b` once the route to the destination of a RREP has been made. -/
def knownOnUpdate (s : MshData) (i : Input) (pkt : AodvPkt) (b : InAddr) : Bool :=
  knownOnArrival s i pkt b || b = (rrepNext pkt).dest_ip_addr && !nextRefused s i pkt

/-- The expiry times then. -/
def expiryUpdated (s : MshData) (i : Input) (pkt : AodvPkt) (b : InAddr) : Nat :=
  if b = (rrepNext pkt).dest_ip_addr ∧ knownOnUpdate s i pkt b then
    i.now + (clockMs i.now + (rrepNext pkt).lifetime).toNat * 1000
  else expiryArrived s i pkt b

/-- The next hop towards the originator then, if there is a route. -/
def passedTo (s : MshData) (i : Input) (pkt : AodvPkt) : Option InAddr :=
  if knownOnUpdate s i pkt (rrepNext pkt).orig_ip_addr then
    if (rrepNext pkt).orig_ip_addr = (rrepNext pkt).dest_ip_addr then some pkt.address
    else some (nextHopTo s (rrepNext pkt).orig_ip_addr)
  else none

section Turn

variable (i : Input) (stats : Statistics) (pkt : AodvPkt)

theorem expiry_arrived (h : Wf s) (b : InAddr) :
    (rreqArrived ((s.arrive i).withStats stats) pkt).expiry b = expiryArrived s i pkt b := by
  rw [expiry_rreqArrived pkt ((h.arrive i).withStats stats), expiryArrived, knownOnArrival]
  change (if b = pkt.address ∧ (s.info pkt.address ≠ none ∨ i.refusals.headD false = false) then
    activeTimeout i.now else s.expiry b) = _
  refine if_congr (and_congr_right fun _ => ?_) rfl rfl
  simp [Option.isSome_iff_ne_none]

theorem isSome_updated_iff (h : Wf s) (b : InAddr) :
    ((rrepUpdated ((s.arrive i).withStats stats) pkt).info b).isSome =
      knownOnUpdate s i pkt b := by
  have hwf := (h.arrive i).withStats stats
  have hknown := isSome_rreqArrived h i stats pkt b
  rw [info_rrepUpdated pkt hwf, nextRefused_eq h, knownOnUpdate, ← hknown]
  split
  · rename_i hb
    subst hb
    split
    · rename_i hj
      simp [hj]
    · rename_i hnone
      cases nextRefused s i pkt <;> simp [hnone]
  · rename_i hb
    simp [hb]

theorem expiry_updated (h : Wf s) (b : InAddr) :
    (rrepUpdated ((s.arrive i).withStats stats) pkt).expiry b = expiryUpdated s i pkt b := by
  have hwf := (h.arrive i).withStats stats
  have hnow : (rreqArrived ((s.arrive i).withStats stats) pkt).os.now = i.now :=
    (onlyTable_rreqArrived pkt hwf).now
  have hknown := isSome_rreqArrived h i stats pkt (rrepNext pkt).dest_ip_addr
  rw [rrepUpdated, expiry_destUpdated _ _ (wf_rrepArrived pkt hwf), rrepArrived_eq, hnow,
    expiry_arrived i stats pkt h, nextRefused_eq h, expiryUpdated]
  refine if_congr (and_congr_right fun hb => ?_) rfl rfl
  rw [knownOnUpdate, hb, ← hknown, Bool.or_eq_true, Option.isSome_iff_ne_none]
  simp

theorem next_hop_passedTo (h : Wf s) :
    ((rrepUpdated ((s.arrive i).withStats stats) pkt).info (rrepNext pkt).orig_ip_addr).map
      (·.next_hop) = passedTo s i pkt := by
  have hwf := (h.arrive i).withStats stats
  have hsome := isSome_updated_iff i stats pkt h (rrepNext pkt).orig_ip_addr
  rw [passedTo, ← hsome]
  cases hj : (rrepUpdated ((s.arrive i).withStats stats) pkt).info (rrepNext pkt).orig_ip_addr with
  | none => rfl
  | some j =>
    have hinfo := info_rrepUpdated pkt hwf (rrepNext pkt).orig_ip_addr
    rw [Option.map_some, Option.isSome_some, if_pos rfl]
    split
    · rename_i hod
      rw [hj, if_pos hod] at hinfo
      exact congrArg some (field_of_written (·.next_hop) (fun _ => rfl) rfl hinfo.symm)
    · rename_i hod
      rw [hj, if_neg hod] at hinfo
      rw [← nextHopTo_of_info hinfo.symm, nextHopTo_rreqArrived hwf]
      rfl

end Turn

/-- A reply is passed on through the entry of its next hop, if there is one. -/
def passedThrough (s : MshData) (i : Input) (pkt : AodvPkt) : Option InAddr :=
  if s.ip_addr = (rrepNext pkt).orig_ip_addr then none
  else (passedTo s i pkt).filter (knownOnUpdate s i pkt)

/-- The test of `aodv_process_rrep` on that entry. -/
def setAgain (now expiry : Nat) : Bool :=
  lifetimeRead now expiry < clockMs now + ACTIVE_ROUTE_TIMEOUT

/-- **The expiry times after a turn with an accepted RREP.** -/
theorem expiry_step_rrep (h : Wf s) {i : Input} {pkt : AodvPkt} (hpkt : receivedRrep s i = some pkt)
    (hacc : rrepAcceptable s pkt = true) (b : InAddr) :
    (step s i).expiry b =
      if passedThrough s i pkt = some b ∧ setAgain i.now (expiryUpdated s i pkt b) then
        i.now + (lifetimeRead i.now (expiryUpdated s i pkt b)).toNat * 1000
      else expiryUpdated s i pkt b := by
  obtain ⟨stats, hstep⟩ := step_of_receivedRrep hpkt
  have hwf := (h.arrive i).withStats stats
  have hacc' : rrepAcceptable ((s.arrive i).withStats stats) pkt = true := hacc
  have hnext := next_hop_passedTo i stats pkt h
  have hexp := expiry_updated i stats pkt h
  have hnow : (rrepUpdated ((s.arrive i).withStats stats) pkt).os.now = i.now :=
    (onlyTable_rrepUpdated pkt hwf).now
  rw [hstep, expiry_aodvProcessRrep pkt hwf, if_pos hacc', passedThrough]
  change (if s.ip_addr = _ then _ else _) = _
  by_cases hown : s.ip_addr = (rrepNext pkt).orig_ip_addr
  · rw [if_pos hown, if_pos hown, hexp]
    simp
  rw [if_neg hown, if_neg hown, ← hnext]
  cases hj : (rrepUpdated ((s.arrive i).withStats stats) pkt).info (rrepNext pkt).orig_ip_addr with
  | none =>
    dsimp only
    rw [hexp]
    simp
  | some j =>
    have hknown := isSome_updated_iff i stats pkt h j.next_hop
    dsimp only
    rw [expiry_refreshNextHop (wf_rrepUpdated pkt hwf), hnow, hexp, hexp, Option.map_some,
      Option.filter_some, ← hknown]
    by_cases hb : b = j.next_hop
    · subst hb
      cases (rrepUpdated ((s.arrive i).withStats stats) pkt).info j.next_hop with
      | none => simp
      | some _ => simp [setAgain]
    · rw [if_neg (fun hc => hb hc.1), if_neg]
      rintro ⟨hc, -⟩
      split at hc
      · exact hb (Option.some.inj hc).symm
      · cases hc

/-- The entries after it. -/
theorem isSome_step_rrep (h : Wf s) {i : Input} {pkt : AodvPkt} (hpkt : receivedRrep s i = some pkt)
    (hacc : rrepAcceptable s pkt = true) (b : InAddr) :
    ((step s i).info b).isSome = knownOnUpdate s i pkt b := by
  obtain ⟨stats, hstep⟩ := step_of_receivedRrep hpkt
  have hwf := (h.arrive i).withStats stats
  rw [hstep, info_aodvProcessRrep pkt hwf, rrepAccepted_arrive h, if_pos hacc,
    isSome_updated_iff i stats pkt h]

end Meshias
