import Meshias.Forecast
import Meshias.Renewals

/-!
# Next hops that are known

An entry and the entry for its next hop are two entries, each with an alarm of its own.  The
handlers refresh both, for different times, and the branches that print `BUG` are for a next hop
without an entry.

* `NextHopsKnown` — the next hop of every entry in use has an entry, unless it is the destination.
* `touched`, `turnNextHop` — the entries that a turn brings into use or points to the sender, and
  their next hops after it.
* `NextHopsKept` — the condition on one tick.

Principal results: `nextHopTo_step`; `nextHopsKnown_iff_kept`; `next_hop_destroyed`.
-/

set_option autoImplicit false

namespace Meshias

open Machine (run StepsMeet)

variable {s t : MshData} {m n : Moment} {k : Tick}

/-! ## The property -/

/-- **Next hops are known.** -/
def NextHopsKnown (s : MshData) : Prop :=
  ∀ r ∈ s.routing_table, r.hasFlag RTFLAG_VALID_ENTRY = true → r.next_hop ≠ r.dst_ip →
    ∃ r' ∈ s.routing_table, r'.dst_ip = r.next_hop

instance (s : MshData) : Decidable (NextHopsKnown s) := by
  unfold NextHopsKnown; infer_instance

/-- The next hop of the entry for `b`; an address without an entry is its own. -/
def nextHopTo (s : MshData) (b : InAddr) : InAddr := ((s.info b).map (·.next_hop)).getD b

/-- The next hop `a` of `b` is `b` itself or has an entry. -/
def HopKnown (s : MshData) (b a : InAddr) : Prop := a = b ∨ (s.info a).isSome = true

theorem nextHopTo_congr (h : t.info = s.info) : nextHopTo t = nextHopTo s := by
  funext b
  rw [nextHopTo, h, nextHopTo]

theorem nextHopTo_of_entry {b : InAddr} {r : MshRoute} (hr : s.entry b = some r) :
    nextHopTo s b = r.next_hop := by
  rw [nextHopTo, info_of_entry hr]
  rfl

theorem isSome_info {b : InAddr} :
    (s.info b).isSome = true ↔ ∃ r ∈ s.routing_table, r.dst_ip = b := by
  rw [MshData.info, Option.isSome_map, MshData.entry, List.find?_isSome]
  simp

theorem nextHopsKnown_iff (h : Wf s) :
    NextHopsKnown s ↔ ∀ b, s.active b = true → HopKnown s b (nextHopTo s b) := by
  constructor
  · intro hknown b hb
    obtain ⟨r, hr, hvalid⟩ := entry_of_active hb
    obtain ⟨hmem, rfl⟩ := mem_of_entry hr
    rw [nextHopTo_of_entry hr]
    by_cases hself : r.next_hop = r.dst_ip
    · exact .inl hself
    · exact .inr (isSome_info.2 (hknown r hmem hvalid hself))
  · intro hknown r hr hvalid hne
    have hentry := entry_of_mem h hr
    have hb := hknown r.dst_ip (by rw [active_of_entry hentry]; exact hvalid)
    rw [nextHopTo_of_entry hentry] at hb
    exact isSome_info.1 (hb.resolve_left hne)

/-! ## Turns -/

/-- The entry that a turn points to the sender of a message, and the sender. -/
def redirected (s : MshData) (i : Input) : Option (InAddr × InAddr) :=
  match receivedRreq s i, receivedRrep s i with
  | some pkt, _ =>
    if rreqDuplicate s pkt then none
    else some ((rreqOfPayload pkt.payload).orig_ip_addr, pkt.address)
  | none, some pkt =>
    if rrepAcceptable s pkt then some ((rrepNext pkt).dest_ip_addr, pkt.address) else none
  | none, none => none

/-- The next hop of the entry for `b` after a turn. -/
def turnNextHop (s : MshData) (i : Input) (b : InAddr) : InAddr :=
  match redirected s i with
  | some (a, sender) => if b = a then sender else nextHopTo s b
  | none => nextHopTo s b

/-- The entries that a turn brings into use, or points to the sender while they are in use. -/
def touched (s : MshData) (i : Input) : List InAddr :=
  activated s i ++ ((redirected s i).toList.map (·.1)).filter s.active

/-- The turn leaves no touched entry with a next hop that has no entry. -/
def TurnKnows (s : MshData) (i : Input) : Prop :=
  ∀ b ∈ touched s i, turnNextHop s i b = b ∨ (s.info (turnNextHop s i b)).isSome = true ∨
    turnNextHop s i b ∈ activated s i

theorem redirected_rreq {i : Input} {pkt : AodvPkt} (hpkt : receivedRreq s i = some pkt) :
    redirected s i = if rreqDuplicate s pkt then none
      else some ((rreqOfPayload pkt.payload).orig_ip_addr, pkt.address) := by
  rw [redirected, hpkt]

theorem redirected_rrep {i : Input} {pkt : AodvPkt} (hpkt : receivedRrep s i = some pkt) :
    redirected s i = if rrepAcceptable s pkt then some ((rrepNext pkt).dest_ip_addr, pkt.address)
      else none := by
  rw [redirected, receivedRreq_of_rrep hpkt, hpkt]

/-- **The entries after a turn** are those before and those that came into use. -/
theorem isSome_step (h : Wf s) {i : Input} (hi : i.event ≠ .alarms) (b : InAddr) :
    ((step s i).info b).isSome = true ↔ (s.info b).isSome = true ∨ b ∈ activated s i := by
  have hages := ages_step h hi
  constructor
  · intro hsome
    obtain ⟨r', hr', rfl⟩ := isSome_info.1 hsome
    rcases hages.back r' hr' with ⟨r, hr, hto⟩ | ⟨-, lifetime, hfor⟩
    · exact .inl (isSome_info.2 ⟨r, hr, hto.dst_ip.symm⟩)
    · have hactive : (step s i).active r'.dst_ip = true := by
        rw [active_of_entry (entry_of_mem (h.step i) hr')]
        exact hfor.valid
      rw [active_step h hi, Bool.or_eq_true, decide_eq_true_eq] at hactive
      rcases hactive with hact | hact
      · exact .inr hact
      · exact .inl (isSome_of_active hact)
  · rintro (hsome | hact)
    · obtain ⟨r, hr, rfl⟩ := isSome_info.1 hsome
      obtain ⟨r', hr', hto⟩ := hages.forth r hr
      exact isSome_info.2 ⟨r', hr', hto.dst_ip⟩
    · have hactive : (step s i).active b = true := by
        rw [active_step h hi, decide_eq_true hact, Bool.true_or]
      exact isSome_of_active hactive

/-- An entry that is made for the previous hop is its own next hop. -/
theorem nextHopTo_rreqArrived (h : Wf s) (pkt : AodvPkt) (b : InAddr) :
    nextHopTo (rreqArrived s pkt) b = nextHopTo s b := by
  rw [nextHopTo, info_rreqArrived pkt h]
  split
  · rename_i hc
    obtain ⟨hnone, -, rfl⟩ := hc
    rw [nextHopTo, hnone]
    rfl
  · rfl

theorem nextHopTo_of_info {b : InAddr} {x : RouteInfo} (hx : s.info b = some x) :
    nextHopTo s b = x.next_hop := by
  rw [nextHopTo, hx]
  rfl

theorem nextHopTo_aodvProcessRreq (h : Wf s) (pkt : AodvPkt) {b : InAddr}
    (hsome : ((aodvProcessRreq s pkt).info b).isSome = true) :
    nextHopTo (aodvProcessRreq s pkt) b =
      if rreqDuplicate s pkt = false ∧ b = (rreqOfPayload pkt.payload).orig_ip_addr then pkt.address
      else nextHopTo s b := by
  have hinfo := info_aodvProcessRreq pkt h
  cases hdup : rreqDuplicate s pkt with
  | true =>
    rw [hdup, if_pos rfl] at hinfo
    rw [nextHopTo_congr hinfo, nextHopTo_rreqArrived h]
    simp
  | false =>
    rw [hdup, if_neg Bool.false_ne_true] at hinfo
    by_cases hb : b = (rreqOfPayload pkt.payload).orig_ip_addr
    · obtain ⟨x, hx⟩ := Option.isSome_iff_exists.1 hsome
      rw [if_pos ⟨rfl, hb⟩, nextHopTo_of_info hx]
      rw [hinfo, info_rreqReversed pkt h, if_pos hb] at hx
      exact field_of_written (·.next_hop) (fun _ => rfl) rfl hx
    · rw [if_neg fun hc => hb hc.2, nextHopTo_congr hinfo, nextHopTo, info_rreqReversed pkt h,
        if_neg hb]
      exact nextHopTo_rreqArrived h pkt b

theorem nextHopTo_aodvProcessRrep (h : Wf s) (pkt : AodvPkt) {b : InAddr}
    (hsome : ((aodvProcessRrep s pkt).info b).isSome = true) :
    nextHopTo (aodvProcessRrep s pkt) b =
      if rrepAcceptable s pkt = true ∧ b = (rrepNext pkt).dest_ip_addr then pkt.address
      else nextHopTo s b := by
  have hinfo := info_aodvProcessRrep pkt h
  rw [rrepAccepted_eq h] at hinfo
  cases hacc : rrepAcceptable s pkt with
  | false =>
    rw [hacc, if_neg Bool.false_ne_true] at hinfo
    rw [nextHopTo_congr hinfo, nextHopTo_rreqArrived h]
    simp
  | true =>
    rw [hacc, if_pos rfl] at hinfo
    by_cases hb : b = (rrepNext pkt).dest_ip_addr
    · obtain ⟨x, hx⟩ := Option.isSome_iff_exists.1 hsome
      rw [if_pos ⟨rfl, hb⟩, nextHopTo_of_info hx]
      rw [hinfo, info_rrepUpdated pkt h, if_pos hb] at hx
      exact field_of_written (·.next_hop) (fun _ => rfl) rfl hx
    · rw [if_neg fun hc => hb hc.2, nextHopTo_congr hinfo, nextHopTo, info_rrepUpdated pkt h,
        if_neg hb]
      exact nextHopTo_rreqArrived h pkt b

/-- **The next hops after a turn.** -/
theorem nextHopTo_step (h : Wf s) {i : Input} (hi : i.event ≠ .alarms) {b : InAddr}
    (hsome : ((step s i).info b).isSome = true) :
    nextHopTo (step s i) b = turnNextHop s i b := by
  cases turn s i with
  | rreq pkt stats hpkt hstep =>
    rw [hstep] at hsome ⊢
    have hhop : nextHopTo ((s.arrive i).withStats stats) b = nextHopTo s b := rfl
    rw [nextHopTo_aodvProcessRreq ((h.arrive i).withStats stats) pkt hsome, rreqDuplicate_arrive,
      hhop, turnNextHop, redirected_rreq hpkt]
    cases rreqDuplicate s pkt with
    | true => simp
    | false => simp
  | rrep pkt stats hpkt hstep =>
    rw [hstep] at hsome ⊢
    have hacc : rrepAcceptable ((s.arrive i).withStats stats) pkt = rrepAcceptable s pkt := rfl
    have hhop : nextHopTo ((s.arrive i).withStats stats) b = nextHopTo s b := rfl
    rw [nextHopTo_aodvProcessRrep ((h.arrive i).withStats stats) pkt hsome, hacc, hhop, turnNextHop,
      redirected_rrep hpkt]
    cases rrepAcceptable s pkt with
    | true => simp
    | false => simp
  | packet nfa hev hstep =>
    obtain ⟨hrreq, hrrep⟩ := received_of_event (s := s) (i := i) (by simp [hev])
    rw [hstep, nextHopTo_congr (info_managePacket (h.arrive i) nfa), turnNextHop, redirected, hrreq,
      hrrep]
    rfl
  | alarms hev _ => exact absurd hev hi
  | quiet stats hrreq hrrep _ _ hstep =>
    rw [hstep, turnNextHop, redirected, hrreq, hrrep]
    rfl

/-- **One turn.** -/
theorem turn_nextHopsKnown_iff (h : Wf s) (hknown : NextHopsKnown s) {i : Input}
    (hi : i.event ≠ .alarms) : NextHopsKnown (step s i) ↔ TurnKnows s i := by
  have hactive := active_step h hi
  rw [nextHopsKnown_iff (h.step i)]
  constructor
  · intro hafter b hb
    have hact : (step s i).active b = true := by
      rw [hactive, Bool.or_eq_true, decide_eq_true_eq]
      rcases List.mem_append.1 hb with hb | hb
      · exact .inl hb
      · exact .inr (List.mem_filter.1 hb).2
    have hhop := hafter b hact
    rw [nextHopTo_step h hi (isSome_of_active hact), HopKnown, isSome_step h hi] at hhop
    exact hhop
  · intro hturn b hact
    rw [nextHopTo_step h hi (isSome_of_active hact), HopKnown, isSome_step h hi]
    by_cases hb : b ∈ touched s i
    · exact hturn b hb
    · -- an entry that was in use, with the next hop it had
      rw [touched, List.mem_append, not_or] at hb
      have hbefore : s.active b = true := by
        rw [hactive, Bool.or_eq_true, decide_eq_true_eq] at hact
        exact hact.resolve_left hb.1
      have hsame : turnNextHop s i b = nextHopTo s b := by
        unfold turnNextHop
        cases hred : redirected s i with
        | none => rfl
        | some c =>
          refine if_neg fun hc => hb.2 ?_
          rw [hred]
          exact List.mem_filter.2 ⟨by simp [hc], hbefore⟩
      rw [hsame]
      exact ((nextHopsKnown_iff h).1 hknown b hbefore).imp_right .inl

/-! ## Callbacks -/

/-- No entry in use has the address of an entry that is destroyed as its next hop. -/
def DestroyKnows (s : MshData) (p : Nat) : Prop :=
  ∀ r ∈ s.routing_table, r.self = p → r.hasFlag RTFLAG_VALID_ENTRY = false →
    ∀ b ∈ s.routing_table, b.hasFlag RTFLAG_VALID_ENTRY = true → b.next_hop ≠ b.dst_ip →
      b.next_hop ≠ r.dst_ip

/-- A retry renews no entry with a next hop that has no entry. -/
def RetryKnows (s : MshData) (p : Nat) : Prop :=
  ∀ e ∈ s.rreq_queue, e.self = p → e.Retries → e.dst ≠ s.ip_addr → s.active e.dst = true →
    ∀ b, refreshes s e.dst b = true → HopKnown s b (nextHopTo s b)

/-- The condition on the next callback. -/
def CallKnows (s : MshData) : AlarmOwner → Prop
  | .route p => DestroyKnows s p
  | .rreq p => RetryKnows s p

theorem route_nextHopsKnown_iff (h : Wf s) (hs : TimersOk s) (hknown : NextHopsKnown s) (p : Nat) :
    NextHopsKnown (runAlarm s (.route p)) ↔ DestroyKnows s p := by
  cases routeAlarm h hs p with
  | expired r hr hself hvalid ht =>
    refine iff_of_true ?_ fun r' hr' hself' hinv => ?_
    · -- the entries in use are entries that were in use, and none has left
      intro x hx hxvalid hne
      rw [ht] at hx ⊢
      obtain ⟨y, hy, rfl⟩ := List.mem_map.1 hx
      by_cases hyp : y.self = p
      · rw [if_pos hyp] at hxvalid
        have hinv := congrArg Timer.valid
          (timer_mshRouteExpire s.os.now s.alarms (clearNode y))
        exact absurd (hxvalid.symm.trans hinv) Bool.noConfusion
      · rw [if_neg hyp] at hxvalid hne ⊢
        obtain ⟨z, hz, hdst⟩ := hknown y hy hxvalid hne
        refine ⟨_, List.mem_map_of_mem hz, ?_⟩
        split
        · exact hdst
        · exact hdst
    · rw [KeyedList.eq_of_key h.table_self_nodup hr' hr (hself'.trans hself.symm)] at hinv
      exact absurd (hvalid.symm.trans hinv) Bool.noConfusion
  | destroyed r hr hself hinv ht =>
    have hmem : ∀ x, x ∈ (runAlarm s (.route p)).routing_table ↔
        x ∈ s.routing_table ∧ x.self ≠ p := by
      intro x
      rw [ht, List.mem_filter, decide_eq_true_eq]
    constructor
    · intro hafter r' hr' hself' _ b hb hbvalid hne heq
      obtain rfl := KeyedList.eq_of_key h.table_self_nodup hr' hr (hself'.trans hself.symm)
      have hbp : b.self ≠ p := by
        intro hc
        rw [KeyedList.eq_of_key h.table_self_nodup hb hr' (hc.trans hself'.symm)] at hbvalid
        exact absurd (hbvalid.symm.trans hinv) Bool.noConfusion
      obtain ⟨x, hx, hdst⟩ := hafter b ((hmem b).2 ⟨hb, hbp⟩) hbvalid hne
      obtain ⟨hxs, hxp⟩ := (hmem x).1 hx
      have hentry := entry_of_mem h hxs
      rw [hdst, heq, entry_of_mem h hr'] at hentry
      exact hxp (by rw [← Option.some.inj hentry, hself'])
    · intro hdestroy b hb hbvalid hne
      obtain ⟨hbs, -⟩ := (hmem b).1 hb
      obtain ⟨x, hx, hdst⟩ := hknown b hbs hbvalid hne
      refine ⟨x, (hmem x).2 ⟨hx, fun hxp => ?_⟩, hdst⟩
      obtain rfl := KeyedList.eq_of_key h.table_self_nodup hx hr (hxp.trans hself.symm)
      exact hdestroy x hr hself hinv b hbs hbvalid hne hdst.symm
  | stray habsent ht =>
    refine iff_of_true ?_ fun r hr hself => absurd hself (habsent r hr)
    rw [NextHopsKnown, ht]
    exact hknown

/-- The entries in use after a refresh. -/
theorem Refreshed.active {a : InAddr → Bool} (h : Refreshed s t a) (hs : Wf s) (ht : Wf t)
    (b : InAddr) : t.active b = (a b && (s.info b).isSome || s.active b) := by
  rw [MshData.info, Option.isSome_map]
  cases hr : s.entry b with
  | none =>
    have hnone : t.entry b = none := by
      rw [MshData.entry, List.find?_eq_none]
      intro r' hr' hdst
      obtain ⟨r, hr₀, hto⟩ := h.back r' hr'
      have hentry := entry_of_mem hs hr₀
      rw [← hto.dst_ip, of_decide_eq_true hdst, hr] at hentry
      cases hentry
    simp [MshData.active, hr, hnone]
  | some r =>
    obtain ⟨hmem, rfl⟩ := mem_of_entry hr
    obtain ⟨r', hr', -, hdst, htimer⟩ := h.forth r hmem
    have hentry := entry_of_mem ht hr'
    rw [hdst] at hentry
    rw [active_of_entry hentry, active_of_entry hr, Option.isSome_some, Bool.and_true]
    split at htimer
    · rename_i ha
      rw [ha, Bool.true_or]
      exact htimer.valid
    · rename_i ha
      rw [Bool.not_eq_true _ |>.mp ha, Bool.false_or]
      exact (valid_of_timer htimer).1

theorem isSome_of_refreshes {a b : InAddr} (h : refreshes s a b = true) :
    (s.info b).isSome = true := by
  obtain ⟨j, hj, hb⟩ := (Option.any_eq_true _ _).1 h
  rcases of_decide_eq_true hb with rfl | ⟨-, hsome⟩
  · rw [hj]; rfl
  · exact hsome

theorem rreq_nextHopsKnown_iff (h : Wf s) (hs : TimersOk s) (hknown : NextHopsKnown s) (p : Nat) :
    NextHopsKnown (runAlarm s (.rreq p)) ↔ RetryKnows s p := by
  have hwf : Wf (runAlarm s (.rreq p)) := (runAlarm_cases h _).wf h
  have hinfo := (runAlarm_cases h (.rreq p)).info h
  have hcalled := called h hs (.rreq p)
  generalize runAlarm s (.rreq p) = t at hwf hinfo hcalled
  generalize howner : AlarmOwner.rreq p = owner at hcalled
  cases hcalled with
  | route q => cases howner
  | quiet q hno ht =>
    obtain rfl := AlarmOwner.rreq.inj howner
    refine iff_of_true ?_ fun e he hself htries => absurd htries (hno e he hself)
    rw [NextHopsKnown, ht]
    exact hknown
  | retried e he htries href =>
    obtain rfl := AlarmOwner.rreq.inj howner
    have hkeep : t.info = s.info := by
      funext b
      rcases hinfo b with heq | hnone
      · exact heq
      · cases hb : s.info b with
        | none => exact hnone
        | some j =>
          obtain ⟨r, hr, hdst⟩ := isSome_info.1 (by rw [hb]; rfl)
          obtain ⟨r', hr', -, hdst', -⟩ := href.forth r hr
          have hsome := isSome_info.2 ⟨r', hr', hdst'.trans hdst⟩
          rw [hnone] at hsome
          cases hsome
    have hact := href.active h hwf
    have hbefore := (nextHopsKnown_iff h).1 hknown
    rw [nextHopsKnown_iff hwf, nextHopTo_congr hkeep]
    have hhop : ∀ b c, HopKnown t b c ↔ HopKnown s b c := fun b c => by
      rw [HopKnown, HopKnown, hkeep]
    constructor
    · intro hafter x hx hself _ hne husable b hb
      obtain rfl := KeyedList.eq_of_key h.rreq_nodup hx he hself
      refine (hhop _ _).1 (hafter b ?_)
      rw [hact b, routeUsable, husable, hb, isSome_of_refreshes hb, decide_eq_true hne]
      simp
    · intro hretry b hb
      refine (hhop _ _).2 ?_
      rw [hact b, Bool.or_eq_true, Bool.and_eq_true, Bool.and_eq_true, Bool.and_eq_true,
        decide_eq_true_eq] at hb
      rcases hb with ⟨⟨⟨husable, hne⟩, hrefreshes⟩, -⟩ | hb
      · refine hretry e he rfl htries hne ?_ b hrefreshes
        simpa [routeUsable, hne] using husable
      · exact hbefore b hb

/-! ## Runs -/

/-- **The condition on one tick**: a turn that is not an alarm run, or the next callback. -/
def NextHopsKept (m : Moment) : Tick → Prop
  | .turn i => m.batch = [] → i.event ≠ .alarms → TurnKnows m.data i
  | .callback => ∀ a rest, m.batch = a :: rest → CallKnows m.data a.owner

theorem tick_nextHopsKnown_iff (hok : MomentOk m) (hknown : NextHopsKnown m.data) (k : Tick) :
    NextHopsKnown (tick m k).data ↔ NextHopsKept m k := by
  cases k with
  | turn i =>
    by_cases hbatch : m.batch = []
    · by_cases hev : i.event = .alarms
      · rw [tick_alarms hbatch hev]
        exact iff_of_true hknown fun _ hne => absurd hev hne
      · rw [tick_step hbatch hev, turn_nextHopsKnown_iff hok.wf hknown hev]
        exact ⟨fun hturn _ _ => hturn, fun hkept => hkept hbatch hev⟩
    · rw [tick_busy hbatch]
      exact iff_of_true hknown fun hempty => absurd hempty hbatch
  | callback =>
    cases hbatch : m.batch with
    | nil =>
      rw [tick_idle hbatch]
      refine iff_of_true hknown fun a rest hcons => ?_
      rw [hbatch] at hcons
      cases hcons
    | cons a rest =>
      have hcall : NextHopsKept m .callback ↔ CallKnows m.data a.owner := by
        simp [NextHopsKept, hbatch]
      rw [tick_callback hbatch, hcall]
      cases a.owner with
      | route p => exact route_nextHopsKnown_iff hok.wf hok.timers hknown p
      | rreq p => exact rreq_nextHopsKnown_iff hok.wf hok.timers hknown p

/-- **When next hops are known**: at every moment of exactly the runs whose ticks meet the
    condition. -/
theorem nextHopsKnown_iff_kept (ip bcast : InAddr) (iface : U32) (ks : List Tick) :
    (∀ pre, pre <+: ks → NextHopsKnown (run tick (startMoment ip bcast iface) pre).data) ↔
      StepsMeet tick NextHopsKept (startMoment ip bcast iface) ks :=
  Machine.forall_prefix_iff (I := MomentOk) (fun _ k h => (ticked _ k).momentOk h)
    (fun _ k hok hknown => tick_nextHopsKnown_iff hok hknown k) (momentOk ip bcast iface [])
    (fun _ hr => absurd hr List.not_mem_nil)

/-- A reply makes an entry for its destination, 10.0.0.9, and one for its sender, 10.0.0.2, which
    is in use for 3 s and is destroyed 2 s later. -/
def senderForgotten : List Input :=
  [⟨0, [], [], datagramFrom 0x0A000002 64
      (aodvPktBuildRrep 0 0 0 0x0A000009 1 0x0A000001 MY_ROUTE_TIMEOUT)⟩,
    ⟨3000000, [], [], .alarms⟩,
    ⟨5000000, [], [], .alarms⟩]

/-- **The next hop is forgotten first**: the entry for 10.0.0.9 is in use until 6 s. -/
theorem next_hop_destroyed :
    ¬ ∀ (ip bcast : InAddr) (iface : U32) (is : List Input),
      NextHopsKnown (run step (mshDataInit ip bcast iface) is) := by
  intro hall
  exact absurd (hall 0x0A000001 0x0A0000FF 0 senderForgotten) (by decide +kernel)

end Meshias
