import Meshias.Lib.Machine
import Meshias.Forecast

/-!
# The kernel's routes

The daemon installs a route in the kernel for every entry and asks for its deletion when the entry
is destroyed.  In between, `msh_route_set_next_hop` changes the next hop of the entry and the
gateway of the `rtnl_route` the entry carries, but nothing tells the kernel; and while an insertion
leaves the gateway out when the next hop is the destination, the update always sets it.

* `kernelRoute` — the kernel's table as a map.
* `Writes` — the entries a message inserts and updates.
* `KernelAgrees` — the kernel forwards where the table says; `NoStaleRoute` — every deletion has
  found its route, and the kernel has no route without an entry.
* `InStep` — the `rtnl_route` of every entry is the kernel's route, and goes over the next hop.

Principal results: `kernelAgrees_iff`, `inStep_iff` and `noStaleRoute_of_updates` — the conditions
under which these hold all along a run; `gateway_outdated`, `deletion_fails` — runs in which they
do not.
-/

set_option autoImplicit false

namespace Meshias

open Machine (run StepsMeet)

variable {s t u : MshData}

/-! ## The kernel's table -/

/-- The kernel's route to a host. -/
def kernelRoute (routes : List RtnlRoute) (a : InAddr) : Option RtnlRoute :=
  routes.find? (fun k => k.dst = ⟨a, 32⟩)

/-- The gateway of a host route: none to a neighbour. -/
def gatewayOf (dst next_hop : InAddr) : Option NlAddr :=
  if dst ≠ next_hop then some ⟨next_hop, 32⟩ else none

theorem gatewayOf_inj {dst a b : InAddr} : gatewayOf dst a = gatewayOf dst b ↔ a = b := by
  unfold gatewayOf
  by_cases ha : dst = a <;> by_cases hb : dst = b
  · simp [← ha, ← hb]
  · simp [← ha, hb]
  · simp [← hb, ha, Ne.symm ha]
  · simp [ha, hb]

theorem gatewayOf_eq_some {dst a b : InAddr} :
    gatewayOf dst a = some ⟨b, 32⟩ ↔ dst ≠ a ∧ a = b := by
  unfold gatewayOf
  by_cases ha : dst = a <;> simp [ha]

/-- A request adds a route to its destination, unless there is one. -/
theorem kernelRoute_add (routes : List RtnlRoute) (iface : U32) (d p b : InAddr) :
    kernelRoute (kernelAdd routes (hostRequest iface d p)) b =
      if b = d then (kernelRoute routes b).or (some (hostRequest iface d p))
      else kernelRoute routes b := by
  have hdst : (hostRequest iface d p).dst = ⟨d, 32⟩ := rfl
  unfold kernelAdd
  split
  · rename_i hany
    split
    · rename_i hb
      subst hb
      cases hk : kernelRoute routes b with
      | some k => rfl
      | none =>
        obtain ⟨k, hmem, hkd⟩ := List.any_eq_true.1 hany
        have hne := List.find?_eq_none.1 hk k hmem
        exact absurd hkd hne
    · rfl
  · rename_i hany
    rw [kernelRoute, List.find?_cons, hdst]
    by_cases hb : b = d
    · subst hb
      have hnone : kernelRoute routes b = none := by
        refine List.find?_eq_none.2 fun k hk hkd => hany ?_
        exact List.any_eq_true.2 ⟨k, hk, hkd⟩
      simp [hnone]
    · simp [hb, Ne.symm hb, kernelRoute]

/-- All routes of the daemon are host routes, and there is one for a host. -/
structure KernelWf (routes : List RtnlRoute) : Prop where
  nodup : (routes.map (·.dst)).Nodup
  host : ∀ k ∈ routes, ∃ a, k.dst = ⟨a, 32⟩

theorem KernelWf.add {routes : List RtnlRoute} (h : KernelWf routes) (iface : U32)
    (d p : InAddr) : KernelWf (kernelAdd routes (hostRequest iface d p)) := by
  unfold kernelAdd
  split
  · exact h
  · rename_i hany
    refine ⟨List.nodup_cons.2 ⟨fun hm => hany ?_, h.nodup⟩, fun k hk => ?_⟩
    · obtain ⟨k, hk, hkd⟩ := List.mem_map.1 hm
      exact List.any_eq_true.2 ⟨k, hk, decide_eq_true hkd⟩
    · rcases List.mem_cons.1 hk with rfl | hk
      · exact ⟨d, rfl⟩
      · exact h.host k hk

theorem KernelWf.del {os : Os} (h : KernelWf os.routes) (q : RtnlRoute) :
    KernelWf (rtnlRouteDel os q).1.routes := by
  unfold rtnlRouteDel
  dsimp only
  split
  · exact ⟨h.nodup.sublist ((List.filter_sublist).map _),
      fun k hk => h.host k (List.mem_filter.1 hk).1⟩
  · exact h

/-- A deletion removes the route to its destination if the gateways are the same. -/
theorem kernelRoute_del {os : Os} (hnodup : (os.routes.map (·.dst)).Nodup) {q : RtnlRoute}
    {a : InAddr} (hq : q.dst = ⟨a, 32⟩) (b : InAddr) :
    kernelRoute (rtnlRouteDel os q).1.routes b =
      (kernelRoute os.routes b).filter (fun k => !decide (b = a ∧ k.gateway = q.gateway)) := by
  have hfilter : ∀ l : List RtnlRoute, (l.map (·.dst)).Nodup →
      kernelRoute (l.filter (fun k => !decide (k.dst = q.dst ∧ k.gateway = q.gateway))) b =
        (kernelRoute l b).filter (fun k => !decide (b = a ∧ k.gateway = q.gateway)) := by
    intro l hl
    rw [kernelRoute, KeyedList.find_key_filter hl]
    ext k
    simp only [Option.filter_eq_some_iff, kernelRoute, hq]
    refine and_congr_right fun hk => ?_
    have hkd : k.dst = ⟨b, 32⟩ := by simpa using List.find?_some hk
    simp [hkd]
  unfold rtnlRouteDel
  dsimp only
  split
  · exact hfilter _ hnodup
  · rename_i hany
    rw [← hfilter _ hnodup, List.filter_eq_self.2]
    intro k hk
    rw [Bool.not_eq_true', Bool.eq_false_iff]
    exact fun hc => hany (List.any_eq_true.2 ⟨k, hk, hc⟩)

theorem kernelRoute_del_ne {os : Os} (hnodup : (os.routes.map (·.dst)).Nodup) {q : RtnlRoute}
    {a b : InAddr} (hq : q.dst = ⟨a, 32⟩) (hb : b ≠ a) :
    kernelRoute (rtnlRouteDel os q).1.routes b = kernelRoute os.routes b := by
  rw [kernelRoute_del hnodup hq]
  cases kernelRoute os.routes b with
  | none => rfl
  | some k => simp [hb]

/-! ## What a message writes -/

/-- The entries a message inserts, and those in which it sets the next hop once they are in the
    table; the next hop is the sender in either case. -/
structure Writes where
  sender : InAddr
  inserted : List InAddr
  updated : List InAddr

/-- The previous hop, if it is new. -/
def prevHopInserted (s : MshData) (i : Input) (pkt : AodvPkt) : List InAddr :=
  if s.info pkt.address = none ∧ i.refusals.headD false = false then [pkt.address] else []

/-- The originator of a RREQ or the destination of a RREP, if it is new. -/
def bodyInserted (s : MshData) (i : Input) (pkt : AodvPkt) (d : InAddr) : List InAddr :=
  if knownOnArrival s i pkt d || nextRefused s i pkt then [] else [d]

def rreqWrites (s : MshData) (i : Input) (pkt : AodvPkt) : Writes where
  sender := pkt.address
  inserted := prevHopInserted s i pkt ++
    if rreqDuplicate s pkt then [] else bodyInserted s i pkt (rreqOfPayload pkt.payload).orig_ip_addr
  updated :=
    if !rreqDuplicate s pkt && knownOnArrival s i pkt (rreqOfPayload pkt.payload).orig_ip_addr then
      [(rreqOfPayload pkt.payload).orig_ip_addr]
    else []

/-- A RREP also updates the entry that it has just inserted. -/
def rrepWrites (s : MshData) (i : Input) (pkt : AodvPkt) : Writes where
  sender := pkt.address
  inserted := prevHopInserted s i pkt ++
    if rrepAcceptable s pkt then bodyInserted s i pkt (rrepNext pkt).dest_ip_addr else []
  updated := if rrepAcceptable s pkt then destActivated s i pkt else []

def writes (s : MshData) (i : Input) : Option Writes :=
  match receivedRreq s i, receivedRrep s i with
  | some pkt, _ => some (rreqWrites s i pkt)
  | none, some pkt => some (rrepWrites s i pkt)
  | none, none => none

/-- `rtnl_route_set_gateway` on the object of an entry. -/
def setGateway (p : InAddr) (nlroute : Option RtnlRoute) : Option RtnlRoute :=
  nlroute.map ({ · with gateway := some ⟨p, 32⟩ })

/-- **The table and the kernel after a message.** -/
structure Wrote (s : MshData) (w : Writes) (t : MshData) : Prop where
  new : ∀ b ∈ w.inserted, s.info b = none
  known : ∀ b ∈ w.updated, s.info b ≠ none ∨ b ∈ w.inserted
  other : ∀ b, b ∉ w.inserted → b ∉ w.updated → t.info b = s.info b
  hop : ∀ b, b ∈ w.inserted ∨ b ∈ w.updated → ∃ j, t.info b = some j ∧ j.next_hop = w.sender ∧
    j.nlroute =
      let nlroute := match s.info b with
        | some j => j.nlroute
        | none => some (hostRequest s.net_iface b w.sender)
      if b ∈ w.updated then setGateway w.sender nlroute else nlroute
  kernel : ∀ b, kernelRoute t.os.routes b =
    if b ∈ w.inserted then
      (kernelRoute s.os.routes b).or (some (hostRequest s.net_iface b w.sender))
    else kernelRoute s.os.routes b
  wf : KernelWf s.os.routes → KernelWf t.os.routes
  dels : t.os.dels = s.os.dels

section Message

variable (i : Input) (stats : Statistics) (pkt : AodvPkt)

theorem wrote_arrived (h : Wf s) :
    Wrote s ⟨pkt.address, prevHopInserted s i pkt, []⟩
      (rreqArrived ((s.arrive i).withStats stats) pkt) := by
  have hwf := (h.arrive i).withStats stats
  have hinfo := info_rreqArrived pkt hwf
  have hroutes := routes_aodvRreqPrevHop hwf pkt.address
  change ∀ b, _ = if s.info pkt.address = none ∧ i.refusals.headD false = false ∧ b = pkt.address
    then some (.prevHop s.net_iface pkt.address) else s.info b at hinfo
  change _ = if s.info pkt.address = none ∧ i.refusals.headD false = false then
    kernelAdd s.os.routes (hostRequest s.net_iface pkt.address pkt.address) else s.os.routes
    at hroutes
  have hdels : (rreqArrived ((s.arrive i).withStats stats) pkt).os.dels = s.os.dels :=
    (onlyTable_rreqArrived pkt hwf).dels
  unfold prevHopInserted
  by_cases hc : s.info pkt.address = none ∧ i.refusals.headD false = false
  · rw [if_pos hc] at hroutes ⊢
    constructor
    case new => intro b hb; rw [List.mem_singleton.1 hb]; exact hc.1
    case known => intro b hb; cases hb
    case other =>
      intro b hb _
      rw [hinfo, if_neg (fun hx => hb (List.mem_singleton.2 hx.2.2))]
    case hop =>
      rintro b (hb | hb)
      · obtain rfl := List.mem_singleton.1 hb
        refine ⟨_, by rw [hinfo, if_pos ⟨hc.1, hc.2, rfl⟩], rfl, ?_⟩
        simp [hc.1, RouteInfo.prevHop]
      · cases hb
    case kernel =>
      intro b
      rw [rreqArrived, hroutes, kernelRoute_add]
      simp only [List.mem_singleton]
      split
      · rename_i hb; rw [hb]
      · rfl
    case wf => rw [rreqArrived, hroutes]; exact fun hk => hk.add _ _ _
    case dels => exact hdels
  · rw [if_neg hc] at hroutes ⊢
    constructor
    case new => intro b hb; cases hb
    case known => intro b hb; cases hb
    case other => intro b _ _; rw [hinfo, if_neg (fun hx => hc ⟨hx.1, hx.2.1⟩)]
    case hop => rintro b (hb | hb) <;> cases hb
    case kernel => intro b; rw [rreqArrived, hroutes]; simp
    case wf => rw [rreqArrived, hroutes]; exact id
    case dels => exact hdels

end Message

section Body

variable {p d : InAddr} {ins : List InAddr} {j : RouteInfo}

/-- What an entry says after a stage without updates. -/
theorem Wrote.nlroute (h : Wrote s ⟨p, ins, []⟩ u) (hj : u.info d = some j) :
    j.nlroute = match s.info d with
      | some j => j.nlroute
      | none => some (hostRequest s.net_iface d p) := by
  by_cases hins : d ∈ ins
  · obtain ⟨k, hk, -, hnl⟩ := h.hop d (.inl hins)
    rw [hj] at hk
    obtain rfl := Option.some.inj hk
    simpa using hnl
  · rw [← h.other d hins List.not_mem_nil, hj]

theorem Wrote.not_inserted (h : Wrote s ⟨p, ins, []⟩ u) (hd : u.info d = none) :
    d ∉ ins ∧ s.info d = none := by
  have hins : d ∉ ins := by
    intro hc
    obtain ⟨k, hk, -⟩ := h.hop d (.inl hc)
    rw [hd] at hk
    exact absurd hk (by simp)
  exact ⟨hins, by rw [← h.other d hins List.not_mem_nil, hd]⟩

/-- Then the entry of `d` is updated. -/
theorem Wrote.update (h : Wrote s ⟨p, ins, []⟩ u) (hj : u.info d = some j)
    (hother : ∀ b, b ≠ d → t.info b = u.info b)
    (hd : ∃ j', t.info d = some j' ∧ j'.next_hop = p ∧ j'.nlroute = setGateway p j.nlroute)
    (hroutes : t.os.routes = u.os.routes) (hdels : t.os.dels = u.os.dels) :
    Wrote s ⟨p, ins, [d]⟩ t := by
  obtain ⟨j', hj', hnext, hnl⟩ := hd
  constructor
  case new => exact h.new
  case known =>
    intro b hb
    obtain rfl := List.mem_singleton.1 hb
    by_cases hins : b ∈ ins
    · exact .inr hins
    · left
      rw [← h.other b hins List.not_mem_nil, hj]
      exact Option.some_ne_none j
  case other =>
    intro b hins hb
    rw [hother b (fun hc => hb (List.mem_singleton.2 hc)), h.other b hins List.not_mem_nil]
  case hop =>
    intro b hb
    by_cases hbd : b = d
    · subst hbd
      refine ⟨j', hj', hnext, ?_⟩
      rw [hnl, h.nlroute hj, if_pos (List.mem_singleton_self b)]
    · have hins : b ∈ ins := hb.resolve_right (fun hc => hbd (List.mem_singleton.1 hc))
      obtain ⟨k, hk, hknext, hknl⟩ := h.hop b (.inl hins)
      exact ⟨k, by rw [hother b hbd, hk], hknext, by simpa [hbd] using hknl⟩
  case kernel => rw [hroutes]; exact h.kernel
  case wf => rw [hroutes]; exact h.wf
  case dels => exact hdels.trans h.dels

/-- Then the entry of `d` is inserted; `again` says that it is updated after that. -/
theorem Wrote.insert (again : Bool) (h : Wrote s ⟨p, ins, []⟩ u) (hnone : u.info d = none)
    (hother : ∀ b, b ≠ d → t.info b = u.info b)
    (hd : ∃ j', t.info d = some j' ∧ j'.next_hop = p ∧ j'.nlroute =
      if again then setGateway p (some (hostRequest s.net_iface d p))
      else some (hostRequest s.net_iface d p))
    (hroutes : t.os.routes = kernelAdd u.os.routes (hostRequest s.net_iface d p))
    (hdels : t.os.dels = u.os.dels) :
    Wrote s ⟨p, ins ++ [d], if again then [d] else []⟩ t := by
  obtain ⟨j', hj', hnext, hnl⟩ := hd
  obtain ⟨hins, hsnone⟩ := h.not_inserted hnone
  constructor
  case new =>
    intro b hb
    rcases List.mem_append.1 hb with hb | hb
    · exact h.new b hb
    · rw [List.mem_singleton.1 hb, hsnone]
  case known =>
    intro b hb
    refine .inr (List.mem_append_right _ ?_)
    split at hb
    · exact hb
    · cases hb
  case other =>
    intro b hb _
    obtain ⟨hb1, hb2⟩ := not_or.1 (mt List.mem_append.2 hb)
    rw [hother b (fun hc => hb2 (List.mem_singleton.2 hc)), h.other b hb1 List.not_mem_nil]
  case hop =>
    intro b hb
    by_cases hbd : b = d
    · subst hbd
      refine ⟨j', hj', hnext, ?_⟩
      rw [hnl, hsnone]
      cases again <;> simp
    · have hb' : b ∈ ins := by
        rcases hb with hb | hb
        · exact (List.mem_append.1 hb).resolve_right (fun hc => hbd (List.mem_singleton.1 hc))
        · split at hb
          · exact absurd (List.mem_singleton.1 hb) hbd
          · cases hb
      obtain ⟨k, hk, hknext, hknl⟩ := h.hop b (.inl hb')
      have hno : b ∉ (if again = true then [d] else []) := by cases again <;> simp [hbd]
      refine ⟨k, by rw [hother b hbd, hk], hknext, ?_⟩
      rw [if_neg hno, hknl, if_neg List.not_mem_nil]
  case kernel =>
    intro b
    rw [hroutes, kernelRoute_add, h.kernel]
    by_cases hbd : b = d
    · simp [hbd, hins]
    · simp [hbd]
  case wf => rw [hroutes]; exact fun hk => (h.wf hk).add _ _ _
  case dels => exact hdels.trans h.dels

theorem Wrote.congr {w : Writes} (h : Wrote s w u) (hinfo : t.info = u.info)
    (hroutes : t.os.routes = u.os.routes) (hdels : t.os.dels = u.os.dels) : Wrote s w t where
  new := h.new
  known := h.known
  other b := by rw [hinfo]; exact h.other b
  hop b := by rw [hinfo]; exact h.hop b
  kernel b := by rw [hroutes]; exact h.kernel b
  wf hk := by rw [hroutes]; exact h.wf hk
  dels := hdels.trans h.dels

/-- **What both messages do then**: the entry of `d` is updated if it is there; otherwise one is
    inserted, unless the kernel refuses it. -/
theorem Wrote.body (again refused : Bool) {update : RouteInfo → RouteInfo} {new : RouteInfo}
    (h : Wrote s ⟨p, ins, []⟩ u)
    (hupdate : ∀ j, (update j).next_hop = p ∧ (update j).nlroute = setGateway p j.nlroute)
    (hnew : new.next_hop = p ∧ new.nlroute =
      if again then setGateway p (some (hostRequest s.net_iface d p))
      else some (hostRequest s.net_iface d p))
    (hself : t.info d = match u.info d with
      | some j => some (update j)
      | none => if refused then none else some new)
    (hother : ∀ b, b ≠ d → t.info b = u.info b)
    (hroutes : t.os.routes = if u.info d = none ∧ refused = false then
        kernelAdd u.os.routes (hostRequest s.net_iface d p)
      else u.os.routes)
    (hdels : t.os.dels = u.os.dels) :
    Wrote s ⟨p, ins ++ if (u.info d).isSome || refused then [] else [d],
      if (u.info d).isSome || again && !refused then [d] else []⟩ t := by
  cases hd : u.info d with
  | some j =>
    rw [hd] at hself hroutes
    have hkept : t.os.routes = u.os.routes := by rw [hroutes, if_neg (by simp)]
    simpa using h.update hd hother ⟨_, hself, (hupdate j).1, (hupdate j).2⟩ hkept hdels
  | none =>
    rw [hd] at hself hroutes
    cases refused with
    | true =>
      have hsame : t.info = u.info := by
        funext b
        by_cases hb : b = d
        · rw [hb, hself, hd]; rfl
        · exact hother b hb
      have hkept : t.os.routes = u.os.routes := by rw [hroutes, if_neg (by simp)]
      simpa using h.congr hsame hkept hdels
    | false =>
      have hadded : t.os.routes = kernelAdd u.os.routes (hostRequest s.net_iface d p) := by
        rw [hroutes, if_pos ⟨rfl, rfl⟩]
      simpa using h.insert again hd hother ⟨_, hself, hnew.1, hnew.2⟩ hadded hdels

end Body

section Message

variable (i : Input) (stats : Statistics) (pkt : AodvPkt)

theorem wrote_rreq (h : Wf s) :
    Wrote s (rreqWrites s i pkt) (aodvProcessRreq ((s.arrive i).withStats stats) pkt) := by
  have hwf := (h.arrive i).withStats stats
  have harr := wrote_arrived i stats pkt h
  have hknown := isSome_rreqArrived h i stats pkt (rreqOfPayload pkt.payload).orig_ip_addr
  have hiface : (rreqBuffered ((s.arrive i).withStats stats) pkt).net_iface = s.net_iface :=
    (onlyTable_rreqArrived pkt hwf).net_iface
  have hinfo := info_rreqReversed pkt hwf
  have hroutes : (rreqReversed ((s.arrive i).withStats stats) pkt).os.routes = _ :=
    routes_aodvUpdateOrig pkt.address (rreqOfPayload pkt.payload).hop_count
      (rreqOfPayload pkt.payload).orig_ip_addr (rreqOfPayload pkt.payload).orig_seq_num
      (wf_rreqBuffered pkt hwf)
  rw [hiface] at hroutes
  change _ = if (rreqArrived ((s.arrive i).withStats stats) pkt).info _ = none ∧
      (rreqArrived ((s.arrive i).withStats stats) pkt).refuses = false then
    kernelAdd (rreqArrived ((s.arrive i).withStats stats) pkt).os.routes _
    else (rreqArrived ((s.arrive i).withStats stats) pkt).os.routes at hroutes
  rw [nextRefused_eq h] at hroutes
  have hdels : (rreqReversed ((s.arrive i).withStats stats) pkt).os.dels =
      (rreqArrived ((s.arrive i).withStats stats) pkt).os.dels :=
    (onlyTable_rreqReversed pkt hwf).dels
  have hself := hinfo (rreqOfPayload pkt.payload).orig_ip_addr
  rw [if_pos rfl, nextRefused_eq h] at hself
  have hother : ∀ b, b ≠ (rreqOfPayload pkt.payload).orig_ip_addr →
      (rreqReversed ((s.arrive i).withStats stats) pkt).info b =
        (rreqArrived ((s.arrive i).withStats stats) pkt).info b := fun b hb => by
    rw [hinfo, if_neg hb]
  obtain ⟨o, heq⟩ := aodvProcessRreq_eq pkt hwf
  rw [heq, rreqDuplicate_arrive, rreqWrites, bodyInserted, ← hknown]
  cases rreqDuplicate s pkt with
  | true => simpa using harr
  | false =>
    have hreply := (rreqReply_spec (s := rreqReversed ((s.arrive i).withStats stats) pkt) pkt
      (rreqNext pkt) pkt.address o).1
    rw [if_neg Bool.false_ne_true]
    refine Wrote.congr ?_ (hreply.info (wf_rreqReversed pkt hwf)) hreply.routes hreply.dels
    simpa using harr.body false (nextRefused s i pkt) (fun j => ⟨rfl, rfl⟩) ⟨rfl, rfl⟩ hself hother
      hroutes hdels

theorem wrote_rrep (h : Wf s) :
    Wrote s (rrepWrites s i pkt) (aodvProcessRrep ((s.arrive i).withStats stats) pkt) := by
  have hwf := (h.arrive i).withStats stats
  have harr := wrote_arrived i stats pkt h
  have hknown := isSome_rreqArrived h i stats pkt (rrepNext pkt).dest_ip_addr
  have hiface : (rreqArrived ((s.arrive i).withStats stats) pkt).net_iface = s.net_iface :=
    (onlyTable_rreqArrived pkt hwf).net_iface
  have hinfo := info_rrepUpdated pkt hwf
  have hroutes : (rrepUpdated ((s.arrive i).withStats stats) pkt).os.routes = _ :=
    routes_destUpdated pkt.address (rrepNext pkt) (wf_rrepArrived pkt hwf)
  rw [rrepArrived_eq, hiface, nextRefused_eq h] at hroutes
  have hdels : (rrepUpdated ((s.arrive i).withStats stats) pkt).os.dels =
      (rreqArrived ((s.arrive i).withStats stats) pkt).os.dels := by
    rw [← rrepArrived_eq]
    exact (onlyTable_destUpdated pkt.address (rrepNext pkt) (wf_rrepArrived pkt hwf)).dels
  have hself := hinfo (rrepNext pkt).dest_ip_addr
  rw [if_pos rfl, nextRefused_eq h] at hself
  have hother : ∀ b, b ≠ (rrepNext pkt).dest_ip_addr →
      (rrepUpdated ((s.arrive i).withStats stats) pkt).info b =
        (rreqArrived ((s.arrive i).withStats stats) pkt).info b := fun b hb => by
    rw [hinfo, if_neg hb]
  have hacc := rrepAccepted_arrive h i stats pkt
  have hbody := harr.body true (nextRefused s i pkt) (fun j => ⟨rfl, rfl⟩) ⟨rfl, rfl⟩ hself hother
    hroutes hdels
  rw [Bool.true_and] at hbody
  rw [rrepWrites, bodyInserted, destActivated, ← hknown, ← hacc]
  cases rrepProcessed pkt hwf with
  | refused hrej ht =>
    rw [ht, hrej]
    simpa using harr
  -- what follows the update changes neither the table nor the kernel
  | ended hacc _ ht =>
    rw [ht, hacc]
    exact hbody.congr (info_congr rfl) rfl rfl
  | forwarded hacc _ ph d ht =>
    have hfwd := (aodvForwardRrep_spec pkt (rrepNext pkt) ph d (wf_rrepUpdated pkt hwf)).1
    rw [ht, hacc]
    exact hbody.congr (hfwd.info (wf_rrepUpdated pkt hwf)) hfwd.routes hfwd.dels

end Message

/-- **A turn without alarms** inserts and updates what `writes` says. -/
theorem wrote_step (h : Wf s) {i : Input} {w : Writes} (hw : writes s i = some w) :
    Wrote s w (step s i) := by
  unfold writes at hw
  cases turn s i with
  | rreq pkt stats hpkt hstep =>
    rw [hpkt] at hw
    obtain rfl := Option.some.inj hw
    rw [hstep]
    exact wrote_rreq i stats pkt h
  | rrep pkt stats hpkt hstep =>
    rw [receivedRreq_of_rrep hpkt, hpkt] at hw
    obtain rfl := Option.some.inj hw
    rw [hstep]
    exact wrote_rrep i stats pkt h
  | packet nfa hev _ =>
    obtain ⟨hrreq, hrrep⟩ := received_of_event (s := s) (i := i) (by simp [hev])
    rw [hrreq, hrrep] at hw
    exact absurd hw (by simp)
  | alarms hev _ =>
    obtain ⟨hrreq, hrrep⟩ := received_of_event (s := s) (i := i) (by simp [hev])
    rw [hrreq, hrrep] at hw
    exact absurd hw (by simp)
  | quiet stats hrreq hrrep _ _ _ =>
    rw [hrreq, hrrep] at hw
    exact absurd hw (by simp)

theorem kernel_managePacket (h : Wf s) (nfa : NfqData) :
    (managePacket s nfa).os.routes = s.os.routes ∧ (managePacket s nfa).os.dels = s.os.dels := by
  have hlook := fun orig => sameTable_packetLookedUp h nfa orig
  cases packetManaged h nfa with
  | passed _ ht => rw [ht]; exact ⟨rfl, rfl⟩
  | routed orig _ _ _ ht => rw [ht]; exact ⟨(hlook orig).routes, (hlook orig).dels⟩
  | unanswered _ _ _ ht => rw [ht]; exact ⟨(hlook _).routes, (hlook _).dels⟩
  | queued _ _ _ _ ht => rw [ht]; exact ⟨(hlook 0).routes, (hlook 0).dels⟩
  | discovered _ _ _ _ ht =>
    have horig := originated_aodvFindRoute (packetsFifoPush (packetLookedUp s nfa 0)
      (nfqueuePacketGetId nfa) (nfqueuePacketGetDest nfa)) (nfqueuePacketGetDest nfa) 0
    rw [ht]
    exact ⟨horig.routes.trans (hlook 0).routes, horig.dels.trans (hlook 0).dels⟩

/-- A turn with neither a message nor alarms leaves the table and the kernel alone. -/
theorem unwritten_step (h : Wf s) {i : Input} (hw : writes s i = none)
    (hi : i.event ≠ .alarms) :
    (step s i).info = s.info ∧ (step s i).os.routes = s.os.routes ∧
      (step s i).os.dels = s.os.dels := by
  unfold writes at hw
  cases turn s i with
  | rreq pkt stats hpkt _ => rw [hpkt] at hw; exact absurd hw (by simp)
  | rrep pkt stats hpkt _ =>
    rw [receivedRreq_of_rrep hpkt, hpkt] at hw
    exact absurd hw (by simp)
  | packet nfa hev hstep =>
    rw [hstep]
    exact ⟨info_managePacket (h.arrive i) nfa, kernel_managePacket (h.arrive i) nfa⟩
  | alarms hev _ => exact absurd hev hi
  | quiet stats _ _ _ _ hstep => rw [hstep]; exact ⟨rfl, rfl, rfl⟩

/-- An alarm leaves the table and the kernel alone, or destroys one entry. -/
theorem AlarmRun.kernel (h : Wf s) (hrun : AlarmRun s t) :
    (t.info = s.info ∧ t.os.routes = s.os.routes ∧ t.os.dels = s.os.dels) ∨
      ∃ a j q, s.info a = some j ∧ j.nlroute = some q ∧ q.dst = ⟨a, 32⟩ ∧
        (∀ b, t.info b = if b = a then none else s.info b) ∧
        t.os.routes = (rtnlRouteDel s.os q).1.routes ∧ t.os.dels = (rtnlRouteDel s.os q).1.dels := by
  cases hrun with
  | idle hsame => exact .inl ⟨hsame.info h, hsame.routes, hsame.dels⟩
  | expired a hexp => exact .inl ⟨hexp.same.info h, hexp.same.routes, hexp.same.dels⟩
  | destroyed r q hr hq hdel =>
    obtain ⟨q', hq', hdst⟩ := (h.entryOk hr).nlroute
    rw [hq] at hq'
    obtain rfl := Option.some.inj hq'
    exact .inr ⟨r.dst_ip, r.info, q, info_of_entry hr, hq, hdst, hdel.info, hdel.routes, hdel.dels⟩
  | forgotten e _ _ ht => rw [ht]; exact .inl ⟨rfl, rfl, rfl⟩
  | gaveUp e _ _ ht => rw [ht]; exact .inl ⟨rfl, rfl, rfl⟩
  | retried e _ _ hret => exact .inl ⟨hret.info, hret.routes, hret.dels⟩

theorem AlarmRun.kernelWf (h : Wf s) (hrun : AlarmRun s t) (hk : KernelWf s.os.routes) :
    KernelWf t.os.routes := by
  rcases hrun.kernel h with ⟨-, hroutes, -⟩ | ⟨a, j, q, -, -, -, -, hroutes, -⟩
  · rw [hroutes]; exact hk
  · rw [hroutes]; exact hk.del q

theorem kernelWf_step (h : Wf s) (hk : KernelWf s.os.routes) (i : Input) :
    KernelWf (step s i).os.routes := by
  by_cases hi : i.event = .alarms
  · have hstep : step s i = doAlarmRun (s.arrive i) := by rw [step, hi]; rfl
    rw [hstep]
    refine (doAlarmRun_invariant (I := fun t => Wf t ∧ KernelWf t.os.routes) ?_
      ⟨h.arrive i, hk⟩).2
    rintro t owner ⟨hwf, hk⟩
    have hrun := runAlarm_cases hwf owner
    exact ⟨hrun.wf hwf, hrun.kernelWf hwf hk⟩
  · cases hw : writes s i with
    | some w => exact (wrote_step h hw).wf hk
    | none => rw [(unwritten_step h hw hi).2.1]; exact hk

theorem kernelWf_init (ip bcast : InAddr) (iface : U32) :
    KernelWf (mshDataInit ip bcast iface).os.routes :=
  ⟨List.nodup_nil, fun k hk => by cases hk⟩

/-! ## The kernel forwards where the table says -/

/-- **The kernel's route to every destination in the table goes over the entry's next hop.** -/
def KernelAgrees (s : MshData) : Prop :=
  ∀ r ∈ s.routing_table,
    (kernelRoute s.os.routes r.dst_ip).map (·.gateway) = some (gatewayOf r.dst_ip r.next_hop)

instance (s : MshData) : Decidable (KernelAgrees s) := by unfold KernelAgrees; infer_instance

/-- The condition on one turn: no message changes a next hop, and no insertion meets another route
    that the kernel has kept. -/
def HopsKept (s : MshData) (i : Input) : Prop :=
  ∀ w ∈ writes s i, (∀ b ∈ w.updated, ∀ j ∈ s.info b, j.next_hop = w.sender) ∧
    ∀ b ∈ w.inserted, ∀ k ∈ kernelRoute s.os.routes b, k.gateway = gatewayOf b w.sender

instance (s : MshData) (i : Input) : Decidable (HopsKept s i) :=
  have : ∀ w : Writes, Decidable (∀ b ∈ w.updated, ∀ j ∈ s.info b, j.next_hop = w.sender) :=
    fun _ => List.decidableBAll _ _
  have : ∀ w : Writes, Decidable (∀ b ∈ w.inserted, ∀ k ∈ kernelRoute s.os.routes b,
      k.gateway = gatewayOf b w.sender) := fun _ => List.decidableBAll _ _
  inferInstanceAs (Decidable (∀ w ∈ writes s i, _ ∧ _))

theorem kernelAgrees_iff_info (h : Wf s) :
    KernelAgrees s ↔ ∀ b j, s.info b = some j →
      (kernelRoute s.os.routes b).map (·.gateway) = some (gatewayOf b j.next_hop) := by
  constructor
  · intro hall b j hj
    rw [MshData.info, Option.map_eq_some_iff] at hj
    obtain ⟨r, hr, rfl⟩ := hj
    obtain ⟨hmem, rfl⟩ := mem_of_entry hr
    exact hall r hmem
  · intro hall r hr
    exact hall r.dst_ip r.info (info_of_entry (entry_of_mem h hr))

theorem kernelAgrees_runAlarm (h : Wf s) (hk : KernelWf s.os.routes) (hag : KernelAgrees s)
    (hrun : AlarmRun s t) : KernelAgrees t := by
  rw [kernelAgrees_iff_info h] at hag
  rw [kernelAgrees_iff_info (hrun.wf h)]
  intro b j hj
  rcases hrun.kernel h with ⟨hinfo, hroutes, -⟩ | ⟨a, j₀, q, -, -, hq, hinfo, hroutes, -⟩
  · rw [hroutes]
    exact hag b j (by rw [← hinfo, hj])
  · rw [hinfo] at hj
    split at hj
    · exact absurd hj (by simp)
    · rename_i hb
      rw [hroutes, kernelRoute_del_ne hk.nodup hq hb, hag b j hj]

/-- **A message** keeps the agreement exactly if it keeps the next hops. -/
theorem kernelAgrees_message (h : Wf s) (hag : KernelAgrees s) {i : Input} {w : Writes}
    (hw : writes s i = some w) : KernelAgrees (step s i) ↔ HopsKept s i := by
  have hwrote := wrote_step h hw
  rw [kernelAgrees_iff_info h] at hag
  rw [kernelAgrees_iff_info (h.step i), HopsKept, hw]
  simp only [Option.mem_def, Option.some.injEq, forall_eq']
  constructor
  · intro hall
    refine ⟨fun b hb j hj => ?_, fun b hb k hkb => ?_⟩
    · obtain ⟨j', hj', hnext, -⟩ := hwrote.hop b (.inr hb)
      have hins : b ∉ w.inserted := fun hc => by
        rw [hwrote.new b hc] at hj
        exact absurd hj (by simp)
      have hnew := hall b j' hj'
      rw [hwrote.kernel, if_neg hins, hag b j hj, hnext] at hnew
      exact gatewayOf_inj.1 (Option.some.inj hnew)
    · obtain ⟨j', hj', hnext, -⟩ := hwrote.hop b (.inl hb)
      have hnew := hall b j' hj'
      rw [hwrote.kernel, if_pos hb, hkb, hnext] at hnew
      exact Option.some.inj hnew
  · rintro ⟨hupd, hins⟩ b j hj
    rw [hwrote.kernel]
    by_cases hb : b ∈ w.inserted
    · obtain ⟨j', hj', hnext, -⟩ := hwrote.hop b (.inl hb)
      rw [hj] at hj'
      obtain rfl := Option.some.inj hj'
      rw [if_pos hb, hnext]
      cases hkb : kernelRoute s.os.routes b with
      | none => rfl
      | some k => exact congrArg some (hins b hb k hkb)
    · rw [if_neg hb]
      by_cases hb' : b ∈ w.updated
      · obtain ⟨j', hj', hnext, -⟩ := hwrote.hop b (.inr hb')
        rw [hj] at hj'
        obtain rfl := Option.some.inj hj'
        obtain ⟨j₀, hj₀⟩ := Option.ne_none_iff_exists'.1 ((hwrote.known b hb').resolve_right hb)
        rw [hag b j₀ hj₀, hupd b hb' j₀ hj₀, hnext]
      · exact hag b j (by rw [← hwrote.other b hb hb', hj])

theorem kernelAgrees_step_iff (h : Wf s) (hk : KernelWf s.os.routes) (hag : KernelAgrees s)
    (i : Input) : KernelAgrees (step s i) ↔ HopsKept s i := by
  cases hw : writes s i with
  | some w => exact kernelAgrees_message h hag hw
  | none =>
    refine iff_of_true ?_ (by rw [HopsKept, hw]; simp)
    by_cases hi : i.event = .alarms
    · have hstep : step s i = doAlarmRun (s.arrive i) := by rw [step, hi]; rfl
      rw [hstep]
      refine (doAlarmRun_invariant
        (I := fun t => Wf t ∧ KernelWf t.os.routes ∧ KernelAgrees t) ?_
        ⟨h.arrive i, hk, hag⟩).2.2
      rintro t owner ⟨hwf, hk, hag⟩
      have hrun := runAlarm_cases hwf owner
      exact ⟨hrun.wf hwf, hrun.kernelWf hwf hk, kernelAgrees_runAlarm hwf hk hag hrun⟩
    · obtain ⟨hinfo, hroutes, -⟩ := unwritten_step h hw hi
      rw [kernelAgrees_iff_info (h.step i), hinfo, hroutes]
      exact (kernelAgrees_iff_info h).1 hag

/-- **The kernel forwards where the table says** all along a run if and only if no turn changes
    the next hop of an entry or inserts one over a route left behind. -/
theorem kernelAgrees_iff (ip bcast : InAddr) (iface : U32) (is : List Input) :
    (∀ pre, pre <+: is → KernelAgrees (run step (mshDataInit ip bcast iface) pre)) ↔
      StepsMeet step HopsKept (mshDataInit ip bcast iface) is := by
  refine Machine.forall_prefix_iff (I := fun s => Wf s ∧ KernelWf s.os.routes)
    (fun s i h => ⟨h.1.step i, kernelWf_step h.1 h.2 i⟩)
    (fun s i h hag => kernelAgrees_step_iff h.1 h.2 hag i)
    ⟨Wf.init ip bcast iface, kernelWf_init ip bcast iface⟩ ?_
  intro r hr
  cases hr

/-- Two RREQs of 10.0.0.9 reach node 10.0.0.1, the first over 10.0.0.2, the second over
    10.0.0.3. -/
def changedHop : List Input :=
  [⟨0, [], [], datagramFrom 0x0A000002 1 (aodvPktBuildRreq 1 1 7 0x0A000008 0 0x0A000009 1)⟩,
    ⟨100000, [], [], datagramFrom 0x0A000003 1 (aodvPktBuildRreq 1 1 8 0x0A000008 0 0x0A000009 2)⟩]

/-- **The kernel still sends over the first.** -/
theorem gateway_outdated :
    ¬ ∀ (ip bcast : InAddr) (iface : U32) (is : List Input),
      KernelAgrees (run step (mshDataInit ip bcast iface) is) := by
  intro hall
  exact absurd (hall 0x0A000001 0x0A0000FF 0 changedHop) (by decide +kernel)

/-! ## Deletions -/

/-- **Every deletion so far has found its route, and the kernel has none without an entry.** -/
def NoStaleRoute (s : MshData) : Prop :=
  (∀ d ∈ s.os.dels, d.2 = true) ∧
    ∀ k ∈ s.os.routes, ∃ r ∈ s.routing_table, k.dst = ⟨r.dst_ip, 32⟩

instance (s : MshData) : Decidable (NoStaleRoute s) := by unfold NoStaleRoute; infer_instance

/-- The `rtnl_route` of an entry, its next hop, and the kernel's route agree. -/
structure InStep (s : MshData) : Prop where
  entry : ∀ b j, s.info b = some j →
    j.nlroute.map (·.gateway) = some (gatewayOf b j.next_hop) ∧
      (kernelRoute s.os.routes b).map (·.gateway) = some (gatewayOf b j.next_hop)
  noEntry : ∀ b, s.info b = none → kernelRoute s.os.routes b = none
  dels : ∀ d ∈ s.os.dels, d.2 = true

/-- The condition on one turn: the entry of a destination that a message updates goes over its
    sender already, and the sender is not the destination. -/
def UpdatesInStep (s : MshData) (i : Input) : Prop :=
  ∀ w ∈ writes s i, ∀ b ∈ w.updated, b ≠ w.sender ∧ ∀ j ∈ s.info b, j.next_hop = w.sender

instance (s : MshData) (i : Input) : Decidable (UpdatesInStep s i) :=
  have : ∀ w : Writes, Decidable (∀ b ∈ w.updated, b ≠ w.sender ∧ ∀ j ∈ s.info b,
      j.next_hop = w.sender) := fun _ => List.decidableBAll _ _
  inferInstanceAs (Decidable (∀ w ∈ writes s i, ∀ b ∈ w.updated, _))

theorem InStep.noStaleRoute (hin : InStep s) (hk : KernelWf s.os.routes) :
    NoStaleRoute s := by
  refine ⟨hin.dels, fun k hmem => ?_⟩
  obtain ⟨a, ha⟩ := hk.host k hmem
  have hfound : kernelRoute s.os.routes a = some k :=
    (KeyedList.find_key_some hk.nodup).2 ⟨hmem, ha⟩
  cases hr : s.entry a with
  | none =>
    rw [hin.noEntry a (info_eq_none.2 hr)] at hfound
    exact absurd hfound (by simp)
  | some r =>
    obtain ⟨hrm, hra⟩ := mem_of_entry hr
    exact ⟨r, hrm, by rw [ha, hra]⟩

/-- The deletion of an entry that is in step finds the kernel's route. -/
theorem InStep.runAlarm (hin : InStep s) (h : Wf s) (hk : KernelWf s.os.routes)
    (hrun : AlarmRun s t) : InStep t := by
  rcases hrun.kernel h with ⟨hinfo, hroutes, hdels⟩ | ⟨a, j, q, hj, hq, hqd, hinfo, hroutes, hdels⟩
  · exact ⟨by rw [hinfo, hroutes]; exact hin.entry, by rw [hinfo, hroutes]; exact hin.noEntry,
      by rw [hdels]; exact hin.dels⟩
  · obtain ⟨hnl, hkern⟩ := hin.entry a j hj
    rw [hq, Option.map_some, Option.some.injEq] at hnl
    obtain ⟨k, hka, hkg⟩ := Option.map_eq_some_iff.1 hkern
    constructor
    case entry =>
      intro b jb hjb
      rw [hinfo] at hjb
      split at hjb
      · exact absurd hjb (by simp)
      · rename_i hb
        rw [hroutes, kernelRoute_del_ne hk.nodup hqd hb]
        exact hin.entry b jb hjb
    case noEntry =>
      intro b hb
      by_cases hba : b = a
      · rw [hroutes, kernelRoute_del hk.nodup hqd, hba, hka]
        simp [hkg, hnl]
      · rw [hinfo, if_neg hba] at hb
        rw [hroutes, kernelRoute_del_ne hk.nodup hqd hba, hin.noEntry b hb]
    case dels =>
      have hany : s.os.routes.any (fun k => decide (k.dst = q.dst ∧ k.gateway = q.gateway)) = true := by
        obtain ⟨hmem, hkd⟩ := (KeyedList.find_key_some hk.nodup).1 hka
        exact List.any_eq_true.2 ⟨k, hmem, decide_eq_true ⟨hkd.trans hqd.symm, hkg.trans hnl.symm⟩⟩
      intro d hd
      rw [hdels, rtnlRouteDel] at hd
      dsimp only at hd
      rw [if_pos hany] at hd
      rcases List.mem_append.1 hd with hd | hd
      · exact hin.dels d hd
      · rw [List.mem_singleton.1 hd]

/-- **A message** leaves everything in step exactly if its updates are. -/
theorem inStep_message (h : Wf s) (hin : InStep s) {i : Input} {w : Writes}
    (hw : writes s i = some w) : InStep (step s i) ↔ UpdatesInStep s i := by
  have hwrote := wrote_step h hw
  rw [UpdatesInStep, hw]
  simp only [Option.mem_def, Option.some.injEq, forall_eq']
  constructor
  · intro hin' b hb
    obtain ⟨j', hj', hnext, hnl⟩ := hwrote.hop b (.inr hb)
    obtain ⟨hgw, hkern⟩ := hin'.entry b j' hj'
    rw [hnl, hnext, if_pos hb] at hgw
    refine ⟨?_, fun j hj => ?_⟩
    · have hset : ∀ o : Option RtnlRoute, (setGateway w.sender o).map (·.gateway) =
          some (gatewayOf b w.sender) → b ≠ w.sender := by
        intro o ho
        cases o with
        | none => exact absurd ho (by simp [setGateway])
        | some q => exact (gatewayOf_eq_some.1 (Option.some.inj ho).symm).1
      exact hset _ hgw
    · have hins : b ∉ w.inserted := fun hc => by
        rw [hwrote.new b hc] at hj
        exact absurd hj (by simp)
      rw [hwrote.kernel, if_neg hins, (hin.entry b j hj).2, hnext] at hkern
      exact gatewayOf_inj.1 (Option.some.inj hkern)
  · intro hcond
    constructor
    case dels => rw [hwrote.dels]; exact hin.dels
    case noEntry =>
      intro b hb
      have hno : ∀ l : Prop, (l → ∃ j, (step s i).info b = some j) → ¬ l := fun l hl hc => by
        obtain ⟨j, hj⟩ := hl hc
        rw [hb] at hj
        exact absurd hj (by simp)
      have hins : b ∉ w.inserted := hno _ fun hc => (hwrote.hop b (.inl hc)).imp fun _ hx => hx.1
      have hupd : b ∉ w.updated := hno _ fun hc => (hwrote.hop b (.inr hc)).imp fun _ hx => hx.1
      rw [hwrote.kernel, if_neg hins]
      exact hin.noEntry b (by rw [← hwrote.other b hins hupd, hb])
    case entry =>
      intro b j hj
      by_cases hins : b ∈ w.inserted
      · obtain ⟨j', hj', hnext, hnl⟩ := hwrote.hop b (.inl hins)
        rw [hj] at hj'
        obtain rfl := Option.some.inj hj'
        rw [hwrote.kernel, if_pos hins, hin.noEntry b (hwrote.new b hins), hnl, hnext,
          hwrote.new b hins]
        refine ⟨?_, rfl⟩
        dsimp only
        split
        · rename_i hb
          exact congrArg some (gatewayOf_eq_some.2 ⟨(hcond b hb).1, rfl⟩).symm
        · rfl
      · by_cases hupd : b ∈ w.updated
        · obtain ⟨j', hj', hnext, hnl⟩ := hwrote.hop b (.inr hupd)
          rw [hj] at hj'
          obtain rfl := Option.some.inj hj'
          obtain ⟨j₀, hj₀⟩ := Option.ne_none_iff_exists'.1 ((hwrote.known b hupd).resolve_right hins)
          obtain ⟨hne, hold⟩ := hcond b hupd
          obtain ⟨hg, hkern⟩ := hin.entry b j₀ hj₀
          rw [hwrote.kernel, if_neg hins, hnl, hnext, hj₀, if_pos hupd, hkern, hold j₀ hj₀]
          refine ⟨?_, rfl⟩
          obtain ⟨q, hq, -⟩ := Option.map_eq_some_iff.1 hg
          dsimp only
          rw [hq]
          exact congrArg some (gatewayOf_eq_some.2 ⟨hne, rfl⟩).symm
        · rw [hwrote.kernel, if_neg hins]
          exact hin.entry b j (by rw [← hwrote.other b hins hupd, hj])

theorem inStep_step_iff (h : Wf s) (hk : KernelWf s.os.routes) (hin : InStep s) (i : Input) :
    InStep (step s i) ↔ UpdatesInStep s i := by
  cases hw : writes s i with
  | some w => exact inStep_message h hin hw
  | none =>
    refine iff_of_true ?_ (by rw [UpdatesInStep, hw]; simp)
    by_cases hi : i.event = .alarms
    · have hstep : step s i = doAlarmRun (s.arrive i) := by rw [step, hi]; rfl
      have hin₀ : InStep (s.arrive i) := ⟨hin.entry, hin.noEntry, hin.dels⟩
      rw [hstep]
      refine (doAlarmRun_invariant (I := fun t => Wf t ∧ KernelWf t.os.routes ∧ InStep t) ?_
        ⟨h.arrive i, hk, hin₀⟩).2.2
      rintro t owner ⟨hwf, hk, hin⟩
      have hrun := runAlarm_cases hwf owner
      exact ⟨hrun.wf hwf, hrun.kernelWf hwf hk, hin.runAlarm hwf hk hrun⟩
    · obtain ⟨hinfo, hroutes, hdels⟩ := unwritten_step h hw hi
      exact ⟨by rw [hinfo, hroutes]; exact hin.entry, by rw [hinfo, hroutes]; exact hin.noEntry,
        by rw [hdels]; exact hin.dels⟩

theorem inStep_init (ip bcast : InAddr) (iface : U32) : InStep (mshDataInit ip bcast iface) :=
  ⟨fun _ j (hj : none = some j) => absurd hj.symm (Option.some_ne_none j), fun _ _ => rfl,
    fun d hd => by cases hd⟩

/-- Entries, their `rtnl_route`s and the kernel stay in step exactly if all updates are. -/
theorem inStep_iff (ip bcast : InAddr) (iface : U32) (is : List Input) :
    (∀ pre, pre <+: is → InStep (run step (mshDataInit ip bcast iface) pre)) ↔
      StepsMeet step UpdatesInStep (mshDataInit ip bcast iface) is :=
  Machine.forall_prefix_iff (I := fun s => Wf s ∧ KernelWf s.os.routes)
    (fun _ i h => ⟨h.1.step i, kernelWf_step h.1 h.2 i⟩)
    (fun _ i h hin => inStep_step_iff h.1 h.2 hin i)
    ⟨Wf.init ip bcast iface, kernelWf_init ip bcast iface⟩ (inStep_init ip bcast iface)

/-- **No stale route**: in a run whose messages update entries only over the hop they go over
    already, and never the entry of the sender, every deletion finds its route and the kernel has
    none without an entry. -/
theorem noStaleRoute_of_updates (ip bcast : InAddr) (iface : U32) (is : List Input)
    (hupd : StepsMeet step UpdatesInStep (mshDataInit ip bcast iface) is) (pre : List Input)
    (hpre : pre <+: is) : NoStaleRoute (run step (mshDataInit ip bcast iface) pre) := by
  have hinv := Machine.run_invariant_always (I := fun s => Wf s ∧ KernelWf s.os.routes)
    (fun s i h => ⟨h.1.step i, kernelWf_step h.1 h.2 i⟩)
    ⟨Wf.init ip bcast iface, kernelWf_init ip bcast iface⟩ pre
  exact ((inStep_iff ip bcast iface is).2 hupd pre hpre).noStaleRoute hinv.2

/-- RREQs of 10.0.0.9 that reach node 10.0.0.1 over 10.0.0.2, and then nothing until both entries
    are destroyed. -/
def steadyHop : List Input :=
  [⟨0, [], [], datagramFrom 0x0A000002 1 (aodvPktBuildRreq 1 1 7 0x0A000008 0 0x0A000009 1)⟩,
    ⟨100000, [], [], datagramFrom 0x0A000002 1 (aodvPktBuildRreq 1 1 8 0x0A000008 0 0x0A000009 2)⟩,
    ⟨20000000, [], [], .alarms⟩, ⟨40000000, [], [], .alarms⟩]

theorem noStaleRoute_steadyHop :
    NoStaleRoute (run step (mshDataInit 0x0A000001 0x0A0000FF 0) steadyHop) :=
  noStaleRoute_of_updates 0x0A000001 0x0A0000FF 0 steadyHop (by decide +kernel) steadyHop
    (List.prefix_refl _)

/-- A RREQ of the neighbour 10.0.0.9 itself, and then nothing until its entry is destroyed. -/
def neighbourRreq : List Input :=
  [⟨0, [], [], datagramFrom 0x0A000009 1 (aodvPktBuildRreq 1 0 7 0x0A000008 0 0x0A000009 1)⟩,
    ⟨20000000, [], [], .alarms⟩, ⟨40000000, [], [], .alarms⟩]

/-- **The deletion names a gateway that the route does not have**, and the route stays. -/
theorem deletion_fails :
    ¬ ∀ (ip bcast : InAddr) (iface : U32) (is : List Input),
      NoStaleRoute (run step (mshDataInit ip bcast iface) is) := by
  intro hall
  exact absurd (hall 0x0A000001 0x0A0000FF 0 neighbourRreq) (by decide +kernel)

end Meshias
