import Meshias.RoutingTable

/-!
# The AODV logic

`aodv/logic.c`, and the alarm callback of `rreq_fifo.c`, which calls back into it.

* `aodvFindRoute` — a route request is originated.
* `aodvProcessRreq`, `aodvProcessRrep`, `aodvAnswerToRreq` — the two message handlers.  Their
  blocks are functions of their own: `aodvUpdatePrevHop`, `aodvUpdateOrig`, `aodvForwardRreq`,
  `aodvFindDest`, `aodvUpdateDest`, `aodvForwardRrep`.
* `aodvProcessPacket` — the dispatch on a received datagram.
* `rreqFifoAlarmCb` — retry or give up.

A `struct msh_route *` is the address of the object (`Nat`).
-/

set_option autoImplicit false

namespace Meshias

/-! ## Originating a request -/

def aodvFindRoute (s : MshData) (dest : InAddr) (invalid_route : Option MshRoute)
    (prev_tries : Int) : MshData :=
  let s := s.incSeqNum
  let s := { s with rreq_id := s.rreq_id + 1 }
  let s := if prev_tries = 0 then rreqFifoPushOwned s s.rreq_id dest prev_tries else s
  let hop_count := match invalid_route with
    | some route => route.hop_count
    | none => 0
  let dest_seq_num := match invalid_route with
    | some route => route.dest_seq_num
    | none => 0
  let flags := RREQ_GRATUITOUS_RREP_FLAG |||
    (if invalid_route.isNone then RREQ_UNKNOWN_SEQ_NUM_FLAG else 0)
  let ttl := (expandingRingSearchTtl hop_count prev_tries).setWidth 8
  let payload := aodvPktBuildRreq (flags.setWidth 8) hop_count s.rreq_id dest dest_seq_num
    s.ip_addr s.seq_num
  let s := { s with num_rreq_sent := s.num_rreq_sent + 1 }
  aodvPktSend s ⟨payload, s.broadcast_addr, ttl⟩

/-! ## The previous hop -/

/-- The first block of both handlers.  `init` is what a handler does besides to a new route. -/
def aodvUpdatePrevHop (s : MshData) (prev_hop : InAddr) (init : MshRoute → MshRoute) :
    MshData × Nat :=
  match routingTableFindByIp s.routing_table prev_hop with
  | some route_to_prev_hop =>
    (s.routeSetLifetime route_to_prev_hop.self ACTIVE_ROUTE_TIMEOUT, route_to_prev_hop.self)
  | none =>
    let (s, route) := mshRouteAlloc s
    let route := mshRouteSetDstIp route prev_hop
    let route := init (mshRouteSetNextHop route prev_hop)
    ((routingTableAdd s route).1, route.self)

def aodvRreqPrevHop (s : MshData) (prev_hop : InAddr) : MshData × Nat :=
  aodvUpdatePrevHop s prev_hop id

def aodvRrepPrevHop (s : MshData) (prev_hop : InAddr) : MshData × Nat :=
  aodvUpdatePrevHop s prev_hop (fun r => mshRouteUnsetFlag r RTFLAG_VALID_DEST_SEQ_NUM)

/-! ## Route requests -/

/-- What `aodv_process_rreq` writes into an existing route to the originator. -/
def rreqUpdate (prev_hop : InAddr) (hop_count : U8) (seq_num_new : U32) (route : MshRoute) :
    MshRoute :=
  let seq_num_old := route.dest_seq_num
  let route := mshRouteSetFlag route RTFLAG_VALID_DEST_SEQ_NUM
  let route := mshRouteSetNextHop route prev_hop
  let route := mshRouteSetHopCount route hop_count
  if seq_num_old.slt seq_num_new then mshRouteSetDestSeqNum route seq_num_new else route

/-- What it puts into a new one, before the lifetime. -/
def rreqCreate (prev_hop : InAddr) (hop_count : U8) (addr_orig : InAddr) (seq_num_new : U32)
    (route : MshRoute) : MshRoute :=
  let route := mshRouteSetDstIp route addr_orig
  let route := mshRouteSetDestSeqNum route seq_num_new
  let route := mshRouteSetNextHop route prev_hop
  mshRouteSetHopCount route hop_count

/-- The reverse route.  `hop_count` is the received one. -/
def aodvUpdateOrig (s : MshData) (prev_hop : InAddr) (hop_count : U8) (addr_orig : InAddr)
    (seq_num_new : U32) : MshData × Nat :=
  let min_lifetime := minimalLifetime s.os.now hop_count
  match routingTableFindByIp s.routing_table addr_orig with
  | some route_to_orig =>
    let lifetime_old := mshRouteGetLifetime s.os.now route_to_orig
    let s := s.modifyRoute route_to_orig.self (rreqUpdate prev_hop hop_count seq_num_new)
    if min_lifetime > lifetime_old then
      (s.routeSetLifetime route_to_orig.self min_lifetime, route_to_orig.self)
    else (s, route_to_orig.self)
  | none =>
    let (s, route) := mshRouteAlloc s
    let route := rreqCreate prev_hop hop_count addr_orig seq_num_new route
    let route := mshRouteSetLifetime s.os.now s.alarms route min_lifetime
    let route := mshRouteSetFlag route RTFLAG_VALID_DEST_SEQ_NUM
    ((routingTableAdd { s with alarms := s.alarms + 1 } route).1, route.self)

/-- `aodv_answer_to_rreq`.  The replies an intermediate node builds are destroyed unsent. -/
def aodvAnswerToRreq (s : MshData) (rreq : AodvRreq) (prev_hop : InAddr) (route_to_orig : Nat) :
    MshData × Bool :=
  if rreq.dest_ip_addr = s.ip_addr then
    let s := if rreq.dest_seq_num = s.seq_num then s.incSeqNum else s
    let payload := aodvPktBuildRrep 0 0 0 s.ip_addr s.seq_num rreq.orig_ip_addr MY_ROUTE_TIMEOUT
    (aodvPktSend s ⟨payload, prev_hop, DEFAULT_TTL⟩, true)
  else
    match routingTableFindByIp s.routing_table rreq.dest_ip_addr with
    | none => (s, false)
    | some route_to_dest =>
      if s.seq_num.sle rreq.dest_seq_num ∧ rreq.flags &&& RREQ_DEST_ONLY_FLAG = 0 then
        let s := s.modifyRoute route_to_dest.self (mshRouteAddPrecursor · prev_hop)
        (s.modifyRoute route_to_orig (mshRouteAddPrecursor · route_to_dest.next_hop), true)
      else (s, false)

/-- The rebroadcast.  The sequence number is only ever replaced by itself. -/
def aodvForwardRreq (s : MshData) (pkt : AodvPkt) (rreq : AodvRreq) : MshData :=
  let rreq :=
    match routingTableFindByIp s.routing_table rreq.dest_ip_addr with
    | some route_to_dest =>
      if ¬ route_to_dest.hasFlag RTFLAG_VALID_ENTRY ∧
          route_to_dest.hasFlag RTFLAG_VALID_DEST_SEQ_NUM then
        let dest_seq_num_old := route_to_dest.dest_seq_num
        let dest_seq_num_new := rreq.dest_seq_num
        if dest_seq_num_old < dest_seq_num_new then
          { rreq with dest_seq_num := dest_seq_num_new }
        else rreq
      else rreq
    | none => rreq
  let s := { s with num_rreq_sent := s.num_rreq_sent + 1 }
  aodvPktSend s ⟨aodvPktPrepareRreq rreq, s.broadcast_addr, pkt.ttl - 1⟩

def aodvProcessRreq (s : MshData) (pkt : AodvPkt) : MshData :=
  let prev_hop := pkt.address
  let s := (aodvRreqPrevHop s prev_hop).1
  let rreq := rreqOfPayload pkt.payload
  if rreqFifoContains s.rreq_queue rreq.rreq_id rreq.dest_ip_addr then s else
  let s := rreqFifoPush s rreq.rreq_id rreq.dest_ip_addr
  let hop_count := rreq.hop_count
  let rreq := { rreq with hop_count := hop_count + 1 }
  let (s, route_to_orig) := aodvUpdateOrig s prev_hop hop_count rreq.orig_ip_addr rreq.orig_seq_num
  let (s, answered) := aodvAnswerToRreq s rreq prev_hop route_to_orig
  if ¬ answered ∧ pkt.ttl > 1 then aodvForwardRreq s pkt rreq else s

/-! ## Route replies -/

/-- The test under which a RREP creates or updates the route to its destination; the hop count
    is already incremented. -/
def rrepUpdates (created : Bool) (route_to_dest : MshRoute) (rrep : AodvRrep) : Bool :=
  created || !route_to_dest.hasFlag RTFLAG_VALID_DEST_SEQ_NUM ||
    route_to_dest.dest_seq_num.slt rrep.dest_seq_num ||
    (rrep.dest_seq_num == route_to_dest.dest_seq_num &&
      !route_to_dest.hasFlag RTFLAG_VALID_ENTRY) ||
    rrep.hop_count == route_to_dest.hop_count

/-- The route to the destination, created if there is none. -/
def aodvFindDest (s : MshData) (prev_hop : InAddr) (rrep : AodvRrep) :
    MshData × MshRoute × Bool :=
  match routingTableFindByIp s.routing_table rrep.dest_ip_addr with
  | some route_to_dest => (s, route_to_dest, false)
  | none =>
    let (s, route) := mshRouteAlloc s
    let route := mshRouteSetDstIp route rrep.dest_ip_addr
    let route := mshRouteSetNextHop route prev_hop
    let route := mshRouteSetDestSeqNum route rrep.dest_seq_num
    let route := mshRouteSetFlag route RTFLAG_VALID_DEST_SEQ_NUM
    ((routingTableAdd s route).1, route, true)

/-- What `aodv_process_rrep` writes into the route to the destination. -/
def rrepUpdate (prev_hop : InAddr) (rrep : AodvRrep) (route : MshRoute) : MshRoute :=
  let route := mshRouteSetDestSeqNum route rrep.dest_seq_num
  let route := mshRouteSetFlag route RTFLAG_VALID_DEST_SEQ_NUM
  let route := mshRouteSetNextHop route prev_hop
  mshRouteSetHopCount route rrep.hop_count

def aodvUpdateDest (s : MshData) (prev_hop : InAddr) (rrep : AodvRrep) (route_to_dest : Nat) :
    MshData :=
  let s := s.modifyRoute route_to_dest (rrepUpdate prev_hop rrep)
  let lifetime := getAlarmTime (tvSec s.os.now) (tvUsec s.os.now) + rrep.lifetime
  s.routeSetLifetime route_to_dest lifetime

/-- The RREP goes on towards the originator. -/
def aodvForwardRrep (s : MshData) (pkt : AodvPkt) (rrep : AodvRrep)
    (route_to_prev_hop route_to_dest : Nat) : MshData :=
  match routingTableFindByIp s.routing_table rrep.orig_ip_addr with
  | none => s
  | some route_to_orig =>
    let next_hop := route_to_orig.next_hop
    let s := aodvPktSend s ⟨aodvPktPrepareRrep rrep, next_hop, pkt.ttl - 1⟩
    let s := if rrep.dest_ip_addr ≠ next_hop then
        s.modifyRoute route_to_dest (mshRouteAddPrecursor · next_hop)
      else s
    let s := match routingTableFindByIp s.routing_table next_hop with
      | some route_to_next_hop =>
        let lifetime := mshRouteGetLifetime s.os.now route_to_next_hop
        let timeout := getAlarmTime (tvSec s.os.now) (tvUsec s.os.now) + ACTIVE_ROUTE_TIMEOUT
        if lifetime < timeout then s.routeSetLifetime route_to_next_hop.self lifetime else s
      | none => s
    s.modifyRoute route_to_prev_hop (mshRouteAddPrecursor · next_hop)

def aodvProcessRrep (s : MshData) (pkt : AodvPkt) : MshData :=
  let rrep := rrepOfPayload pkt.payload
  let prev_hop := pkt.address
  let (s, route_to_prev_hop) := aodvRrepPrevHop s prev_hop
  let rrep := { rrep with hop_count := rrep.hop_count + 1 }
  let (s, route_to_dest, route_to_dest_created) := aodvFindDest s prev_hop rrep
  if rrepUpdates route_to_dest_created route_to_dest rrep then
    let s := aodvUpdateDest s prev_hop rrep route_to_dest.self
    if s.ip_addr = rrep.orig_ip_addr then rreqFifoDel s s.rreq_id rrep.dest_ip_addr
    else aodvForwardRrep s pkt rrep route_to_prev_hop route_to_dest.self
  else s

/-! ## Received datagrams -/

/-- `aodv_process_packet`.  `aodv_process_rerr` and `aodv_process_rrep_ack` are empty. -/
def aodvProcessPacket (s : MshData) (msg : Msghdr) : MshData :=
  let (stats, pkt) := aodvPktGet s.stats msg
  let (stats, ok) := aodvPktCheck stats pkt
  let s := { s with stats }
  if ¬ ok then s
  else if pkt.address = s.ip_addr then s
  else if aodvPktGetType pkt = AODV_RREQ then aodvProcessRreq s pkt
  else if aodvPktGetType pkt = AODV_RREP then aodvProcessRrep s pkt
  else if aodvPktGetType pkt = AODV_RERR then s
  else if aodvPktGetType pkt = AODV_RREP_ACK then s
  else { s with stats := { s.stats with aodv_incorrect_type := s.stats.aodv_incorrect_type + 1 } }

/-! ## Retries -/

@[simps]
def MshData.modifyRreq (s : MshData) (p : Nat) (f : RreqFifo → RreqFifo) : MshData :=
  { s with rreq_queue := s.rreq_queue.map (fun e => if e.self = p then f e else e) }

/-- The last timeout: the entry is freed, and then its destination is read for the packets to drop. -/
def rreqFifoGiveUp (s : MshData) (entry : RreqFifo) : MshData :=
  let s := rreqFifoEntryDelete s entry.self
  let s := packetsFifoDropPackets s (s.os.freedDst entry.self)
  { s with stats := { s.stats with packets_dropped := s.stats.packets_dropped + 1 } }

/-- One more try; `prev_tries` is already incremented. -/
def rreqFifoRetry (s : MshData) (entry : RreqFifo) (prev_tries : Int) : MshData :=
  let s := s.modifyRreq entry.self ({ · with prev_tries })
  let s := (routingTableUpdateRoute s entry.dst 0).1
  let t := setAlarmTime (binaryExponentialBackoffTime prev_tries)
  let s := { s.modifyRreq entry.self ({ · with alarm := addAlarm s.os.now s.alarms t.1 t.2 }) with
    alarms := s.alarms + 1 }
  let s := aodvFindRoute s entry.dst none prev_tries
  s.modifyRreq entry.self ({ · with rreq_id := s.rreq_id })

/-- `__rreq_fifo_alarm_cb`. -/
def rreqFifoAlarmCb (s : MshData) (entry : RreqFifo) : MshData :=
  if entry.prev_tries < 0 then rreqFifoEntryDelete s entry.self
  else if entry.prev_tries + 1 > RREQ_RETRIES.toNat then rreqFifoGiveUp s entry
  else rreqFifoRetry s entry (entry.prev_tries + 1)

end Meshias
