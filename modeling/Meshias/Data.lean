import Meshias.Route

/-!
# The daemon's state

`struct msh_data_t data` with the three containers it points to, and `Os`, the part of the
operating system the daemon talks to: the clock, the kernel's routing table, and what has been
handed to `nfq_set_verdict` and `sendto` so far.

* A list of the source (`list_add` puts in front) is a list, head first.
* `lost_routes` — route objects that `routing_table_add` did not insert: in no list, but alive and
  possibly with a pending alarm.
* `objects`, `alarms` — how many objects `calloc` has handed out and how often `__add_alarm` ran;
  they supply fresh addresses and tree ranks.
* `seq_incs` — ghost: how often `data.seq_num++` was executed.

A route in a handler is a pointer; `modifyRoute` writes through it, wherever the object is.
-/

set_option autoImplicit false

namespace Meshias

/-! ## The kernel -/

inductive Verdict where
  | NF_DROP
  | NF_ACCEPT
  deriving DecidableEq, Repr

/-- The operating system.  `refusals` are its answers to the next `rtnl_route_add` requests
    (`true` refuses); `freed` is what a read of an object that has been freed gives, by the address
    of the object; `dels` logs the `rtnl_route_del` requests and whether they succeeded. -/
structure Os where
  now : Nat := 0
  refusals : List Bool := []
  freed : List (Nat × InAddr) := []
  routes : List RtnlRoute := []
  dels : List (RtnlRoute × Bool) := []
  verdicts : List (U32 × Verdict) := []
  sent : List AodvPkt := []
  deriving DecidableEq, Repr

/-- `-EEXIST`. -/
def EEXIST : Int := -17

/-- `rtnl_route_add`: at most one route per destination, and the kernel may refuse. -/
def rtnlRouteAdd (os : Os) (route : RtnlRoute) : Os × Int :=
  let refused := os.refusals.headD false
  let os := { os with refusals := os.refusals.tail }
  if refused then (os, -1)
  else if os.routes.any (fun k => k.dst = route.dst) then (os, EEXIST)
  else ({ os with routes := route :: os.routes }, 0)

/-- `rtnl_route_del`: destination and gateway of the request have to be those of the route. -/
def rtnlRouteDel (os : Os) (route : RtnlRoute) : Os × Int :=
  let hit := fun k : RtnlRoute => decide (k.dst = route.dst ∧ k.gateway = route.gateway)
  if os.routes.any hit then
    ({ os with routes := os.routes.filter (fun k => !hit k), dels := os.dels ++ [(route, true)] },
      0)
  else ({ os with dels := os.dels ++ [(route, false)] }, -1)

/-- `entry->dst`, read after `free(entry)`: anything. -/
def Os.freedDst (os : Os) (entry : Nat) : InAddr := (os.freed.lookup entry).getD 0

/-- `IPDEFTTL`. -/
def IPDEFTTL : U8 := 64

/-- The `IP_TTL` option of the socket, with which the last datagram has left. -/
def Os.ipTtl (os : Os) : U8 := (os.sent.getLast?.map (·.ttl)).getD IPDEFTTL

/-- The option after `setsockopt`, which fails for 0. -/
def Os.setIpTtl (os : Os) (ttl : U8) : U8 := if ttl = 0 then os.ipTtl else ttl

theorem setIpTtl_of_ne_zero (os : Os) {ttl : U8} (h : ttl ≠ 0) : os.setIpTtl ttl = ttl := if_neg h

theorem setIpTtl_congr {os os' : Os} (h : os'.sent = os.sent) (ttl : U8) :
    os'.setIpTtl ttl = os.setIpTtl ttl := by
  rw [Os.setIpTtl, Os.setIpTtl, Os.ipTtl, Os.ipTtl, h]

theorem ipTtl_ne_zero {os : Os} (h : ∀ p ∈ os.sent, p.ttl ≠ 0) : os.ipTtl ≠ 0 := by
  rw [Os.ipTtl]
  cases hlast : os.sent.getLast? with
  | none => decide
  | some p => exact h p (List.mem_of_getLast? hlast)

theorem setIpTtl_ne_zero {os : Os} (h : ∀ p ∈ os.sent, p.ttl ≠ 0) (ttl : U8) :
    os.setIpTtl ttl ≠ 0 := by
  rw [Os.setIpTtl]
  split
  · exact ipTtl_ne_zero h
  · assumption

/-! ## Queues -/

/-- `struct rreq_fifo`; `prev_tries < 0` marks a request sent by another node. -/
structure RreqFifo where
  self : Nat
  rreq_id : U32
  dst : InAddr
  prev_tries : Int
  alarm : AlarmBlock
  deriving DecidableEq, Repr

/-- `struct packets_fifo`. -/
structure PacketsFifo where
  id : U32
  dest : InAddr
  deriving DecidableEq, Repr

/-! ## The global data -/

structure MshData where
  ip_addr : InAddr
  broadcast_addr : InAddr
  net_iface : U32
  seq_num : U32 := 0
  rreq_id : U32 := 0
  num_rreq_sent : U32 := 0
  routing_table : List MshRoute := []
  rreq_queue : List RreqFifo := []
  packets_queue : List PacketsFifo := []
  stats : Statistics := {}
  lost_routes : List MshRoute := []
  objects : Nat := 0
  alarms : Nat := 0
  seq_incs : Nat := 0
  os : Os := {}
  deriving DecidableEq, Repr

/-- The state after `msh_data_init`. -/
def mshDataInit (ip_addr broadcast_addr : InAddr) (net_iface : U32) : MshData :=
  { ip_addr, broadcast_addr, net_iface }

/-- `data.seq_num++`. -/
@[simps]
def MshData.incSeqNum (s : MshData) : MshData :=
  { s with seq_num := s.seq_num + 1, seq_incs := s.seq_incs + 1 }

@[simps]
def nfqSetVerdict (s : MshData) (id : U32) (verdict : Verdict) : MshData :=
  { s with os := { s.os with verdicts := s.os.verdicts ++ [(id, verdict)] } }

/-- The result of `setsockopt` is not looked at. -/
@[simps]
def aodvPktSend (s : MshData) (pkt : AodvPkt) : MshData :=
  { s with os := { s.os with sent := s.os.sent ++ [{ pkt with ttl := s.os.setIpTtl pkt.ttl }] } }

theorem sent_aodvPktSend (s : MshData) {pkt : AodvPkt} (h : pkt.ttl ≠ 0) :
    (aodvPktSend s pkt).os.sent = s.os.sent ++ [pkt] := by
  rw [aodvPktSend_os_sent, setIpTtl_of_ne_zero _ h]

/-! ## Route objects -/

/-- `msh_route_alloc`. -/
def mshRouteAlloc (s : MshData) : MshData × MshRoute :=
  ({ s with objects := s.objects + 1 }, { self := s.objects })

/-- Writing through the pointer `p`. -/
@[simps]
def MshData.modifyRoute (s : MshData) (p : Nat) (f : MshRoute → MshRoute) : MshData :=
  let upd := fun r : MshRoute => if r.self = p then f r else r
  { s with routing_table := s.routing_table.map upd, lost_routes := s.lost_routes.map upd }

/-- `msh_route_set_lifetime` on the object at `p`. -/
@[simps]
def MshData.routeSetLifetime (s : MshData) (p : Nat) (lifetime : U32) : MshData :=
  { s.modifyRoute p (fun r => mshRouteSetLifetime s.os.now s.alarms r lifetime) with
    alarms := s.alarms + 1 }

end Meshias
