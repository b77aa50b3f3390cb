import Mathlib.Data.List.Sort
import Meshias.Logic

/-!
# Captured packets, alarms and the main loop

* `managePacket` — `nfqueue.c`: the three hooks, on the bytes of the captured packet.
* `doAlarmRun` — `alarm.c`: the expired alarms are collected in tree order, each in front of the
  list, and then run from the front: the latest first.
* `step` — one turn of the main loop of `meshias.c`: a datagram on the AODV socket, a packet from
  the netfilter queue, a run of the expired alarms, or the `CLEAN_STATISTICS` command.
-/

set_option autoImplicit false

namespace Meshias

/-! ## Captured packets -/

def NF_IP_LOCAL_IN : U32 := 1
def NF_IP_FORWARD : U32 := 2
def NF_IP_LOCAL_OUT : U32 := 3

/-- `IPPROTO_UDP`. -/
def IPPROTO_UDP : U8 := 17

/-- `struct nfq_data`: the packet header, if the message has one, and the payload. -/
structure NfqData where
  packet_hdr : Option (U32 × U8)
  payload : List U8
  deriving DecidableEq, Repr

def nfqueuePacketGetId (packet : NfqData) : U32 :=
  match packet.packet_hdr with
  | some hdr => hdr.1
  | none => -1

def nfqueuePacketGetHook (packet : NfqData) : U32 :=
  match packet.packet_hdr with
  | some hdr => hdr.2.setWidth 32
  | none => -1

/-- `nfq_get_ip_daddr`. -/
def nfqueuePacketGetDest (packet : NfqData) : InAddr := ntohl packet.payload 16

/-- `nfq_get_ip_saddr`. -/
def nfqueuePacketGetOrig (packet : NfqData) : InAddr := ntohl packet.payload 12

/-- The UDP header is taken to start after 20 bytes, whatever the header length says. -/
def nfqueuePacketIsAodv (packet : NfqData) : Bool :=
  if packet.payload.getD 9 0 ≠ IPPROTO_UDP then false
  else (packet.payload.getD 22 0 ++ packet.payload.getD 23 0 : U16) = AODV_UDP_PORT

def manageOutputPacket (s : MshData) (nfa : NfqData) : MshData :=
  let dest := nfqueuePacketGetDest nfa
  let id := nfqueuePacketGetId nfa
  if dest = s.broadcast_addr then nfqSetVerdict s id .NF_ACCEPT else
  let (s, found) := routingTableUpdateRoute s dest 0
  if found then nfqSetVerdict s id .NF_ACCEPT else
  let s := packetsFifoPush s id dest
  if ¬ rreqFifoWaitingResponseFor s.rreq_queue dest then aodvFindRoute s dest none 0 else s

def manageInputPacket (s : MshData) (nfa : NfqData) : MshData :=
  let dest := nfqueuePacketGetDest nfa
  let id := nfqueuePacketGetId nfa
  if dest = s.broadcast_addr then nfqSetVerdict s id .NF_ACCEPT else
  let (s, found) := routingTableUpdateRoute s dest (nfqueuePacketGetOrig nfa)
  if found then nfqSetVerdict s id .NF_ACCEPT else s

def manageForwardPacket (s : MshData) (nfa : NfqData) : MshData :=
  let dest := nfqueuePacketGetDest nfa
  let id := nfqueuePacketGetId nfa
  if dest = s.broadcast_addr then nfqSetVerdict s id .NF_ACCEPT else
  let s := (routingTableUpdateRoute s dest (nfqueuePacketGetOrig nfa)).1
  nfqSetVerdict s id .NF_ACCEPT

def managePacket (s : MshData) (nfa : NfqData) : MshData :=
  let hook := nfqueuePacketGetHook nfa
  let id := nfqueuePacketGetId nfa
  if nfqueuePacketIsAodv nfa then nfqSetVerdict s id .NF_ACCEPT
  else if hook = NF_IP_LOCAL_IN then manageInputPacket s nfa
  else if hook = NF_IP_FORWARD then manageForwardPacket s nfa
  else if hook = NF_IP_LOCAL_OUT then manageOutputPacket s nfa
  else nfqSetVerdict s id .NF_ACCEPT

/-! ## Alarms -/

/-- The object an alarm block is part of. -/
inductive AlarmOwner where
  | route (self : Nat)
  | rreq (self : Nat)
  deriving DecidableEq, Repr

structure PendingAlarm where
  tv : Nat
  rank : Nat
  owner : AlarmOwner
  deriving DecidableEq, Repr

def pendingAlarm (a : AlarmBlock) (owner : AlarmOwner) : Option PendingAlarm :=
  a.node.map (fun rank => ⟨a.tv, rank, owner⟩)

/-- The nodes of the alarm tree. -/
def alarmTree (s : MshData) : List PendingAlarm :=
  (s.routing_table ++ s.lost_routes).filterMap (fun r => pendingAlarm r.alarm (.route r.self)) ++
    s.rreq_queue.filterMap (fun e => pendingAlarm e.alarm (.rreq e.self))

/-- `alarm_run_queue`: what has expired, from the back of the tree to its front. -/
def alarmRunQueue (s : MshData) : List PendingAlarm :=
  ((alarmTree s).filter (fun a => a.tv ≤ s.os.now)).insertionSort
    (fun a b => b.tv < a.tv ∨ b.tv = a.tv ∧ b.rank ≤ a.rank)

/-- `__msh_route_alarm_cb`. -/
def mshRouteAlarmCb (s : MshData) (route : MshRoute) : MshData :=
  if route.alarm_action = RTACTION_UNSET_VALID_ENTRY then
    { s.modifyRoute route.self (mshRouteExpire s.os.now s.alarms) with alarms := s.alarms + 1 }
  else if route.alarm_action = RTACTION_DESTROY then mshRouteDestroy s route
  else s

/-- One turn of the second loop of `do_alarm_run`: the node is cleared and the callback runs. -/
def runAlarm (s : MshData) : AlarmOwner → MshData
  | .route p =>
    match (s.routing_table ++ s.lost_routes).find? (fun r => r.self = p) with
    | none => s
    | some route =>
      mshRouteAlarmCb
        (s.modifyRoute p (fun r => { r with alarm := { r.alarm with node := none } })) route
  | .rreq p =>
    match s.rreq_queue.find? (fun e => e.self = p) with
    | none => s
    | some entry =>
      rreqFifoAlarmCb
        (s.modifyRreq p (fun e => { e with alarm := { e.alarm with node := none } })) entry

def doAlarmRun (s : MshData) : MshData :=
  (alarmRunQueue s).foldl (fun s a => runAlarm s a.owner) s

/-! ## The main loop -/

inductive Event where
  | datagram (msg : Msghdr)
  | packet (nfa : NfqData)
  | alarms
  | cleanStatistics
  deriving DecidableEq, Repr

/-- An event, with the clock, the kernel's answers to the insertions it causes, and what it reads
    from objects that have been freed. -/
structure Input where
  now : Nat
  refusals : List Bool
  freed : List (Nat × InAddr)
  event : Event
  deriving DecidableEq, Repr

def dispatch (s : MshData) : Event → MshData
  | .datagram msg => aodvProcessPacket s msg
  | .packet nfa => managePacket s nfa
  | .alarms => doAlarmRun s
  | .cleanStatistics => { s with stats := {} }

/-- The state with the clock, the kernel's answers and the freed memory of an input. -/
@[simps]
def MshData.arrive (s : MshData) (i : Input) : MshData :=
  { s with os := { s.os with now := i.now, refusals := i.refusals, freed := i.freed } }

def step (s : MshData) (i : Input) : MshData := dispatch (s.arrive i) i.event

/-! ## Inputs of a run -/

/-- A message on the AODV socket, with the TTL in its control block. -/
def datagramFrom (source : InAddr) (ttl : U8) (payload : List U8) : Event :=
  .datagram ⟨some source, payload, [⟨SOL_IP, IP_TTL, ttl⟩]⟩

/-- An IPv4 header with the given protocol, source and destination, captured at a hook. -/
def capturedPacket (id : U32) (hook protocol : U8) (source dest : InAddr) : NfqData where
  packet_hdr := some (id, hook)
  payload := [0x45, 0, 0, 28, 0, 0, 0, 0, 64, protocol, 0, 0] ++ htonl source ++ htonl dest ++
    List.replicate 8 0

/-- The clock does not go back. -/
def ClockMonotone (is : List Input) : Prop := (is.map (·.now)).Pairwise (· ≤ ·)

instance (is : List Input) : Decidable (ClockMonotone is) := by
  unfold ClockMonotone; infer_instance

end Meshias
