import Meshias.Data

/-!
# The packet and RREQ queues

`packets_fifo.c` and the queue operations of `rreq_fifo.c` (its alarm callback is in
`Meshias.Logic`).

The accept and drop loops delete while they iterate (`list_for_each_entry_safe`): the entries that
match get their verdict in list order and leave the queue, the others keep their order.
-/

set_option autoImplicit false

namespace Meshias

/-! ## Packets waiting for a route -/

@[simps]
def packetsFifoPush (s : MshData) (id : U32) (dest : InAddr) : MshData :=
  { s with packets_queue := ⟨id, dest⟩ :: s.packets_queue }

/-- `packet_obj_accept` on every entry that satisfies `p`. -/
@[simps]
def packetObjAcceptWhere (s : MshData) (p : PacketsFifo → Bool) : MshData :=
  { s with
    packets_queue := s.packets_queue.filter (fun e => !p e)
    os := { s.os with
      verdicts := s.os.verdicts ++ (s.packets_queue.filter p).map (fun e => (e.id, .NF_ACCEPT)) } }

/-- `packet_obj_drop` on every entry that satisfies `p`. -/
@[simps]
def packetObjDropWhere (s : MshData) (p : PacketsFifo → Bool) : MshData :=
  { s with
    packets_queue := s.packets_queue.filter (fun e => !p e)
    os := { s.os with
      verdicts := s.os.verdicts ++ (s.packets_queue.filter p).map (fun e => (e.id, .NF_DROP)) }
    stats := { s.stats with
      packets_dropped :=
        s.stats.packets_dropped + BitVec.ofNat 32 (s.packets_queue.filter p).length } }

def packetsFifoDropPackets (s : MshData) (dest : InAddr) : MshData :=
  packetObjDropWhere s (fun e => e.dest = dest)

/-- The scratch route `first` carries only the packet's destination. -/
def packetsFifoProcessRoute (s : MshData) (route : MshRoute) : MshData :=
  packetObjAcceptWhere s (fun e =>
    !mshRouteCompare { self := 0, dst_ip := e.dest } route RTFIND_BY_DEST_LONGEST_PREFIX_MATCHING)

/-! ## Route requests seen and sent -/

/-- `__rreq_fifo_entry_delete` on the entry at `p`. -/
@[simps]
def rreqFifoEntryDelete (s : MshData) (p : Nat) : MshData :=
  { s with rreq_queue := s.rreq_queue.filter (fun e => e.self ≠ p) }

/-- The common part of `rreq_fifo_push` and `rreq_fifo_push_owned`. -/
@[simps]
def rreqFifoInsert (s : MshData) (rreq_id : U32) (dst : InAddr) (prev_tries : Int)
    (miliseconds : U32) : MshData :=
  let t := setAlarmTime miliseconds
  { s with
    rreq_queue :=
      ⟨s.objects, rreq_id, dst, prev_tries, addAlarm s.os.now s.alarms t.1 t.2⟩ :: s.rreq_queue
    objects := s.objects + 1
    alarms := s.alarms + 1 }

def rreqFifoPush (s : MshData) (rreq_id : U32) (dst : InAddr) : MshData :=
  rreqFifoInsert s rreq_id dst (-1) PATH_DISCOVERY_TIME

def rreqFifoPushOwned (s : MshData) (rreq_id : U32) (dst : InAddr) (prev_tries : Int) : MshData :=
  rreqFifoInsert s rreq_id dst prev_tries (binaryExponentialBackoffTime prev_tries)

def rreqFifoContains (queue : List RreqFifo) (rreq_id : U32) (dst : InAddr) : Bool :=
  queue.any (fun entry => entry.rreq_id = rreq_id ∧ entry.dst = dst)

def rreqFifoWaitingResponseFor (queue : List RreqFifo) (dst : InAddr) : Bool :=
  queue.any (fun entry => entry.prev_tries ≥ 0 ∧ entry.dst = dst)

/-- The entry `rreq_fifo_del` stops at: the first one for `dst` whose id is not above `rreq_id`. -/
def rreqFifoDelEntry (queue : List RreqFifo) (rreq_id : U32) (dst : InAddr) : Option RreqFifo :=
  queue.find? (fun entry => entry.rreq_id ≤ rreq_id ∧ entry.dst = dst)

def rreqFifoDel (s : MshData) (rreq_id : U32) (dst : InAddr) : MshData :=
  match rreqFifoDelEntry s.rreq_queue rreq_id dst with
  | some entry => rreqFifoEntryDelete s entry.self
  | none => s

end Meshias
