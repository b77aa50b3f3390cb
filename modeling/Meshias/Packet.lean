import Meshias.Parameters

/-!
# AODV datagrams

`aodv/packet.c` and `aodv/packet.h`.  A payload is a list of bytes; the structures the C code
casts it to are read and written field by field, in the little-endian bit-field declaration.

* `aodvPktGet`, `aodvPktCheck` — a received datagram and its size and type checks.
* `AodvRreq`, `AodvRrep` — the message structures after `aodv_pkt_check` has put their words in
  host order; bytes behind the structure are kept in `rest`.
* `aodvPktBuildRreq`, `aodvPktPrepareRreq`, … — what is handed to `aodv_pkt_send`.

Principal results: `rreqOfPayload_prepare`, `rrepOfPayload_prepare` — a message that is sent is
read back unchanged; `rreqOfPayload_build`, `rrepOfPayload_build` — the fields of a built one.
-/

set_option autoImplicit false

namespace Meshias

/-! ## Words in network order -/

/-- The 32-bit word at offset `off`, converted by `ntohl`. -/
def ntohl (b : List U8) (off : Nat) : U32 :=
  b.getD off 0 ++ b.getD (off + 1) 0 ++ b.getD (off + 2) 0 ++ b.getD (off + 3) 0

/-- The four bytes that `htonl` leaves in memory. -/
def htonl (w : U32) : List U8 :=
  [w.extractLsb' 24 8, w.extractLsb' 16 8, w.extractLsb' 8 8, w.extractLsb' 0 8]

theorem extract_bytes (w : U32) : (w.extractLsb' 24 8 ++ w.extractLsb' 16 8 ++
    w.extractLsb' 8 8 ++ w.extractLsb' 0 8 : BitVec 32) = w := by
  ext i hi
  simp only [BitVec.getElem_append, BitVec.getElem_extractLsb']
  split <;> (try split) <;> (try split) <;>
    (rw [BitVec.getElem_eq_testBit_toNat, BitVec.getLsbD]; congr 1; omega)

theorem extract_high {k m : Nat} (hi : BitVec k) (lo : BitVec m) :
    (hi ++ lo).extractLsb' m k = hi := by
  ext i hi'
  simp [BitVec.getElem_extractLsb', BitVec.getLsbD_append, BitVec.getLsbD_eq_getElem hi']

theorem extract_low {k m : Nat} (hi : BitVec k) (lo : BitVec m) :
    (hi ++ lo).extractLsb' 0 m = lo := by
  ext i hi'
  simp [BitVec.getElem_extractLsb', BitVec.getLsbD_append, hi']

/-! ## Packets -/

def AODV_RREQ : Int := 1
def AODV_RREP : Int := 2
def AODV_RERR : Int := 3
def AODV_RREP_ACK : Int := 4

def DEFAULT_TTL : U8 := 64

/-- `struct aodv_pkt`: the address is the source of a received packet and the destination of one
    to be sent. -/
structure AodvPkt where
  payload : List U8
  address : InAddr
  ttl : U8
  deriving DecidableEq, Repr

/-- The counters of `struct statistics_t` that the modelled functions write. -/
structure Statistics where
  packets_dropped : U32 := 0
  no_address_received : U32 := 0
  no_ttl_received : U32 := 0
  rreq_incorrect_size : U32 := 0
  rrep_incorrect_size : U32 := 0
  rerr_incorrect_size : U32 := 0
  rrep_ack_incorrect_size : U32 := 0
  rerr_dest_cont_zero : U32 := 0
  aodv_incorrect_type : U32 := 0
  invalid_route : U32 := 0
  deriving DecidableEq, Repr

def SOL_IP : Nat := 0
def IP_TTL : Nat := 2

structure Cmsghdr where
  cmsg_level : Nat
  cmsg_type : Nat
  data : U8
  deriving DecidableEq, Repr

/-- `struct msghdr` as `recvmsg` fills it, with the received bytes. -/
structure Msghdr where
  msg_name : Option InAddr
  msg_iov : List U8
  msg_control : List Cmsghdr
  deriving DecidableEq, Repr

def aodvPktReceiveTtl (msg : Msghdr) : U8 :=
  match msg.msg_control.find? (fun c => c.cmsg_level = SOL_IP ∧ c.cmsg_type = IP_TTL) with
  | some cmsg => cmsg.data
  | none => -1

/-- `aodv_pkt_get`; a missing name or control block leaves the zeros of `calloc`. -/
def aodvPktGet (stats : Statistics) (msg : Msghdr) : Statistics × AodvPkt :=
  let (stats, address) := match msg.msg_name with
    | some name => (stats, name)
    | none => ({ stats with no_address_received := stats.no_address_received + 1 }, 0)
  if msg.msg_control = [] then
    ({ stats with no_ttl_received := stats.no_ttl_received + 1 }, ⟨msg.msg_iov, address, 0⟩)
  else (stats, ⟨msg.msg_iov, address, aodvPktReceiveTtl msg⟩)

/-- The first byte, a signed `char`.  An empty datagram has none; it is read as type 0. -/
def aodvPktGetType (pkt : AodvPkt) : Int := (pkt.payload.headD 0).toInt

/-- `aodv_pkt_check`, without the byte swaps (the structures below are read in host order). -/
def aodvPktCheck (stats : Statistics) (pkt : AodvPkt) : Statistics × Bool :=
  let len := pkt.payload.length
  if aodvPktGetType pkt = AODV_RREQ then
    if 24 ≤ len then (stats, true)
    else ({ stats with rreq_incorrect_size := stats.rreq_incorrect_size + 1 }, false)
  else if aodvPktGetType pkt = AODV_RREP then
    if 20 ≤ len then (stats, true)
    else ({ stats with rrep_incorrect_size := stats.rrep_incorrect_size + 1 }, false)
  else if aodvPktGetType pkt = AODV_RERR then
    if 4 + 8 ≤ len then
      let dest_count := (pkt.payload.getD 3 0).toNat
      if dest_count = 0 then
        ({ stats with rerr_dest_cont_zero := stats.rerr_dest_cont_zero + 1 }, false)
      else if len = 4 + 8 * dest_count then (stats, true)
      else ({ stats with rerr_incorrect_size := stats.rerr_incorrect_size + 1 }, false)
    else ({ stats with rerr_incorrect_size := stats.rerr_incorrect_size + 1 }, false)
  else if aodvPktGetType pkt = AODV_RREP_ACK then
    if 2 ≤ len then (stats, true)
    else ({ stats with rrep_ack_incorrect_size := stats.rrep_ack_incorrect_size + 1 }, false)
  else (stats, false)

/-! ## Route requests -/

def RREQ_GRATUITOUS_RREP_FLAG : BitVec 5 := 4
def RREQ_DEST_ONLY_FLAG : BitVec 5 := 2
def RREQ_UNKNOWN_SEQ_NUM_FLAG : BitVec 5 := 1

/-- `struct aodv_rreq`. -/
structure AodvRreq where
  type : U8
  flags : BitVec 5
  reserved2 : BitVec 3
  reserved : U8
  hop_count : U8
  rreq_id : U32
  dest_ip_addr : U32
  dest_seq_num : U32
  orig_ip_addr : U32
  orig_seq_num : U32
  rest : List U8
  deriving DecidableEq, Repr

def rreqOfPayload (b : List U8) : AodvRreq where
  type := b.getD 0 0
  flags := (b.getD 1 0).extractLsb' 3 5
  reserved2 := (b.getD 1 0).extractLsb' 0 3
  reserved := b.getD 2 0
  hop_count := b.getD 3 0
  rreq_id := ntohl b 4
  dest_ip_addr := ntohl b 8
  dest_seq_num := ntohl b 12
  orig_ip_addr := ntohl b 16
  orig_seq_num := ntohl b 20
  rest := b.drop 24

/-- `aodv_pkt_prepare_rreq`: the payload with its words in network order again. -/
def aodvPktPrepareRreq (rreq : AodvRreq) : List U8 :=
  [rreq.type, rreq.flags ++ rreq.reserved2, rreq.reserved, rreq.hop_count] ++
    htonl rreq.rreq_id ++ htonl rreq.dest_ip_addr ++ htonl rreq.dest_seq_num ++
    htonl rreq.orig_ip_addr ++ htonl rreq.orig_seq_num ++ rreq.rest

def aodvPktBuildRreq (flags : U8) (hop_count : U8) (rreq_id dest_ip_addr dest_seq_num
    orig_ip_addr orig_seq_num : U32) : List U8 :=
  aodvPktPrepareRreq
    { type := 1, flags := flags.setWidth 5, reserved2 := 0, reserved := 0, hop_count, rreq_id,
      dest_ip_addr, dest_seq_num, orig_ip_addr, orig_seq_num, rest := [] }

theorem rreqOfPayload_prepare (rreq : AodvRreq) :
    rreqOfPayload (aodvPktPrepareRreq rreq) = rreq := by
  have hhi := extract_high rreq.flags rreq.reserved2
  have hlo := extract_low rreq.flags rreq.reserved2
  simp [rreqOfPayload, aodvPktPrepareRreq, htonl, ntohl, extract_bytes, hhi, hlo]

theorem length_aodvPktPrepareRreq (rreq : AodvRreq) :
    (aodvPktPrepareRreq rreq).length = 24 + rreq.rest.length := by
  simp [aodvPktPrepareRreq, htonl]; omega

@[simp] theorem rreqOfPayload_build (flags hop : U8) (id dest dseq orig oseq : U32) :
    rreqOfPayload (aodvPktBuildRreq flags hop id dest dseq orig oseq) =
      ⟨1, flags.setWidth 5, 0, 0, hop, id, dest, dseq, orig, oseq, []⟩ :=
  rreqOfPayload_prepare _

/-! ## Route replies -/

/-- `struct aodv_rrep`. -/
structure AodvRrep where
  type : U8
  flags : BitVec 2
  reserved2 : BitVec 6
  reserved : BitVec 3
  prefix_sz : BitVec 5
  hop_count : U8
  dest_ip_addr : U32
  dest_seq_num : U32
  orig_ip_addr : U32
  lifetime : U32
  rest : List U8
  deriving DecidableEq, Repr

def rrepOfPayload (b : List U8) : AodvRrep where
  type := b.getD 0 0
  flags := (b.getD 1 0).extractLsb' 6 2
  reserved2 := (b.getD 1 0).extractLsb' 0 6
  reserved := (b.getD 2 0).extractLsb' 5 3
  prefix_sz := (b.getD 2 0).extractLsb' 0 5
  hop_count := b.getD 3 0
  dest_ip_addr := ntohl b 4
  dest_seq_num := ntohl b 8
  orig_ip_addr := ntohl b 12
  lifetime := ntohl b 16
  rest := b.drop 20

/-- `aodv_pkt_prepare_rrep`. -/
def aodvPktPrepareRrep (rrep : AodvRrep) : List U8 :=
  [rrep.type, rrep.flags ++ rrep.reserved2, rrep.reserved ++ rrep.prefix_sz, rrep.hop_count] ++
    htonl rrep.dest_ip_addr ++ htonl rrep.dest_seq_num ++ htonl rrep.orig_ip_addr ++
    htonl rrep.lifetime ++ rrep.rest

def aodvPktBuildRrep (flags prefix_sz hop_count : U8) (dest_ip_addr dest_seq_num orig_ip_addr
    lifetime : U32) : List U8 :=
  aodvPktPrepareRrep
    { type := 2, flags := flags.setWidth 2, reserved2 := 0, reserved := 0,
      prefix_sz := prefix_sz.setWidth 5, hop_count, dest_ip_addr, dest_seq_num, orig_ip_addr,
      lifetime, rest := [] }

theorem rrepOfPayload_prepare (rrep : AodvRrep) :
    rrepOfPayload (aodvPktPrepareRrep rrep) = rrep := by
  have hhi := extract_high rrep.flags rrep.reserved2
  have hlo := extract_low rrep.flags rrep.reserved2
  have hhi' := extract_high rrep.reserved rrep.prefix_sz
  have hlo' := extract_low rrep.reserved rrep.prefix_sz
  simp [rrepOfPayload, aodvPktPrepareRrep, htonl, ntohl, extract_bytes, hhi, hlo, hhi', hlo']

@[simp] theorem rrepOfPayload_build (flags psz hop : U8) (dest dseq orig lifetime : U32) :
    rrepOfPayload (aodvPktBuildRrep flags psz hop dest dseq orig lifetime) =
      ⟨2, flags.setWidth 2, 0, 0, psz.setWidth 5, hop, dest, dseq, orig, lifetime, []⟩ :=
  rrepOfPayload_prepare _

end Meshias
