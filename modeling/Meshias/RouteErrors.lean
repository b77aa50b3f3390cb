import Meshias.Codec

/-!
# RERR in memory

`aodv_pkt_build_rerr` of `aodv/packet.c`, on a machine of either byte order.

* `rerrWidths` — the bit-fields of `struct aodv_rerr`; `UnrecheableDest` — the pairs behind it.
* `aodvPktBuildRerr` — the function on its block of memory.
* `rerrFormat` — the message of RFC 3561, section 5; `RerrEncoded` — what is built is the message.

The pointer to the pairs is moved by `sizeof (struct aodv_rerr)` pairs, not bytes.

Principal results: `stores_build_rerr` — where the function writes; `build_rerr_accepted` — the
check accepts what it builds; `rerr_not_encoded`.
-/

set_option autoImplicit false

namespace Meshias.Codec

open Memory

/-- Type, flag, reserved, number of destinations; type, reserved2, flag, reserved, number. -/
def rerrWidths : ByteOrder → List Nat
  | .big => [8, 1, 15, 8]
  | .little => [8, 7, 1, 8, 8]

def rerrType (o : ByteOrder) : BitField 8 := ⟨((rerrWidths o).take 0).sum⟩

def rerrFlag : ByteOrder → BitField 1
  | .big => ⟨((rerrWidths .big).take 1).sum⟩
  | .little => ⟨((rerrWidths .little).take 2).sum⟩

def rerrDestCount : ByteOrder → BitField 8
  | .big => ⟨((rerrWidths .big).take 3).sum⟩
  | .little => ⟨((rerrWidths .little).take 4).sum⟩

/-- `struct unrecheable_dest`. -/
structure UnrecheableDest where
  ip_addr : U32
  seq_num : U32
  deriving DecidableEq, Repr

/-- As many destinations as a RERR can have. -/
abbrev RerrDests := { dests : List UnrecheableDest // 1 ≤ dests.length ∧ dests.length ≤ 255 }

/-! ## The function -/

/-- The loop of `aodv_pkt_build_rerr`; `aux` is the offset the pointer has reached. -/
def writeDests (o : ByteOrder) (rerr : Block) (aux : Nat) : List UnrecheableDest → Block
  | [] => rerr
  | dest :: dests =>
    let rerr := rerr.store o aux (toNetwork o dest.ip_addr)
    let rerr := rerr.store o (aux + 4) (toNetwork o dest.seq_num)
    writeDests o rerr (aux + 8) dests

def aodvPktBuildRerr (o : ByteOrder) (flag dest_count : U8) (dests : List UnrecheableDest) :
    Block :=
  let rerr := Block.zeros (4 + dest_count.toNat * 8)
  let rerr := rerr.setField o (rerrType o) (3 : BitVec 8)
  let rerr := rerr.setField o (rerrFlag o) (flag.setWidth 1)
  let rerr := rerr.setField o (rerrDestCount o) dest_count
  -- `(struct unrecheable_dest *)rerr + sizeof (struct aodv_rerr)`
  let aux := 4 * 8
  writeDests o rerr aux (dests.take dest_count.toNat)

/-- The block for a list of destinations. -/
def builtRerr (o : ByteOrder) (flag : U8) (dests : RerrDests) : Block :=
  aodvPktBuildRerr o flag (BitVec.ofNat 8 dests.1.length) dests.1

/-- Type, the flag N, 15 reserved bits, the number of pairs, and the pairs. -/
def rerrFormat (flag : U8) (dests : List UnrecheableDest) : List U8 :=
  [3, (flag.setWidth 1 : BitVec 1) ++ (0 : BitVec 7), 0, BitVec.ofNat 8 dests.length] ++
    dests.flatMap (fun dest => htonl dest.ip_addr ++ htonl dest.seq_num)

/-- The function writes into the payload only, what is there then is the message, and the check
    accepts it. -/
structure RerrEncoded (o : ByteOrder) (flag : U8) (dests : RerrDests) : Prop where
  length : (builtRerr o flag dests).bytes.length = 4 + 8 * dests.1.length
  inside : (builtRerr o flag dests).InBounds
  payload : (builtRerr o flag dests).bytes = rerrFormat flag dests.1
  accepted : ∀ stats addr ttl,
    (Meshias.aodvPktCheck stats ⟨(builtRerr o flag dests).bytes, addr, ttl⟩).2 = true

/-! ## Where it writes -/

variable {o : ByteOrder}

theorem length_writeDests (rerr : Block) (aux : Nat) (dests : List UnrecheableDest) :
    (writeDests o rerr aux dests).bytes.length = rerr.bytes.length := by
  induction dests generalizing rerr aux with
  | nil => rfl
  | cons dest dests ih => simp [writeDests, ih]

theorem stores_writeDests (rerr : Block) (aux : Nat) (dests : List UnrecheableDest) :
    (writeDests o rerr aux dests).stores =
      rerr.stores ++
        (List.range dests.length).flatMap (fun i => [aux + 8 * i, aux + 8 * i + 4]) := by
  induction dests generalizing rerr aux with
  | nil => simp [writeDests]
  | cons dest dests ih =>
    have hnext : ∀ i, aux + 8 + 8 * i = aux + 8 * (i + 1) := fun i => by omega
    simp only [writeDests, ih, List.length_cons, List.range_succ_eq_map, List.flatMap_cons,
      List.flatMap_map, Block.store, hnext]
    simp

theorem getD_writeDests_of_lt (rerr : Block) {aux i : Nat} (hi : i < aux)
    (dests : List UnrecheableDest) :
    (writeDests o rerr aux dests).bytes.getD i 0 = rerr.bytes.getD i 0 := by
  induction dests generalizing rerr aux with
  | nil => rfl
  | cons dest dests ih =>
    rw [writeDests, ih _ (by omega), Block.getD_store_of_lt _ _ (by omega),
      Block.getD_store_of_lt _ _ hi]

theorem toNat_length (dests : RerrDests) :
    (BitVec.ofNat 8 dests.1.length).toNat = dests.1.length := by
  have hlen := dests.2.2
  rw [BitVec.toNat_ofNat]
  omega

theorem length_builtRerr (flag : U8) (dests : RerrDests) :
    (builtRerr o flag dests).bytes.length = 4 + 8 * dests.1.length := by
  simp only [builtRerr, aodvPktBuildRerr, toNat_length, length_writeDests, Block.setField,
    Block.length_store, Block.zeros, List.length_replicate, Nat.mul_comm]

/-- **The `i`-th pair goes 32 bytes and `i` pairs behind the start of the block.** -/
theorem stores_builtRerr (flag : U8) (dests : RerrDests) :
    (builtRerr o flag dests).stores = [0, 0, 0] ++
      (List.range dests.1.length).flatMap (fun i => [32 + 8 * i, 32 + 8 * i + 4]) := by
  simp only [builtRerr, aodvPktBuildRerr, toNat_length, stores_writeDests, Block.setField,
    Block.zeros, Block.store, List.take_length]
  rfl

/-- The last pair lies behind the block. -/
theorem not_inBounds_builtRerr (flag : U8) (dests : RerrDests) :
    ¬ (builtRerr o flag dests).InBounds := by
  intro hin
  obtain ⟨n, hn⟩ := Nat.exists_eq_succ_of_ne_zero (Nat.one_le_iff_ne_zero.1 dests.2.1)
  have hmem : 32 + 8 * n ∈ (builtRerr o flag dests).stores := by
    rw [stores_builtRerr, hn]
    refine List.mem_append_right _ (List.mem_flatMap.2 ⟨n, ?_, ?_⟩)
    · exact List.mem_range.2 (Nat.lt_succ_self n)
    · exact List.mem_cons_self
  have hle := hin _ hmem
  rw [length_builtRerr] at hle
  omega

/-! ## What the check makes of it -/

/-- The header: type, flag and number, in either order. -/
theorem rerr_header (o : ByteOrder) (flag : BitVec 1) (dest_count : U8) :
    wordBytes o (replaceBits (replaceBits (replaceBits 0 ((rerrType o).shift o) (3 : BitVec 8))
      ((rerrFlag o).shift o) flag) ((rerrDestCount o).shift o) dest_count) =
        [3, flag ++ (0 : BitVec 7), 0, dest_count] := by
  have hheader := flags_header o (show 1 + 7 = 8 from rfl) 3 flag dest_count
  cases o <;> exact hheader

theorem bytes_header (flag : BitVec 1) (dest_count : U8) {len : Nat} (hlen : 4 ≤ len) :
    ((((Block.zeros len).setField o (rerrType o) (3 : BitVec 8)).setField o (rerrFlag o)
        flag).setField o (rerrDestCount o) dest_count).bytes =
      [3, flag ++ (0 : BitVec 7), 0, dest_count] ++ List.replicate (len - 4) 0 := by
  have hzeros : 0 + 4 ≤ (List.replicate len (0 : U8)).length := by
    rw [List.length_replicate]
    omega
  have hheader := rerr_header o flag dest_count
  rw [Block.bytes_setField (by simpa [Block.setField, Block.zeros] using hlen),
    Block.bytes_setField (by simpa [Block.setField, Block.zeros] using hlen),
    Block.bytes_setField (by simpa [Block.zeros] using hlen)]
  simp only [Block.zeros, setField, load_store hzeros, store_store hzeros, load_zeros]
  rw [store, hheader, List.drop_replicate]
  rfl

/-- The pairs do not touch the header. -/
theorem header_builtRerr (flag : U8) (dests : RerrDests) {i : Nat} (hi : i < 4) :
    (builtRerr o flag dests).bytes.getD i 0 =
      [3, (flag.setWidth 1 : BitVec 1) ++ (0 : BitVec 7), 0,
        BitVec.ofNat 8 dests.1.length].getD i 0 := by
  rw [builtRerr, aodvPktBuildRerr, getD_writeDests_of_lt _ (by omega),
    bytes_header _ _ (Nat.le_add_right 4 _)]
  rw [List.getD_eq_getElem?_getD, List.getElem?_append_left hi, ← List.getD_eq_getElem?_getD]

/-- **The check accepts what is built**: it looks at no pair. -/
theorem builtRerr_accepted (flag : U8) (dests : RerrDests) (stats : Statistics) (addr : InAddr)
    (ttl : U8) :
    (Meshias.aodvPktCheck stats ⟨(builtRerr o flag dests).bytes, addr, ttl⟩).2 = true := by
  have hlen := length_builtRerr (o := o) flag dests
  have hcount : ((builtRerr o flag dests).bytes.getD 3 0).toNat = dests.1.length := by
    rw [header_builtRerr flag dests (by omega)]
    exact toNat_length dests
  have htype : aodvPktGetType ⟨(builtRerr o flag dests).bytes, addr, ttl⟩ = AODV_RERR := by
    rw [aodvPktGetType, List.headD_eq_head?_getD, List.head?_eq_getElem?,
      ← List.getD_eq_getElem?_getD, header_builtRerr flag dests (by omega)]
    rfl
  have hone := dests.2.1
  simp +decide only [Meshias.aodvPktCheck, htype, hcount, hlen, if_false, if_true]
  rw [if_pos (by omega), if_neg (by omega)]

/-- **A RERR is never what it should be**: the last pair is written behind the payload. -/
theorem rerr_not_encoded (o : ByteOrder) (flag : U8) (dests : RerrDests) :
    ¬ RerrEncoded o flag dests :=
  fun h => not_inBounds_builtRerr flag dests h.inside

/-- One destination: the pair goes to the bytes 32 to 39 of a payload of 12. -/
def oneDest : RerrDests := ⟨[⟨0x0A000009, 5⟩], by decide⟩

theorem one_dest_outside :
    ¬ ∀ (o : ByteOrder) (flag : U8) (dests : RerrDests), RerrEncoded o flag dests := by
  intro hall
  have hin := (hall .little 0 oneDest).inside
  have hstores : (builtRerr .little 0 oneDest).stores = [0, 0, 0, 32, 36] :=
    stores_builtRerr 0 oneDest
  have hle := hin 32 (by rw [hstores]; decide)
  rw [length_builtRerr] at hle
  revert hle
  decide

end Meshias.Codec
