import Meshias.Lib.Memory
import Meshias.Packet

/-!
# RREQ and RREP in memory and on the wire

`Meshias.Packet` reads and writes the messages field by field.  Here are the same functions of
`aodv/packet.c` as they work on memory, on a machine of either byte order: the structures are laid
over the payload, their bit-fields are declared once for each order, and `ntohl` and `htonl` convert
the words in place.

* `rreqWidths`, `rrepWidths` — the two declarations; `rreqWords`, `rrepWords` — where the words are.
* `aodvPktBuildRreq`, `aodvPktCheck`, `aodvPktPrepareRreq`, … — the functions on memory.
* `rreqDiagram`, `rrepDiagram` — the message formats of RFC 3561, section 5, bit by bit.

Principal results: `build_rreq_eq`, `build_rrep_eq` and `readRreq_check`, `readRrep_check` — in
either order these are the functions of `Meshias.Packet`; `codec_correct` — what is built is the
format, what is checked is read back, and what is checked and prepared is restored.
-/

set_option autoImplicit false

namespace Meshias.Codec

open Memory

/-! ## The structures -/

/-- The bit-fields of `struct aodv_rreq` in the order of their declaration: type, flags, reserved,
    hop count; type, reserved2, flags, reserved, hop count. -/
def rreqWidths : ByteOrder → List Nat
  | .big => [8, 5, 11, 8]
  | .little => [8, 3, 5, 8, 8]

def rreqType (o : ByteOrder) : BitField 8 := ⟨((rreqWidths o).take 0).sum⟩

def rreqFlags : ByteOrder → BitField 5
  | .big => ⟨((rreqWidths .big).take 1).sum⟩
  | .little => ⟨((rreqWidths .little).take 2).sum⟩

def rreqHopCount : ByteOrder → BitField 8
  | .big => ⟨((rreqWidths .big).take 3).sum⟩
  | .little => ⟨((rreqWidths .little).take 4).sum⟩

/-- `rreq_id`, `dest_ip_addr`, `dest_seq_num`, `orig_ip_addr`, `orig_seq_num`. -/
def rreqWords : List Nat := [4, 8, 12, 16, 20]

/-- Those of `struct aodv_rrep`: type, flags, reserved, prefix size, hop count; type, reserved2,
    flags, prefix size, reserved, hop count. -/
def rrepWidths : ByteOrder → List Nat
  | .big => [8, 2, 9, 5, 8]
  | .little => [8, 6, 2, 5, 3, 8]

def rrepType (o : ByteOrder) : BitField 8 := ⟨((rrepWidths o).take 0).sum⟩

def rrepFlags : ByteOrder → BitField 2
  | .big => ⟨((rrepWidths .big).take 1).sum⟩
  | .little => ⟨((rrepWidths .little).take 2).sum⟩

def rrepPrefixSz : ByteOrder → BitField 5
  | .big => ⟨((rrepWidths .big).take 3).sum⟩
  | .little => ⟨((rrepWidths .little).take 3).sum⟩

def rrepHopCount : ByteOrder → BitField 8
  | .big => ⟨((rrepWidths .big).take 4).sum⟩
  | .little => ⟨((rrepWidths .little).take 5).sum⟩

/-- `dest_ip_addr`, `dest_seq_num`, `orig_ip_addr`, `lifetime`. -/
def rrepWords : List Nat := [4, 8, 12, 16]

/-- What a handler reads from `struct aodv_rreq`. -/
structure RreqFields where
  type : U8
  flags : BitVec 5
  hop_count : U8
  rreq_id : U32
  dest_ip_addr : U32
  dest_seq_num : U32
  orig_ip_addr : U32
  orig_seq_num : U32
  deriving DecidableEq, Repr

def readRreq (o : ByteOrder) (m : List U8) : RreqFields where
  type := getField o m (rreqType o)
  flags := getField o m (rreqFlags o)
  hop_count := getField o m (rreqHopCount o)
  rreq_id := load o m 4
  dest_ip_addr := load o m 8
  dest_seq_num := load o m 12
  orig_ip_addr := load o m 16
  orig_seq_num := load o m 20

/-- What a handler reads from `struct aodv_rrep`. -/
structure RrepFields where
  type : U8
  flags : BitVec 2
  prefix_sz : BitVec 5
  hop_count : U8
  dest_ip_addr : U32
  dest_seq_num : U32
  orig_ip_addr : U32
  lifetime : U32
  deriving DecidableEq, Repr

def readRrep (o : ByteOrder) (m : List U8) : RrepFields where
  type := getField o m (rrepType o)
  flags := getField o m (rrepFlags o)
  prefix_sz := getField o m (rrepPrefixSz o)
  hop_count := getField o m (rrepHopCount o)
  dest_ip_addr := load o m 4
  dest_seq_num := load o m 8
  orig_ip_addr := load o m 12
  lifetime := load o m 16

/-! ## The functions -/

def aodvPktBuildRreq (o : ByteOrder) (flags hop_count : U8) (rreq_id dest_ip_addr dest_seq_num
    orig_ip_addr orig_seq_num : U32) : List U8 :=
  let m := List.replicate 24 0
  let m := setField o m (rreqType o) 1
  let m := setField o m (rreqFlags o) (flags.setWidth 5)
  let m := setField o m (rreqHopCount o) hop_count
  let m := store o m 4 (toNetwork o rreq_id)
  let m := store o m 8 (toNetwork o dest_ip_addr)
  let m := store o m 12 (toNetwork o dest_seq_num)
  let m := store o m 16 (toNetwork o orig_ip_addr)
  store o m 20 (toNetwork o orig_seq_num)

def aodvPktBuildRrep (o : ByteOrder) (flags prefix_sz hop_count : U8) (dest_ip_addr dest_seq_num
    orig_ip_addr lifetime : U32) : List U8 :=
  let m := List.replicate 20 0
  let m := setField o m (rrepType o) 2
  let m := setField o m (rrepFlags o) (flags.setWidth 2)
  let m := setField o m (rrepPrefixSz o) (prefix_sz.setWidth 5)
  let m := setField o m (rrepHopCount o) hop_count
  let m := store o m 4 (toNetwork o dest_ip_addr)
  let m := store o m 8 (toNetwork o dest_seq_num)
  let m := store o m 12 (toNetwork o orig_ip_addr)
  store o m 16 (toNetwork o lifetime)

def aodvPktPrepareRreq (o : ByteOrder) (m : List U8) : List U8 := convertAll o rreqWords m

def aodvPktPrepareRrep (o : ByteOrder) (m : List U8) : List U8 := convertAll o rrepWords m

/-- `aodv_pkt_check` with its conversions in place. -/
def aodvPktCheck (o : ByteOrder) (stats : Statistics) (pkt : AodvPkt) :
    AodvPkt × Statistics × Bool :=
  let (stats, ok) := Meshias.aodvPktCheck stats pkt
  if ¬ ok then (pkt, stats, false)
  else if aodvPktGetType pkt = AODV_RREQ then
    ({ pkt with payload := convertAll o rreqWords pkt.payload }, stats, true)
  else if aodvPktGetType pkt = AODV_RREP then
    ({ pkt with payload := convertAll o rrepWords pkt.payload }, stats, true)
  else (pkt, stats, true)

/-! ## The formats of the RFC -/

/-- Type, the flags J R G D U, 11 reserved bits, hop count, and the five words. -/
def rreqDiagram (flags : BitVec 5) (hop_count : U8) (rreq_id dest_ip_addr dest_seq_num
    orig_ip_addr orig_seq_num : U32) : List Bool :=
  bitsOf (1 : BitVec 8) ++ bitsOf flags ++ bitsOf (0 : BitVec 11) ++ bitsOf hop_count ++
    bitsOf rreq_id ++ bitsOf dest_ip_addr ++ bitsOf dest_seq_num ++ bitsOf orig_ip_addr ++
    bitsOf orig_seq_num

/-- Type, the flags R A, 9 reserved bits, prefix size, hop count, and the four words. -/
def rrepDiagram (flags : BitVec 2) (prefix_sz : BitVec 5) (hop_count : U8) (dest_ip_addr
    dest_seq_num orig_ip_addr lifetime : U32) : List Bool :=
  bitsOf (2 : BitVec 8) ++ bitsOf flags ++ bitsOf (0 : BitVec 9) ++ bitsOf prefix_sz ++
    bitsOf hop_count ++ bitsOf dest_ip_addr ++ bitsOf dest_seq_num ++ bitsOf orig_ip_addr ++
    bitsOf lifetime

/-! ## Building -/

theorem bigBytes_append (a b c d : U8) : bigBytes (a ++ b ++ c ++ d) = [a, b, c, d] := by
  obtain ⟨h3, h2, h1, h0⟩ := extract_append a b c d
  simp only [bigBytes, h3, h2, h1, h0]

/-- The header with the flags at the top of the second byte and nothing in the third: the same
    four bytes in either order. -/
theorem flags_header (o : ByteOrder) {k r : Nat} (hk : k + r = 8) (type : U8) (flags : BitVec k)
    (last : U8) :
    wordBytes o (match o with
      | .big => replaceBits (replaceBits (replaceBits 0 24 type) (16 + r) flags) 0 last
      | .little => replaceBits (replaceBits (replaceBits 0 0 type) (8 + r) flags) 24 last) =
        [type, (flags ++ (0 : BitVec r)).cast hk, 0, last] := by
  set second : U8 := (flags ++ (0 : BitVec r)).cast hk with hsecond
  have hbit : ∀ j, second.getLsbD j = if j < r then false else flags.getLsbD (j - r) := by
    intro j
    rw [hsecond, BitVec.getLsbD_cast, BitVec.getLsbD_append]
    simp
  cases o with
  | big =>
    have hword : replaceBits (replaceBits (replaceBits 0 24 type) (16 + r) flags) 0 last =
        type ++ second ++ (0 : U8) ++ last := by
      refine BitVec.eq_of_getLsbD_eq fun i hi => ?_
      rw [getLsbD_replaceBits _ _ (by omega), getLsbD_replaceBits _ _ (by omega),
        getLsbD_replaceBits _ _ (by omega)]
      simp only [BitVec.getLsbD_append, hbit]
      grind
    exact (congrArg bigBytes hword).trans (bigBytes_append _ _ _ _)
  | little =>
    have hword : replaceBits (replaceBits (replaceBits 0 0 type) (8 + r) flags) 24 last =
        last ++ (0 : U8) ++ second ++ type := by
      refine BitVec.eq_of_getLsbD_eq fun i hi => ?_
      rw [getLsbD_replaceBits _ _ (by omega), getLsbD_replaceBits _ _ (by omega),
        getLsbD_replaceBits _ _ (by omega)]
      simp only [BitVec.getLsbD_append, hbit]
      grind
    have hbytes := (congrArg bigBytes hword).trans (bigBytes_append _ _ _ _)
    exact congrArg List.reverse hbytes

/-- The header of a built RREQ. -/
theorem rreq_header (o : ByteOrder) (flags : BitVec 5) (hop_count : U8) :
    wordBytes o (replaceBits (replaceBits (replaceBits 0 ((rreqType o).shift o) (1 : BitVec 8))
      ((rreqFlags o).shift o) flags) ((rreqHopCount o).shift o) hop_count) =
        [1, flags ++ (0 : BitVec 3), 0, hop_count] := by
  have hheader := flags_header o (show 5 + 3 = 8 from rfl) 1 flags hop_count
  cases o <;> exact hheader

/-- The header of a built RREP. -/
theorem rrep_header (o : ByteOrder) (flags : BitVec 2) (prefix_sz : BitVec 5) (hop_count : U8) :
    wordBytes o (replaceBits (replaceBits (replaceBits (replaceBits 0 ((rrepType o).shift o)
      (2 : BitVec 8)) ((rrepFlags o).shift o) flags) ((rrepPrefixSz o).shift o) prefix_sz)
      ((rrepHopCount o).shift o) hop_count) =
        [2, flags ++ (0 : BitVec 6), (0 : BitVec 3) ++ prefix_sz, hop_count] := by
  cases o with
  | big =>
    have hword : replaceBits (replaceBits (replaceBits (replaceBits 0 24 (2 : BitVec 8)) 22 flags)
        8 prefix_sz) 0 hop_count =
          (2 : U8) ++ (flags ++ (0 : BitVec 6) : U8) ++ ((0 : BitVec 3) ++ prefix_sz : U8) ++
            hop_count := by
      refine BitVec.eq_of_getLsbD_eq fun i hi => ?_
      rw [getLsbD_replaceBits _ _ (by omega), getLsbD_replaceBits _ _ (by omega),
        getLsbD_replaceBits _ _ (by omega), getLsbD_replaceBits _ _ (by omega)]
      simp only [BitVec.getLsbD_append]
      grind
    exact (congrArg bigBytes hword).trans (bigBytes_append _ _ _ _)
  | little =>
    have hword : replaceBits (replaceBits (replaceBits (replaceBits 0 0 (2 : BitVec 8)) 14 flags)
        16 prefix_sz) 24 hop_count =
          hop_count ++ ((0 : BitVec 3) ++ prefix_sz : U8) ++ (flags ++ (0 : BitVec 6) : U8) ++
            (2 : U8) := by
      refine BitVec.eq_of_getLsbD_eq fun i hi => ?_
      rw [getLsbD_replaceBits _ _ (by omega), getLsbD_replaceBits _ _ (by omega),
        getLsbD_replaceBits _ _ (by omega), getLsbD_replaceBits _ _ (by omega)]
      simp only [BitVec.getLsbD_append]
      grind
    have hbytes := (congrArg bigBytes hword).trans (bigBytes_append _ _ _ _)
    exact congrArg List.reverse hbytes

/-- **In either order the built RREQ is that of the daemon's model.** -/
theorem build_rreq_eq (o : ByteOrder) (flags hop_count : U8) (rreq_id dest dseq orig oseq : U32) :
    aodvPktBuildRreq o flags hop_count rreq_id dest dseq orig oseq =
      Meshias.aodvPktBuildRreq flags hop_count rreq_id dest dseq orig oseq := by
  have hzero : load o (List.replicate 24 0) 0 = 0 := by cases o <;> rfl
  have hlen : 0 + 4 ≤ (List.replicate 24 (0 : U8)).length := by simp
  have hheader := rreq_header o (flags.setWidth 5) hop_count
  simp only [aodvPktBuildRreq, setField, load_store hlen, store_store hlen, hzero]
  simp only [store, wordBytes_toNetwork, hheader]
  rfl

theorem build_rrep_eq (o : ByteOrder) (flags prefix_sz hop_count : U8) (dest dseq orig life : U32) :
    aodvPktBuildRrep o flags prefix_sz hop_count dest dseq orig life =
      Meshias.aodvPktBuildRrep flags prefix_sz hop_count dest dseq orig life := by
  have hzero : load o (List.replicate 20 0) 0 = 0 := by cases o <;> rfl
  have hlen : 0 + 4 ≤ (List.replicate 20 (0 : U8)).length := by simp
  have hheader := rrep_header o (flags.setWidth 2) (prefix_sz.setWidth 5) hop_count
  simp only [aodvPktBuildRrep, setField, load_store hlen, store_store hlen, hzero]
  simp only [store, wordBytes_toNetwork, hheader]
  rfl

/-- A field in range is passed as a byte and cut back to its width. -/
theorem setWidth_setWidth_of_le {w : Nat} (hw : w ≤ 8) (v : BitVec w) :
    (v.setWidth 8).setWidth w = v := by
  refine BitVec.eq_of_getLsbD_eq fun i hi => ?_
  rw [BitVec.getLsbD_setWidth, BitVec.getLsbD_setWidth]
  simp [hi, show i < 8 by omega]

theorem bits_build_rreq (flags : BitVec 5) (hop_count : U8) (rreq_id dest dseq orig oseq : U32) :
    bits (Meshias.aodvPktBuildRreq (flags.setWidth 8) hop_count rreq_id dest dseq orig oseq) =
      rreqDiagram flags hop_count rreq_id dest dseq orig oseq := by
  have hword : ∀ w : U32, bits (htonl w) = bitsOf w := bits_bigBytes
  have hreserved : bitsOf (0 : BitVec 11) = bitsOf (0 : BitVec 3) ++ bitsOf (0 : BitVec 8) := rfl
  simp only [Meshias.aodvPktBuildRreq, Meshias.aodvPktPrepareRreq,
    setWidth_setWidth_of_le (show 5 ≤ 8 by omega), bits_append, bits_cons, bits_nil, bitsOf_append,
    hword, rreqDiagram, hreserved, List.append_assoc, List.append_nil]

theorem bits_build_rrep (flags : BitVec 2) (prefix_sz : BitVec 5) (hop_count : U8)
    (dest dseq orig life : U32) :
    bits (Meshias.aodvPktBuildRrep (flags.setWidth 8) (prefix_sz.setWidth 8) hop_count dest dseq
      orig life) = rrepDiagram flags prefix_sz hop_count dest dseq orig life := by
  have hword : ∀ w : U32, bits (htonl w) = bitsOf w := bits_bigBytes
  have hreserved : bitsOf (0 : BitVec 9) = bitsOf (0 : BitVec 6) ++ bitsOf (0 : BitVec 3) := rfl
  simp only [Meshias.aodvPktBuildRrep, Meshias.aodvPktPrepareRrep,
    setWidth_setWidth_of_le (show 2 ≤ 8 by omega), setWidth_setWidth_of_le (show 5 ≤ 8 by omega),
    bits_append, bits_cons, bits_nil, bitsOf_append, hword, rrepDiagram, hreserved,
    List.append_assoc, List.append_nil]

/-! ## Checking and reading -/

theorem rreqWords_apart : rreqWords.Pairwise Apart := by decide

theorem rrepWords_apart : rrepWords.Pairwise Apart := by decide

theorem rreqWords_in {m : List U8} (h : 24 ≤ m.length) : ∀ off ∈ rreqWords, off + 4 ≤ m.length := by
  simp only [rreqWords, List.forall_mem_cons, List.not_mem_nil, false_implies, implies_true,
    and_true]
  omega

theorem rrepWords_in {m : List U8} (h : 20 ≤ m.length) : ∀ off ∈ rrepWords, off + 4 ≤ m.length := by
  simp only [rrepWords, List.forall_mem_cons, List.not_mem_nil, false_implies, implies_true,
    and_true]
  omega

/-- The fields in the model of the daemon. -/
def AodvRreq.fields (rreq : AodvRreq) : RreqFields :=
  ⟨rreq.type, rreq.flags, rreq.hop_count, rreq.rreq_id, rreq.dest_ip_addr, rreq.dest_seq_num,
    rreq.orig_ip_addr, rreq.orig_seq_num⟩

def AodvRrep.fields (rrep : AodvRrep) : RrepFields :=
  ⟨rrep.type, rrep.flags, rrep.prefix_sz, rrep.hop_count, rrep.dest_ip_addr, rrep.dest_seq_num,
    rrep.orig_ip_addr, rrep.lifetime⟩

/-- A bit-field lies in one byte of the header, at the same place in either order. -/
theorem getField_rreq (o : ByteOrder) (m : List U8) :
    getField o m (rreqType o) = m.getD 0 0 ∧
      getField o m (rreqFlags o) = (m.getD 1 0).extractLsb' 3 5 ∧
        getField o m (rreqHopCount o) = m.getD 3 0 := by
  cases o <;> refine ⟨?_, ?_, ?_⟩ <;> refine BitVec.eq_of_getLsbD_eq fun i hi => ?_ <;>
    simp only [getField, BitField.shift, rreqType, rreqFlags, rreqHopCount, rreqWidths, load,
      BitVec.getLsbD_extractLsb', BitVec.getLsbD_append] <;> grind

theorem getField_rrep (o : ByteOrder) (m : List U8) :
    getField o m (rrepType o) = m.getD 0 0 ∧
      getField o m (rrepFlags o) = (m.getD 1 0).extractLsb' 6 2 ∧
        getField o m (rrepPrefixSz o) = (m.getD 2 0).extractLsb' 0 5 ∧
          getField o m (rrepHopCount o) = m.getD 3 0 := by
  cases o <;> refine ⟨?_, ?_, ?_, ?_⟩ <;> refine BitVec.eq_of_getLsbD_eq fun i hi => ?_ <;>
    simp only [getField, BitField.shift, rrepType, rrepFlags, rrepPrefixSz, rrepHopCount,
      rrepWidths, load, BitVec.getLsbD_extractLsb', BitVec.getLsbD_append] <;> grind

/-- The conversions leave the header alone. -/
theorem getField_convertAll {o : ByteOrder} {m : List U8} {offs : List Nat} {w : Nat}
    (h : ∀ off ∈ offs, off + 4 ≤ m.length) (hoffs : ∀ off ∈ offs, 4 ≤ off) (f : BitField w) :
    getField o (convertAll o offs m) f = getField o m f := by
  rw [getField, load_convertAll_apart h fun off hoff => .inr (hoffs off hoff), getField]

/-- **After the check a handler reads what the daemon's model reads.** -/
theorem readRreq_check (o : ByteOrder) {m : List U8} (h : 24 ≤ m.length) :
    readRreq o (convertAll o rreqWords m) = AodvRreq.fields (rreqOfPayload m) := by
  have hin := rreqWords_in h
  have hfield : ∀ {w : Nat} (f : BitField w),
      getField o (convertAll o rreqWords m) f = getField o m f :=
    getField_convertAll hin (by decide)
  have hword : ∀ off ∈ rreqWords, load o (convertAll o rreqWords m) off = ntohl m off :=
    fun off hoff => load_convertAll hin rreqWords_apart hoff
  obtain ⟨htype, hflags, hhop⟩ := getField_rreq o m
  simp only [readRreq, hfield, htype, hflags, hhop, hword 4 (by decide), hword 8 (by decide),
    hword 12 (by decide), hword 16 (by decide), hword 20 (by decide)]
  rfl

theorem readRrep_check (o : ByteOrder) {m : List U8} (h : 20 ≤ m.length) :
    readRrep o (convertAll o rrepWords m) = AodvRrep.fields (rrepOfPayload m) := by
  have hin := rrepWords_in h
  have hfield : ∀ {w : Nat} (f : BitField w),
      getField o (convertAll o rrepWords m) f = getField o m f :=
    getField_convertAll hin (by decide)
  have hword : ∀ off ∈ rrepWords, load o (convertAll o rrepWords m) off = ntohl m off :=
    fun off hoff => load_convertAll hin rrepWords_apart hoff
  obtain ⟨htype, hflags, hpre, hhop⟩ := getField_rrep o m
  simp only [readRrep, hfield, htype, hflags, hpre, hhop, hword 4 (by decide), hword 8 (by decide),
    hword 12 (by decide), hword 16 (by decide)]
  rfl

/-- What the check accepts as a RREQ is long enough, and it converts the words. -/
theorem check_rreq (stats : Statistics) {pkt : AodvPkt} (htype : aodvPktGetType pkt = AODV_RREQ)
    (o : ByteOrder) :
    (aodvPktCheck o stats pkt).2.2 = decide (24 ≤ pkt.payload.length) ∧
      (24 ≤ pkt.payload.length →
        (aodvPktCheck o stats pkt).1.payload = convertAll o rreqWords pkt.payload) := by
  by_cases hlen : 24 ≤ pkt.payload.length
  · simp [aodvPktCheck, Meshias.aodvPktCheck, htype, hlen]
  · simp [aodvPktCheck, Meshias.aodvPktCheck, htype, hlen]

theorem check_rrep (stats : Statistics) {pkt : AodvPkt} (htype : aodvPktGetType pkt = AODV_RREP)
    (o : ByteOrder) :
    (aodvPktCheck o stats pkt).2.2 = decide (20 ≤ pkt.payload.length) ∧
      (20 ≤ pkt.payload.length →
        (aodvPktCheck o stats pkt).1.payload = convertAll o rrepWords pkt.payload) := by
  have hne : AODV_RREP ≠ AODV_RREQ := by decide
  by_cases hlen : 20 ≤ pkt.payload.length
  · simp [aodvPktCheck, Meshias.aodvPktCheck, htype, hne, hlen]
  · simp [aodvPktCheck, Meshias.aodvPktCheck, htype, hne, hlen]

/-! ## The codec -/

/-- A built RREQ is the format, and a machine of either order reads it back. -/
theorem built_rreq (o : ByteOrder) (stats : Statistics) (addr : InAddr) (ttl : U8)
    {flags : BitVec 5} {hop_count : U8} {rreq_id dest dseq orig oseq : U32} {b : List U8}
    (hb : b = Meshias.aodvPktBuildRreq (flags.setWidth 8) hop_count rreq_id dest dseq orig oseq) :
    bits b = rreqDiagram flags hop_count rreq_id dest dseq orig oseq ∧
      (aodvPktCheck o stats ⟨b, addr, ttl⟩).2.2 = true ∧
      readRreq o (aodvPktCheck o stats ⟨b, addr, ttl⟩).1.payload =
        ⟨1, flags, hop_count, rreq_id, dest, dseq, orig, oseq⟩ := by
  have hlen : 24 ≤ b.length := by
    rw [hb, Meshias.aodvPktBuildRreq, length_aodvPktPrepareRreq]
    omega
  have htype : aodvPktGetType ⟨b, addr, ttl⟩ = AODV_RREQ := by rw [hb]; rfl
  obtain ⟨hok, hpayload⟩ := check_rreq stats htype o
  refine ⟨by rw [hb, bits_build_rreq], hok.trans (decide_eq_true hlen), ?_⟩
  rw [hpayload hlen, readRreq_check o hlen, hb, rreqOfPayload_build,
    setWidth_setWidth_of_le (show 5 ≤ 8 by omega)]
  rfl

theorem built_rrep (o : ByteOrder) (stats : Statistics) (addr : InAddr) (ttl : U8)
    {flags : BitVec 2} {prefix_sz : BitVec 5} {hop_count : U8} {dest dseq orig life : U32}
    {b : List U8} (hb : b = Meshias.aodvPktBuildRrep (flags.setWidth 8) (prefix_sz.setWidth 8)
      hop_count dest dseq orig life) :
    bits b = rrepDiagram flags prefix_sz hop_count dest dseq orig life ∧
      (aodvPktCheck o stats ⟨b, addr, ttl⟩).2.2 = true ∧
      readRrep o (aodvPktCheck o stats ⟨b, addr, ttl⟩).1.payload =
        ⟨2, flags, prefix_sz, hop_count, dest, dseq, orig, life⟩ := by
  have hlen : 20 ≤ b.length := by
    rw [hb, Meshias.aodvPktBuildRrep]
    simp [Meshias.aodvPktPrepareRrep, htonl]
  have htype : aodvPktGetType ⟨b, addr, ttl⟩ = AODV_RREP := by rw [hb]; rfl
  obtain ⟨hok, hpayload⟩ := check_rrep stats htype o
  refine ⟨by rw [hb, bits_build_rrep], hok.trans (decide_eq_true hlen), ?_⟩
  rw [hpayload hlen, readRrep_check o hlen, hb, rrepOfPayload_build,
    setWidth_setWidth_of_le (show 2 ≤ 8 by omega), setWidth_setWidth_of_le (show 5 ≤ 8 by omega)]
  rfl

/-- An accepted datagram is restored, whatever its reserved bits and what follows the structure. -/
theorem restored_rreq (o : ByteOrder) {stats : Statistics} {pkt : AodvPkt}
    (htype : aodvPktGetType pkt = AODV_RREQ) (hok : (aodvPktCheck o stats pkt).2.2 = true) :
    aodvPktPrepareRreq o (aodvPktCheck o stats pkt).1.payload = pkt.payload := by
  obtain ⟨hlen, hpayload⟩ := check_rreq stats htype o
  have hlen' : 24 ≤ pkt.payload.length := of_decide_eq_true (hlen.symm.trans hok)
  rw [hpayload hlen', aodvPktPrepareRreq]
  exact convertAll_convertAll (rreqWords_in hlen') rreqWords_apart

theorem restored_rrep (o : ByteOrder) {stats : Statistics} {pkt : AodvPkt}
    (htype : aodvPktGetType pkt = AODV_RREP) (hok : (aodvPktCheck o stats pkt).2.2 = true) :
    aodvPktPrepareRrep o (aodvPktCheck o stats pkt).1.payload = pkt.payload := by
  obtain ⟨hlen, hpayload⟩ := check_rrep stats htype o
  have hlen' : 20 ≤ pkt.payload.length := of_decide_eq_true (hlen.symm.trans hok)
  rw [hpayload hlen', aodvPktPrepareRrep]
  exact convertAll_convertAll (rrepWords_in hlen') rrepWords_apart

/-- **The codec.**  On a machine of either order what is built is the format of the RFC, a check on
    a machine of either order lets the fields be read back, and checking and preparing an accepted
    datagram restores it. -/
theorem codec_correct (o : ByteOrder) :
    (∀ o' stats addr ttl flags hop_count rreq_id dest dseq orig oseq,
      let b := aodvPktBuildRreq o (flags.setWidth 8) hop_count rreq_id dest dseq orig oseq
      let c := aodvPktCheck o' stats ⟨b, addr, ttl⟩
      bits b = rreqDiagram flags hop_count rreq_id dest dseq orig oseq ∧ c.2.2 = true ∧
        readRreq o' c.1.payload = ⟨1, flags, hop_count, rreq_id, dest, dseq, orig, oseq⟩) ∧
    (∀ o' stats addr ttl flags prefix_sz hop_count dest dseq orig life,
      let b := aodvPktBuildRrep o (flags.setWidth 8) (prefix_sz.setWidth 8) hop_count dest dseq orig
        life
      let c := aodvPktCheck o' stats ⟨b, addr, ttl⟩
      bits b = rrepDiagram flags prefix_sz hop_count dest dseq orig life ∧ c.2.2 = true ∧
        readRrep o' c.1.payload = ⟨2, flags, prefix_sz, hop_count, dest, dseq, orig, life⟩) ∧
    (∀ stats pkt, aodvPktGetType pkt = AODV_RREQ → (aodvPktCheck o stats pkt).2.2 = true →
      aodvPktPrepareRreq o (aodvPktCheck o stats pkt).1.payload = pkt.payload) ∧
    ∀ stats pkt, aodvPktGetType pkt = AODV_RREP → (aodvPktCheck o stats pkt).2.2 = true →
      aodvPktPrepareRrep o (aodvPktCheck o stats pkt).1.payload = pkt.payload :=
  ⟨fun o' stats addr ttl _ _ _ _ _ _ _ => built_rreq o' stats addr ttl (build_rreq_eq o ..),
    fun o' stats addr ttl _ _ _ _ _ _ _ => built_rrep o' stats addr ttl (build_rrep_eq o ..),
    fun _ _ => restored_rreq o, fun _ _ => restored_rrep o⟩

/-- A RREQ with all reserved bits set and three bytes behind it. -/
def longRreq : AodvPkt where
  payload := [1, 0xFF, 0xFF, 4] ++ (List.range 23).map (BitVec.ofNat 8)
  address := 0x0A000002
  ttl := 3

/-- It is restored on a little-endian machine. -/
theorem codec_correct_longRreq : aodvPktPrepareRreq .little
    (aodvPktCheck .little {} longRreq).1.payload = longRreq.payload :=
  (codec_correct .little).2.2.1 {} longRreq (by decide) (by decide +kernel)

end Meshias.Codec
