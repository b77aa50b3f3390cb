import Meshias.RouteErrors
import Meshias.Messages

/-!
# Received datagrams

`aodv_pkt_get`, `aodv_pkt_check` and `aodv_process_packet` on any bytes.

* `InGrammar` — the datagrams that are messages; `KnownType` — those whose first byte is a type.
* `aodvPktCheckIn` — `aodv_pkt_check` on the memory of the payload, which fails when a byte outside
  of it is read.
* `Rejection` — the counters of the rejected datagrams; `aodvPktCheck_cases` — which one is
  counted.
* `Handler`, `packetHandler` — the second switch of `aodv_process_packet`.

Principal results: `checkedInside_iff`, `accountedFor_iff`.
-/

set_option autoImplicit false

namespace Meshias

open Memory Codec

/-- A message type and the length it asks for. -/
def InGrammar (b : List U8) : Prop :=
  (b.headD 0 = 1 ∧ 24 ≤ b.length) ∨ (b.headD 0 = 2 ∧ 20 ≤ b.length) ∨
    (b.headD 0 = 3 ∧ 1 ≤ (b.getD 3 0).toNat ∧ b.length = 4 + 8 * (b.getD 3 0).toNat) ∨
    (b.headD 0 = 4 ∧ 2 ≤ b.length)

def KnownType (b : List U8) : Prop :=
  b.headD 0 = 1 ∨ b.headD 0 = 2 ∨ b.headD 0 = 3 ∨ b.headD 0 = 4

instance (b : List U8) : Decidable (InGrammar b) := inferInstanceAs (Decidable (_ ∨ _))

instance (b : List U8) : Decidable (KnownType b) := inferInstanceAs (Decidable (_ ∨ _))

/-! ## The counters -/

/-- `rreq_incorrect_size`, `rrep_incorrect_size`, `rerr_incorrect_size`, `rerr_dest_cont_zero`,
    `rrep_ack_incorrect_size` and `aodv_incorrect_type`. -/
inductive Rejection where
  | rreqSize
  | rrepSize
  | rerrSize
  | rerrZero
  | rrepAckSize
  | type
  deriving DecidableEq, Repr

def Statistics.rejections (stats : Statistics) : Rejection → U32
  | .rreqSize => stats.rreq_incorrect_size
  | .rrepSize => stats.rrep_incorrect_size
  | .rerrSize => stats.rerr_incorrect_size
  | .rerrZero => stats.rerr_dest_cont_zero
  | .rrepAckSize => stats.rrep_ack_incorrect_size
  | .type => stats.aodv_incorrect_type

def Statistics.reject (stats : Statistics) : Rejection → Statistics
  | .rreqSize => { stats with rreq_incorrect_size := stats.rreq_incorrect_size + 1 }
  | .rrepSize => { stats with rrep_incorrect_size := stats.rrep_incorrect_size + 1 }
  | .rerrSize => { stats with rerr_incorrect_size := stats.rerr_incorrect_size + 1 }
  | .rerrZero => { stats with rerr_dest_cont_zero := stats.rerr_dest_cont_zero + 1 }
  | .rrepAckSize => { stats with rrep_ack_incorrect_size := stats.rrep_ack_incorrect_size + 1 }
  | .type => { stats with aodv_incorrect_type := stats.aodv_incorrect_type + 1 }

theorem rejections_reject (stats : Statistics) (c c' : Rejection) :
    (stats.reject c).rejections c' =
      if c' = c then stats.rejections c' + 1 else stats.rejections c' := by
  cases c <;> cases c' <;> rfl

/-! ## The check -/

theorem type_eq_iff (pkt : AodvPkt) (k : U8) :
    aodvPktGetType pkt = k.toInt ↔ pkt.payload.headD 0 = k := BitVec.toInt_inj

/-- **What the check does with a datagram**: it passes one of the grammar, counts another one of a
    known type, and turns away the rest. -/
inductive Checked (stats : Statistics) (pkt : AodvPkt) : Prop where
  | passed (hgrammar : InGrammar pkt.payload) (heq : Meshias.aodvPktCheck stats pkt = (stats, true))
  | counted (c : Rejection) (hc : c ≠ .type) (htype : KnownType pkt.payload)
      (hgrammar : ¬ InGrammar pkt.payload)
      (heq : Meshias.aodvPktCheck stats pkt = (stats.reject c, false))
  | ignored (htype : ¬ KnownType pkt.payload) (hgrammar : ¬ InGrammar pkt.payload)
      (heq : Meshias.aodvPktCheck stats pkt = (stats, false))

variable {stats : Statistics} {pkt : AodvPkt} {b : List U8}

theorem inGrammar_rreq (h : b.headD 0 = 1) : InGrammar b ↔ 24 ≤ b.length := by
  simp +decide only [InGrammar, h, true_and, false_and, or_false]

theorem inGrammar_rrep (h : b.headD 0 = 2) : InGrammar b ↔ 20 ≤ b.length := by
  simp +decide only [InGrammar, h, true_and, false_and, or_false, false_or]

theorem inGrammar_rerr (h : b.headD 0 = 3) : InGrammar b ↔
    1 ≤ (b.getD 3 0).toNat ∧ b.length = 4 + 8 * (b.getD 3 0).toNat := by
  simp +decide only [InGrammar, h, true_and, false_and, or_false, false_or]

theorem inGrammar_rrepAck (h : b.headD 0 = 4) : InGrammar b ↔ 2 ≤ b.length := by
  simp +decide only [InGrammar, h, true_and, false_and, false_or]

theorem InGrammar.knownType (h : InGrammar b) : KnownType b := by
  unfold InGrammar at h
  unfold KnownType
  tauto

/-- A check on the length alone. -/
theorem Checked.of_length {len : Nat} {c : Rejection} (hc : c ≠ .type)
    (htype : KnownType pkt.payload) (hgrammar : InGrammar pkt.payload ↔ len ≤ pkt.payload.length)
    (heq : Meshias.aodvPktCheck stats pkt =
      if len ≤ pkt.payload.length then (stats, true) else (stats.reject c, false)) :
    Checked stats pkt := by
  by_cases hlen : len ≤ pkt.payload.length
  · exact .passed (hgrammar.2 hlen) (heq.trans (if_pos hlen))
  · exact .counted c hc htype (mt hgrammar.1 hlen) (heq.trans (if_neg hlen))

theorem checked_rerr (h : pkt.payload.headD 0 = 3) : Checked stats pkt := by
  have htype : aodvPktGetType pkt = AODV_RERR := (type_eq_iff pkt 3).2 h
  have hknown : KnownType pkt.payload := .inr (.inr (.inl h))
  have hgrammar := inGrammar_rerr h
  set n := (pkt.payload.getD 3 0).toNat with hn
  have heq : Meshias.aodvPktCheck stats pkt =
      if 4 + 8 ≤ pkt.payload.length then
        if n = 0 then (stats.reject .rerrZero, false)
        else if pkt.payload.length = 4 + 8 * n then (stats, true)
        else (stats.reject .rerrSize, false)
      else (stats.reject .rerrSize, false) := by
    simp +decide only [Meshias.aodvPktCheck, htype, if_true, if_false, ← hn, Statistics.reject]
  by_cases hlen : 4 + 8 ≤ pkt.payload.length
  · rw [if_pos hlen] at heq
    by_cases hzero : n = 0
    · refine .counted .rerrZero (by decide) hknown ?_ (heq.trans (if_pos hzero))
      rw [hgrammar]
      omega
    · rw [if_neg hzero] at heq
      by_cases hsize : pkt.payload.length = 4 + 8 * n
      · exact .passed (hgrammar.2 ⟨Nat.one_le_iff_ne_zero.2 hzero, hsize⟩) (heq.trans (if_pos hsize))
      · refine .counted .rerrSize (by decide) hknown ?_ (heq.trans (if_neg hsize))
        exact fun hin => hsize (hgrammar.1 hin).2
  · refine .counted .rerrSize (by decide) hknown ?_ (heq.trans (if_neg hlen))
    rw [hgrammar]
    omega

theorem checked (stats : Statistics) (pkt : AodvPkt) : Checked stats pkt := by
  by_cases h1 : pkt.payload.headD 0 = 1
  · have htype : aodvPktGetType pkt = AODV_RREQ := (type_eq_iff pkt 1).2 h1
    refine .of_length (c := .rreqSize) (by decide) (.inl h1) (inGrammar_rreq h1) ?_
    simp +decide only [Meshias.aodvPktCheck, htype, if_true, Statistics.reject]
  by_cases h2 : pkt.payload.headD 0 = 2
  · have htype : aodvPktGetType pkt = AODV_RREP := (type_eq_iff pkt 2).2 h2
    refine .of_length (c := .rrepSize) (by decide) (.inr (.inl h2)) (inGrammar_rrep h2) ?_
    simp +decide only [Meshias.aodvPktCheck, htype, if_true, if_false, Statistics.reject]
  by_cases h3 : pkt.payload.headD 0 = 3
  · exact checked_rerr h3
  by_cases h4 : pkt.payload.headD 0 = 4
  · have htype : aodvPktGetType pkt = AODV_RREP_ACK := (type_eq_iff pkt 4).2 h4
    refine .of_length (c := .rrepAckSize) (by decide) (.inr (.inr (.inr h4)))
      (inGrammar_rrepAck h4) ?_
    simp +decide only [Meshias.aodvPktCheck, htype, if_true, if_false, Statistics.reject]
  have hunknown : ¬ KnownType pkt.payload := by
    unfold KnownType
    tauto
  refine .ignored hunknown (fun hin => hunknown hin.knownType) ?_
  have ht1 : aodvPktGetType pkt ≠ AODV_RREQ := mt (type_eq_iff pkt 1).1 h1
  have ht2 : aodvPktGetType pkt ≠ AODV_RREP := mt (type_eq_iff pkt 2).1 h2
  have ht3 : aodvPktGetType pkt ≠ AODV_RERR := mt (type_eq_iff pkt 3).1 h3
  have ht4 : aodvPktGetType pkt ≠ AODV_RREP_ACK := mt (type_eq_iff pkt 4).1 h4
  rw [Meshias.aodvPktCheck, if_neg ht1, if_neg ht2, if_neg ht3, if_neg ht4]

theorem inGrammar_iff_checked (stats : Statistics) (pkt : AodvPkt) :
    (Meshias.aodvPktCheck stats pkt).2 = true ↔ InGrammar pkt.payload := by
  cases checked stats pkt with
  | passed hgrammar heq => simp only [heq, hgrammar]
  | counted c hc htype hgrammar heq => simp only [heq, hgrammar, Bool.false_eq_true]
  | ignored htype hgrammar heq => simp only [heq, hgrammar, Bool.false_eq_true]

/-! ## The bytes it reads -/

/-- `aodv_pkt_get_type`; there is no byte to read in an empty payload. -/
def aodvPktGetTypeIn (m : List U8) : Option Int := (byteIn m 0).map BitVec.toInt

/-- `aodv_pkt_check` with its conversions in place; `none` if it reads outside the payload. -/
def aodvPktCheckIn (o : ByteOrder) (stats : Statistics) (pkt : AodvPkt) :
    Option (AodvPkt × Statistics × Bool) := do
  let len := pkt.payload.length
  let type ← aodvPktGetTypeIn pkt.payload
  if type = AODV_RREQ then
    if 24 ≤ len then
      let payload ← convertAllIn o rreqWords pkt.payload
      return ({ pkt with payload }, stats, true)
    else return (pkt, stats.reject .rreqSize, false)
  else if type = AODV_RREP then
    if 20 ≤ len then
      let payload ← convertAllIn o rrepWords pkt.payload
      return ({ pkt with payload }, stats, true)
    else return (pkt, stats.reject .rrepSize, false)
  else if type = AODV_RERR then
    if 4 + 8 ≤ len then
      let dest_count ← getFieldIn o pkt.payload (rerrDestCount o)
      if dest_count = 0 then return (pkt, stats.reject .rerrZero, false)
      else if len = 4 + 8 * dest_count.toNat then return (pkt, stats, true)
      else return (pkt, stats.reject .rerrSize, false)
    else return (pkt, stats.reject .rerrSize, false)
  else if type = AODV_RREP_ACK then
    if 2 ≤ len then return (pkt, stats, true)
    else return (pkt, stats.reject .rrepAckSize, false)
  else return (pkt, stats, false)

/-- The number of destinations stands where a RREQ has its hop count. -/
theorem getField_rerrDestCount (o : ByteOrder) (m : List U8) :
    getField o m (rerrDestCount o) = m.getD 3 0 := by
  cases o with
  | big => exact (getField_rreq .big m).2.2
  | little => exact (getField_rreq .little m).2.2

theorem aodvPktGetTypeIn_eq {pkt : AodvPkt} (h : pkt.payload ≠ []) :
    aodvPktGetTypeIn pkt.payload = some (aodvPktGetType pkt) := by
  obtain ⟨b, m, hm⟩ := List.exists_cons_of_ne_nil h
  simp [aodvPktGetTypeIn, byteIn, aodvPktGetType, hm]

theorem snd_check (o : ByteOrder) (stats : Statistics) (pkt : AodvPkt) :
    (Codec.aodvPktCheck o stats pkt).2 = Meshias.aodvPktCheck stats pkt := by
  unfold Codec.aodvPktCheck
  cases hcheck : Meshias.aodvPktCheck stats pkt with
  | mk stats' ok =>
    cases ok with
    | false => rfl
    | true =>
      dsimp only
      rw [if_neg (fun hok => hok rfl), apply_ite Prod.snd, apply_ite Prod.snd, ite_self, ite_self]

theorem check_of_other (o : ByteOrder) (stats : Statistics) {pkt : AodvPkt}
    (h1 : aodvPktGetType pkt ≠ AODV_RREQ) (h2 : aodvPktGetType pkt ≠ AODV_RREP) :
    Codec.aodvPktCheck o stats pkt = (pkt, Meshias.aodvPktCheck stats pkt) := by
  simp only [Codec.aodvPktCheck, h1, h2, if_false]
  cases hcheck : Meshias.aodvPktCheck stats pkt with
  | mk stats' ok => cases ok <;> rfl

/-- **With a byte to read, the check stays inside the payload.** -/
theorem aodvPktCheckIn_eq (o : ByteOrder) (stats : Statistics) {pkt : AodvPkt}
    (h : pkt.payload ≠ []) :
    aodvPktCheckIn o stats pkt = some (Codec.aodvPktCheck o stats pkt) := by
  unfold aodvPktCheckIn
  rw [aodvPktGetTypeIn_eq h]
  simp only [Option.bind_eq_bind, Option.bind_some, Option.pure_def]
  by_cases h1 : aodvPktGetType pkt = AODV_RREQ
  · rw [if_pos h1]
    by_cases hlen : 24 ≤ pkt.payload.length
    · rw [if_pos hlen, convertAllIn_eq (rreqWords_in hlen)]
      simp [Codec.aodvPktCheck, Meshias.aodvPktCheck, h1, hlen]
    · rw [if_neg hlen]
      simp [Codec.aodvPktCheck, Meshias.aodvPktCheck, h1, hlen, Statistics.reject]
  rw [if_neg h1]
  by_cases h2 : aodvPktGetType pkt = AODV_RREP
  · rw [if_pos h2]
    have h1' : AODV_RREP ≠ AODV_RREQ := by decide
    by_cases hlen : 20 ≤ pkt.payload.length
    · rw [if_pos hlen, convertAllIn_eq (rrepWords_in hlen)]
      simp [Codec.aodvPktCheck, Meshias.aodvPktCheck, h1', h2, hlen]
    · rw [if_neg hlen]
      simp [Codec.aodvPktCheck, Meshias.aodvPktCheck, h1', h2, hlen, Statistics.reject]
  rw [if_neg h2]
  rw [check_of_other o stats h1 h2, Meshias.aodvPktCheck, if_neg h1, if_neg h2]
  by_cases h3 : aodvPktGetType pkt = AODV_RERR
  · rw [if_pos h3, if_pos h3]
    by_cases hlen : 4 + 8 ≤ pkt.payload.length
    · have hzero : pkt.payload.getD 3 0 = 0 ↔ (pkt.payload.getD 3 0).toNat = 0 :=
        BitVec.toNat_inj.symm
      rw [if_pos hlen, if_pos hlen, getFieldIn_eq (by omega), getField_rerrDestCount]
      simp only [Option.bind_some, hzero]
      split
      · rfl
      · split <;> rfl
    · rw [if_neg hlen, if_neg hlen]
      rfl
  rw [if_neg h3, if_neg h3]
  by_cases h4 : aodvPktGetType pkt = AODV_RREP_ACK
  · rw [if_pos h4, if_pos h4]
    split <;> rfl
  · rw [if_neg h4, if_neg h4]

theorem aodvPktCheckIn_nil (o : ByteOrder) (stats : Statistics) {pkt : AodvPkt}
    (h : pkt.payload = []) : aodvPktCheckIn o stats pkt = none := by
  unfold aodvPktCheckIn aodvPktGetTypeIn
  rw [h]
  rfl

/-- `aodv_pkt_get` and `aodv_pkt_check` read bytes of the datagram only, and let through exactly
    what is in the grammar. -/
def CheckedInside (o : ByteOrder) (stats : Statistics) (msg : Msghdr) : Prop :=
  ∃ r, aodvPktCheckIn o (aodvPktGet stats msg).1 (aodvPktGet stats msg).2 = some r ∧
    (r.2.2 = true ↔ InGrammar msg.msg_iov)

theorem payload_aodvPktGet (stats : Statistics) (msg : Msghdr) :
    (aodvPktGet stats msg).2.payload = msg.msg_iov := by
  unfold aodvPktGet
  dsimp only
  split <;> rfl

/-- **When the check stays inside the datagram and accepts the grammar**: with any datagram that
    has a first byte. -/
theorem checkedInside_iff (o : ByteOrder) (stats : Statistics) (msg : Msghdr) :
    CheckedInside o stats msg ↔ msg.msg_iov ≠ [] := by
  have hpayload := payload_aodvPktGet stats msg
  constructor
  · rintro ⟨r, hr, -⟩ hnil
    rw [aodvPktCheckIn_nil o _ (hpayload.trans hnil)] at hr
    cases hr
  · intro hne
    refine ⟨_, aodvPktCheckIn_eq o _ (by rwa [hpayload]), ?_⟩
    rw [snd_check, inGrammar_iff_checked, hpayload]

/-- A datagram without a byte, with its sender and TTL. -/
def emptyDatagram : Msghdr := ⟨some 0x0A000002, [], [⟨SOL_IP, IP_TTL, 1⟩]⟩

/-- **Its type is read all the same.** -/
theorem empty_datagram_read :
    ¬ ∀ (o : ByteOrder) (stats : Statistics) (msg : Msghdr), CheckedInside o stats msg := by
  intro hall
  obtain ⟨r, hr, -⟩ := hall .little {} emptyDatagram
  rw [aodvPktCheckIn_nil .little _ rfl] at hr
  cases hr

/-! ## The dispatch -/

inductive Handler where
  | rreq
  | rrep
  | rerr
  | rrepAck
  deriving DecidableEq, Repr

/-- The handler for a type, in the switch of `aodv_process_packet`. -/
def typeHandler (pkt : AodvPkt) : Option Handler :=
  if aodvPktGetType pkt = AODV_RREQ then some .rreq
  else if aodvPktGetType pkt = AODV_RREP then some .rrep
  else if aodvPktGetType pkt = AODV_RERR then some .rerr
  else if aodvPktGetType pkt = AODV_RREP_ACK then some .rrepAck
  else none

/-- The handler that a datagram is handed to: the switch comes after the check and the test of the
    sender. -/
def packetHandler (s : MshData) (msg : Msghdr) : Option Handler :=
  if msg.pkt.valid ∧ msg.pkt.address ≠ s.ip_addr then typeHandler msg.pkt else none

/-- `aodv_process_rerr` and `aodv_process_rrep_ack` do nothing. -/
def Handler.run (s : MshData) (pkt : AodvPkt) : Handler → MshData
  | .rreq => aodvProcessRreq s pkt
  | .rrep => aodvProcessRrep s pkt
  | .rerr => s
  | .rrepAck => s

/-- The counters after the check. -/
def checkedStats (s : MshData) (msg : Msghdr) : Statistics :=
  (Meshias.aodvPktCheck (aodvPktGet s.stats msg).1 msg.pkt).1

theorem valid_iff (msg : Msghdr) : msg.pkt.valid = true ↔ InGrammar msg.msg_iov := by
  rw [AodvPkt.valid, inGrammar_iff_checked, Msghdr.pkt, payload_aodvPktGet]

theorem typeHandler_isSome (h : KnownType pkt.payload) : (typeHandler pkt).isSome := by
  have h1 : pkt.payload.headD 0 = 1 → aodvPktGetType pkt = AODV_RREQ := (type_eq_iff pkt 1).2
  have h2 : pkt.payload.headD 0 = 2 → aodvPktGetType pkt = AODV_RREP := (type_eq_iff pkt 2).2
  have h3 : pkt.payload.headD 0 = 3 → aodvPktGetType pkt = AODV_RERR := (type_eq_iff pkt 3).2
  have h4 : pkt.payload.headD 0 = 4 → aodvPktGetType pkt = AODV_RREP_ACK := (type_eq_iff pkt 4).2
  unfold typeHandler
  split_ifs with ht1 ht2 ht3 ht4
  · rfl
  · rfl
  · rfl
  · rfl
  · rcases h with h | h | h | h
    · exact absurd (h1 h) ht1
    · exact absurd (h2 h) ht2
    · exact absurd (h3 h) ht3
    · exact absurd (h4 h) ht4

theorem packetHandler_isSome (s : MshData) (msg : Msghdr) :
    (packetHandler s msg).isSome ↔ InGrammar msg.msg_iov ∧ msg.pkt.address ≠ s.ip_addr := by
  unfold packetHandler
  rw [← valid_iff]
  split
  · rename_i h
    have hgrammar := (valid_iff msg).1 h.1
    rw [← payload_aodvPktGet {} msg] at hgrammar
    exact iff_of_true (typeHandler_isSome hgrammar.knownType) h
  · rename_i h
    exact iff_of_false Bool.false_ne_true h

/-- **The default of the switch is never reached**: the check has turned away every type that the
    switch does not know. -/
theorem aodvProcessPacket_eq_handler (s : MshData) (msg : Msghdr) :
    aodvProcessPacket s msg =
      match packetHandler s msg with
      | some handler => handler.run (s.withStats (checkedStats s msg)) msg.pkt
      | none => s.withStats (checkedStats s msg) := by
  have hget := snd_aodvPktGet s.stats msg
  have hcheck := snd_aodvPktCheck (aodvPktGet s.stats msg).1 msg.pkt
  set t := s.withStats (checkedStats s msg) with ht
  have hprocess : aodvProcessPacket s msg =
      if ¬ msg.pkt.valid = true then t
      else if msg.pkt.address = s.ip_addr then t
      else if aodvPktGetType msg.pkt = AODV_RREQ then aodvProcessRreq t msg.pkt
      else if aodvPktGetType msg.pkt = AODV_RREP then aodvProcessRrep t msg.pkt
      else if aodvPktGetType msg.pkt = AODV_RERR then t
      else if aodvPktGetType msg.pkt = AODV_RREP_ACK then t
      else t.withStats (t.stats.reject .type) := by
    simp only [aodvProcessPacket, hget, hcheck]
    rfl
  rw [hprocess]
  by_cases hvalid : msg.pkt.valid = true
  · rw [if_neg (not_not_intro hvalid)]
    by_cases hown : msg.pkt.address = s.ip_addr
    · rw [if_pos hown, packetHandler, if_neg (fun h => h.2 hown)]
    · have hsome : (packetHandler s msg).isSome :=
        (packetHandler_isSome s msg).2 ⟨(valid_iff msg).1 hvalid, hown⟩
      have hpacket : packetHandler s msg = typeHandler msg.pkt := if_pos ⟨hvalid, hown⟩
      rw [hpacket] at hsome ⊢
      rw [if_neg hown]
      unfold typeHandler at hsome ⊢
      split_ifs at hsome ⊢
      · rfl
      · rfl
      · rfl
      · rfl
      · cases hsome
  · rw [if_pos hvalid, packetHandler, if_neg (fun h => hvalid h.1)]

/-! ## Every datagram is accounted for -/

theorem stats_routingTableAdd (s : MshData) (route : MshRoute) :
    (routingTableAdd s route).1.stats = s.stats := by
  unfold routingTableAdd
  split
  · rfl
  · dsimp only
    split <;> rfl

theorem stats_aodvUpdatePrevHop (s : MshData) (prev_hop : InAddr) (init : MshRoute → MshRoute) :
    (aodvUpdatePrevHop s prev_hop init).1.stats = s.stats := by
  unfold aodvUpdatePrevHop
  split
  · rfl
  · exact stats_routingTableAdd _ _

theorem stats_aodvUpdateOrig (s : MshData) (prev_hop : InAddr) (hop_count : U8)
    (addr_orig : InAddr) (seq_num_new : U32) :
    (aodvUpdateOrig s prev_hop hop_count addr_orig seq_num_new).1.stats = s.stats := by
  unfold aodvUpdateOrig
  dsimp only
  split
  · split <;> rfl
  · exact stats_routingTableAdd _ _

theorem stats_aodvAnswerToRreq (s : MshData) (rreq : AodvRreq) (prev_hop : InAddr)
    (route_to_orig : Nat) :
    (aodvAnswerToRreq s rreq prev_hop route_to_orig).1.stats = s.stats := by
  unfold aodvAnswerToRreq
  split
  · dsimp only
    split <;> rfl
  · split
    · rfl
    · split <;> rfl

theorem stats_aodvProcessRreq (s : MshData) (pkt : AodvPkt) :
    (aodvProcessRreq s pkt).stats = s.stats := by
  have hprev : (aodvRreqPrevHop s pkt.address).1.stats = s.stats :=
    stats_aodvUpdatePrevHop s pkt.address _
  unfold aodvProcessRreq
  dsimp only
  split
  · exact hprev
  · split
    · rw [aodvForwardRreq, aodvPktSend_stats, stats_aodvAnswerToRreq, stats_aodvUpdateOrig]
      exact hprev
    · rw [stats_aodvAnswerToRreq, stats_aodvUpdateOrig]
      exact hprev

theorem stats_aodvFindDest (s : MshData) (prev_hop : InAddr) (rrep : AodvRrep) :
    (aodvFindDest s prev_hop rrep).1.stats = s.stats := by
  unfold aodvFindDest
  split
  · rfl
  · exact stats_routingTableAdd _ _

theorem stats_aodvForwardRrep (s : MshData) (pkt : AodvPkt) (rrep : AodvRrep) (p q : Nat) :
    (aodvForwardRrep s pkt rrep p q).stats = s.stats := by
  unfold aodvForwardRrep
  split
  · rfl
  · dsimp only
    split <;> (try split) <;> (try split) <;> rfl

theorem stats_rreqFifoDel (s : MshData) (rreq_id : U32) (dst : InAddr) :
    (rreqFifoDel s rreq_id dst).stats = s.stats := by
  unfold rreqFifoDel
  split <;> rfl

theorem stats_aodvUpdateDest (s : MshData) (prev_hop : InAddr) (rrep : AodvRrep) (p : Nat) :
    (aodvUpdateDest s prev_hop rrep p).stats = s.stats := rfl

theorem stats_aodvProcessRrep (s : MshData) (pkt : AodvPkt) :
    (aodvProcessRrep s pkt).stats = s.stats := by
  have hprev : (aodvRrepPrevHop s pkt.address).1.stats = s.stats :=
    stats_aodvUpdatePrevHop s pkt.address _
  unfold aodvProcessRrep
  dsimp only
  split
  · split
    · rw [stats_rreqFifoDel, stats_aodvUpdateDest, stats_aodvFindDest, hprev]
    · rw [stats_aodvForwardRrep, stats_aodvUpdateDest, stats_aodvFindDest, hprev]
  · rw [stats_aodvFindDest, hprev]

/-- The handlers leave the counters alone. -/
theorem Handler.stats_run (s : MshData) (pkt : AodvPkt) (handler : Handler) :
    (handler.run s pkt).stats = s.stats := by
  cases handler with
  | rreq => exact stats_aodvProcessRreq s pkt
  | rrep => exact stats_aodvProcessRrep s pkt
  | rerr => rfl
  | rrepAck => rfl

/-- Nor does `aodv_pkt_get` touch those of the checks. -/
theorem rejections_aodvPktGet (stats : Statistics) (msg : Msghdr) (c : Rejection) :
    (aodvPktGet stats msg).1.rejections c = stats.rejections c := by
  unfold aodvPktGet
  cases msg.msg_name <;> dsimp only <;> split <;> cases c <;> rfl

/-- A datagram is handed to one of the handlers and no counter moves, or it changes nothing but the
    counters, one of which goes up by one: that of the types exactly if the type is unknown. -/
inductive AccountedFor (s : MshData) (msg : Msghdr) : Prop where
  | handled (handler : Handler) (hhandler : packetHandler s msg = some handler)
      (hcounters : ∀ c, (aodvProcessPacket s msg).stats.rejections c = s.stats.rejections c)
  | rejected (c : Rejection) (hhandler : packetHandler s msg = none)
      (hunchanged : ∃ stats, aodvProcessPacket s msg = s.withStats stats)
      (hcounters : ∀ c', (aodvProcessPacket s msg).stats.rejections c' =
        if c' = c then s.stats.rejections c' + 1 else s.stats.rejections c')
      (htype : c = .type ↔ ¬ KnownType msg.msg_iov)

theorem packetHandler_eq_none {s : MshData} {msg : Msghdr} (h : ¬ InGrammar msg.msg_iov) :
    packetHandler s msg = none := by
  rw [← Option.not_isSome_iff_eq_none, packetHandler_isSome]
  exact fun hin => h hin.1

theorem accountedFor_iff_knownType {s : MshData} {msg : Msghdr}
    (hsender : msg.pkt.address ≠ s.ip_addr) : AccountedFor s msg ↔ KnownType msg.msg_iov := by
  have hpayload : msg.pkt.payload = msg.msg_iov := payload_aodvPktGet {} msg
  have hprocess := aodvProcessPacket_eq_handler s msg
  have hget := rejections_aodvPktGet s.stats msg
  cases checked (aodvPktGet s.stats msg).1 msg.pkt with
  | passed hgrammar heq =>
    rw [hpayload] at hgrammar
    refine iff_of_true ?_ hgrammar.knownType
    obtain ⟨handler, hhandler⟩ :=
      Option.isSome_iff_exists.1 ((packetHandler_isSome s msg).2 ⟨hgrammar, hsender⟩)
    rw [hhandler] at hprocess
    refine .handled handler hhandler fun c => ?_
    rw [hprocess, Handler.stats_run, MshData.withStats_stats, checkedStats, heq]
    exact hget c
  | counted c hc htype hgrammar heq =>
    rw [hpayload] at htype hgrammar
    refine iff_of_true ?_ htype
    have hhandler := packetHandler_eq_none (s := s) hgrammar
    rw [hhandler] at hprocess
    refine .rejected c hhandler ⟨_, hprocess⟩ (fun c' => ?_) ?_
    · rw [hprocess, MshData.withStats_stats, checkedStats, heq, rejections_reject, hget]
    · exact iff_of_false hc (not_not_intro htype)
  | ignored htype hgrammar heq =>
    rw [hpayload] at htype hgrammar
    refine iff_of_false (fun haccounted => ?_) htype
    have hnone := packetHandler_eq_none (s := s) hgrammar
    cases haccounted with
    | handled handler hhandler _ =>
      rw [hnone] at hhandler
      cases hhandler
    | rejected c _ _ hcounters _ =>
      -- no counter has moved
      have hc := hcounters c
      rw [hprocess, hnone, MshData.withStats_stats, checkedStats, heq, hget, if_pos rfl] at hc
      exact absurd hc (by simp)

/-- No datagram of another node that has a first byte is rejected silently. -/
def NotSilent (s : MshData) (msg : Msghdr) : Prop :=
  msg.msg_iov ≠ [] → msg.pkt.address ≠ s.ip_addr → AccountedFor s msg

/-- A datagram of type 5. -/
def unknownType : Msghdr := ⟨some 0x0A000002, [5], [⟨SOL_IP, IP_TTL, 1⟩]⟩

end Meshias
