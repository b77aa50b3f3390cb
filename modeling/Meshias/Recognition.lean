import Meshias.Daemon
import Meshias.Lib.Memory

/-!
# Recognising AODV traffic

`nfq_get_udphdr` adds the size of an IP header without options, and nothing is compared with the
size of the captured payload.

* `nfqueuePacketIsAodvIn` — `nfqueue_packet_is_aodv` with the bytes it reads, none behind the end.
* `Recognised` — the UDP header is looked for behind the IP header, if both were captured.
* `ReadInPlace` — the condition.

Principal result: `recognised_iff`.
-/

set_option autoImplicit false

namespace Meshias

open Memory (byteIn)

/-! ## The two headers -/

/-- The size of the IP header, from its IHL. -/
def headerLength (b : List U8) : Nat := 4 * ((b.getD 0 0).extractLsb' 0 4).toNat

/-- Version 4, an IHL of at least 5, no more fragments and a fragment offset of 0. -/
structure UnfragmentedIpv4 (b : List U8) : Prop where
  version : (b.getD 0 0).extractLsb' 4 4 = 4
  ihl : 20 ≤ headerLength b
  no_more : (b.getD 6 0).extractLsb' 0 6 = 0
  offset : b.getD 7 0 = 0

/-- There is no room for a UDP header behind the IP header. -/
def TooShort (b : List U8) : Prop := b.length < max 20 (headerLength b) + 8

/-- The destination port of a UDP header that starts at `off`. -/
def udpDest (b : List U8) (off : Nat) : U16 := b.getD (off + 2) 0 ++ b.getD (off + 3) 0

instance (b : List U8) : Decidable (TooShort b) := inferInstanceAs (Decidable (_ < _))

/-! ## The bytes it reads -/

/-- `nfqueue_packet_is_aodv` on a captured payload; `none` if it reads behind the end. -/
def nfqueuePacketIsAodvIn (b : List U8) : Option Bool := do
  let protocol ← byteIn b 9
  if protocol ≠ IPPROTO_UDP then return false
  let high ← byteIn b 22
  let low ← byteIn b 23
  return ((high ++ low : U16) = AODV_UDP_PORT)

theorem byteIn_of_lt {b : List U8} {i : Nat} (hi : i < b.length) :
    byteIn b i = some (b.getD i 0) := by
  rw [byteIn, List.getD_eq_getElem?_getD, List.getElem?_eq_getElem hi]
  rfl

theorem byteIn_of_le {b : List U8} {i : Nat} (hi : b.length ≤ i) : byteIn b i = none :=
  List.getElem?_eq_none hi

theorem nfqueuePacketIsAodvIn_eq (b : List U8) :
    nfqueuePacketIsAodvIn b =
      if b.length < 10 then none
      else if b.getD 9 0 ≠ IPPROTO_UDP then some false
      else if b.length < 24 then none
      else some (decide (udpDest b 20 = AODV_UDP_PORT)) := by
  unfold nfqueuePacketIsAodvIn
  by_cases hten : b.length < 10
  · rw [byteIn_of_le (by omega), if_pos hten]
    rfl
  · rw [byteIn_of_lt (by omega), if_neg hten]
    by_cases hproto : b.getD 9 0 ≠ IPPROTO_UDP
    · rw [if_pos hproto]
      exact if_pos hproto
    · rw [if_neg hproto]
      refine (if_neg hproto).trans ?_
      by_cases hports : b.length < 24
      · rw [byteIn_of_le (i := 23) (by omega), if_pos hports]
        cases byteIn b 22 <;> rfl
      · rw [byteIn_of_lt (i := 22) (by omega), byteIn_of_lt (i := 23) (by omega), if_neg hports]
        rfl

/-- Where it stays inside the payload, it is the `nfqueue_packet_is_aodv` of `manage_packet`. -/
theorem nfqueuePacketIsAodv_of_in {nfa : NfqData} {r : Bool}
    (h : nfqueuePacketIsAodvIn nfa.payload = some r) : nfqueuePacketIsAodv nfa = r := by
  rw [nfqueuePacketIsAodvIn_eq] at h
  unfold nfqueuePacketIsAodv
  split at h
  · cases h
  split at h
  · rename_i hproto
    rw [if_pos hproto]
    exact Option.some.inj h
  · rename_i hproto
    rw [if_neg hproto]
    split at h
    · cases h
    · exact Option.some.inj h

/-! ## What is recognised -/

/-- The port of the UDP header decides, if there is one in the payload. -/
def Recognised (b : List U8) : Prop :=
  (UnfragmentedIpv4 b → ¬ TooShort b →
    nfqueuePacketIsAodvIn b =
      some (decide (b.getD 9 0 = IPPROTO_UDP ∧ udpDest b (headerLength b) = AODV_UDP_PORT))) ∧
  (TooShort b → nfqueuePacketIsAodvIn b = some false)

/-- In a UDP packet bytes 22 and 23 are the AODV port just when the destination port is.  A payload
    that is too short has its protocol, and, if this is UDP, has these bytes with another value. -/
def ReadInPlace (b : List U8) : Prop :=
  (UnfragmentedIpv4 b → ¬ TooShort b → b.getD 9 0 = IPPROTO_UDP →
    (udpDest b 20 = AODV_UDP_PORT ↔ udpDest b (headerLength b) = AODV_UDP_PORT)) ∧
  (TooShort b → 10 ≤ b.length ∧
    (b.getD 9 0 = IPPROTO_UDP → 24 ≤ b.length ∧ udpDest b 20 ≠ AODV_UDP_PORT))

theorem isAodvIn_long_iff {b : List U8} (hlong : ¬ TooShort b) (off : Nat) :
    nfqueuePacketIsAodvIn b =
        some (decide (b.getD 9 0 = IPPROTO_UDP ∧ udpDest b off = AODV_UDP_PORT)) ↔
      (b.getD 9 0 = IPPROTO_UDP →
        (udpDest b 20 = AODV_UDP_PORT ↔ udpDest b off = AODV_UDP_PORT)) := by
  have hlength : 28 ≤ b.length := by
    have := Nat.not_lt.1 hlong
    omega
  have hports : ¬ b.length < 24 := by omega
  rw [nfqueuePacketIsAodvIn_eq, if_neg (by omega), if_neg hports]
  by_cases hproto : b.getD 9 0 = IPPROTO_UDP
  · simp only [hproto, ne_eq, not_true_eq_false, if_false, true_and, Option.some.injEq,
      decide_eq_decide, forall_const]
  · simp only [hproto, ne_eq, not_false_eq_true, if_true, false_and, decide_false, false_imp_iff]

theorem isAodvIn_short_iff (b : List U8) :
    nfqueuePacketIsAodvIn b = some false ↔ 10 ≤ b.length ∧
      (b.getD 9 0 = IPPROTO_UDP → 24 ≤ b.length ∧ udpDest b 20 ≠ AODV_UDP_PORT) := by
  rw [nfqueuePacketIsAodvIn_eq]
  by_cases hten : b.length < 10
  · simp only [hten, if_true, reduceCtorEq, Nat.not_le.2 hten, false_and]
  by_cases hproto : b.getD 9 0 = IPPROTO_UDP
  · by_cases hports : b.length < 24
    · simp only [hten, hproto, hports, ne_eq, not_true_eq_false, if_true, if_false, reduceCtorEq,
        Nat.not_le.2 hports, false_and, forall_const, and_false]
    · simp only [hten, hproto, hports, ne_eq, not_true_eq_false, if_false, Option.some.injEq,
        decide_eq_false_iff_not, Nat.not_lt.1 hten, Nat.not_lt.1 hports, true_and, forall_const]
  · simp only [hten, hproto, ne_eq, not_false_eq_true, if_true, if_false, Nat.not_lt.1 hten,
      false_imp_iff, and_self]

/-- **When AODV traffic is recognised**: when the bytes that the code reads are in the payload, and
    say what the bytes of the UDP header say. -/
theorem recognised_iff (b : List U8) : Recognised b ↔ ReadInPlace b :=
  and_congr
    (forall_congr' fun _ => forall_congr' fun hlong => isAodvIn_long_iff hlong (headerLength b))
    (forall_congr' fun _ => isAodvIn_short_iff b)

/-- Without options the UDP header is where the code looks for it. -/
theorem recognised_of_no_options {b : List U8} (hlength : 28 ≤ b.length)
    (hihl : headerLength b = 20) : Recognised b := by
  refine (recognised_iff b).2 ⟨fun _ _ _ => by rw [hihl], fun hshort => ?_⟩
  rw [TooShort, hihl] at hshort
  omega

/-- A UDP packet with four bytes of options, for port 654. -/
def optionsPacket : List U8 :=
  [0x46, 0, 0, 32, 0, 0, 0, 0, 64, 17, 0, 0, 10, 0, 0, 2, 10, 0, 0, 1, 1, 1, 1, 1,
    2, 142, 2, 142, 0, 8, 0, 0]

/-- **AODV traffic behind an option is not recognised.** -/
theorem option_not_recognised : ¬ ∀ b : List U8, Recognised b := by
  intro hall
  have hin := (hall optionsPacket).1 ⟨by decide, by decide, by decide, by decide⟩ (by decide)
  revert hin
  decide

end Meshias
