import Meshias.Acceptance
import Meshias.Lib.SerialNumbers

/-!
# Sequence numbers that roll over

The handlers compare the two numbers as signed ones, not their difference with zero.

* `RollsOver` — of two numbers less than half way round apart the one ahead is taken over, and the
  one behind is not.
* `NumbersRoll` — this for the RREQ or RREP of a turn and a valid number in the table.
* `NumbersCompare` — the condition: the signed values of the two numbers do not go round.

Principal result: `numbersRoll_iff`.
-/

set_option autoImplicit false

namespace Meshias

open Machine (run)
open SerialNumbers (SameHalf)

variable {s : MshData} {i : Input}

/-! ## Two numbers -/

/-- What becomes of the stored number when a message carries another one.  `elsewise` is another
    reason to take over the number that is carried. -/
def RollsOver (stored carried : U32) (after : Option U32) (elsewise : Prop) : Prop :=
  ∀ k : Nat, 0 < k → k < 2 ^ 31 →
    (carried = stored + BitVec.ofNat 32 k → after = some carried) ∧
      (carried = stored - BitVec.ofNat 32 k → ¬ elsewise → after = some stored)

/-- **A number taken over if the signed comparison says so**, or for the other reason. -/
theorem rollsOver_iff {stored carried : U32} {takes : Bool} {elsewise : Prop}
    (htakes : carried ≠ stored → (takes = true ↔ stored.slt carried = true ∨ elsewise)) :
    RollsOver stored carried (some (if takes then carried else stored)) elsewise ↔
      SameHalf stored carried ∨ elsewise := by
  have hne : ∀ {k : Nat}, 0 < k → k < 2 ^ 31 →
      (carried = stored + BitVec.ofNat 32 k ∨ carried = stored - BitVec.ofNat 32 k) →
        carried ≠ stored := by
    intro k hpos hk hcarried heq
    rw [heq] at hcarried
    rcases hcarried with h | h <;> bv_omega
  constructor
  · intro hrolls
    by_contra hneither
    obtain ⟨hround, helse⟩ := not_or.1 hneither
    obtain ⟨k, hpos, hk, hcarried⟩ := SerialNumbers.ahead_or_behind hround
    have hk31 : k < 2 ^ 31 := by omega
    have hdiff := hne hpos hk31 hcarried
    rcases hcarried with hahead | hbehind
    · -- the number ahead is smaller, and is not taken
      have hslt := (SerialNumbers.slt_add_iff hpos hk stored).not.2 (by rwa [← hahead])
      rw [← hahead] at hslt
      have hafter := (hrolls k hpos hk31).1 hahead
      rw [if_neg fun hc => ((htakes hdiff).1 hc).elim hslt helse] at hafter
      exact hdiff (Option.some.inj hafter).symm
    · -- the number behind is greater, and is taken
      have hslt := (SerialNumbers.slt_sub_iff hpos hk stored).not.2 (by rwa [← hbehind])
      rw [← hbehind, Bool.not_eq_false] at hslt
      have hafter := (hrolls k hpos hk31).2 hbehind helse
      rw [if_pos ((htakes hdiff).2 (.inl hslt))] at hafter
      exact hdiff (Option.some.inj hafter)
  · rintro hor k hpos hk
    have hk' : 2 * k < 2 ^ 32 := by omega
    refine ⟨fun hahead => ?_, fun hbehind helse => ?_⟩
    · have hslt : stored.slt carried = true ∨ elsewise := by
        refine hor.imp_left fun hhalf => ?_
        rw [hahead] at hhalf ⊢
        exact (SerialNumbers.slt_add_iff hpos hk' stored).2 hhalf
      rw [if_pos ((htakes (hne hpos hk (.inl hahead))).2 hslt)]
    · have hslt : stored.slt carried = false := by
        have hhalf := hor.resolve_right helse
        rw [hbehind] at hhalf ⊢
        exact (SerialNumbers.slt_sub_iff hpos hk' stored).2 hhalf
      have hnot : ¬ takes = true := fun hc =>
        ((htakes (hne hpos hk (.inr hbehind))).1 hc).elim
          (by rw [hslt]; exact Bool.false_ne_true) helse
      rw [if_neg hnot]

/-! ## The messages of a turn -/

def MshData.storedNumber (s : MshData) (d : InAddr) : Option U32 := (s.info d).map (·.dest_seq_num)

/-- The originator's number in a RREQ that is not discarded, and the destination's in a RREP.  A
    RREP with the hop count of the entry is taken whatever its number is. -/
def NumbersRoll (s : MshData) (i : Input) : Prop :=
  (∀ pkt ∈ receivedRreq s i, rreqDuplicate s pkt = false →
    ∀ j ∈ s.info (rreqOfPayload pkt.payload).orig_ip_addr, j.seq_valid = true →
      RollsOver j.dest_seq_num (rreqOfPayload pkt.payload).orig_seq_num
        ((step s i).storedNumber (rreqOfPayload pkt.payload).orig_ip_addr) False) ∧
  ∀ pkt ∈ receivedRrep s i, ∀ j ∈ s.info (rrepNext pkt).dest_ip_addr, j.seq_valid = true →
    RollsOver j.dest_seq_num (rrepNext pkt).dest_seq_num
      ((step s i).storedNumber (rrepNext pkt).dest_ip_addr)
      ((rrepNext pkt).hop_count = j.hop_count)

/-- The two numbers are no further apart than half way round as signed values, or the hop counts
    are equal. -/
def NumbersCompare (s : MshData) (i : Input) : Prop :=
  (∀ pkt ∈ receivedRreq s i, rreqDuplicate s pkt = false →
    ∀ j ∈ s.info (rreqOfPayload pkt.payload).orig_ip_addr, j.seq_valid = true →
      SameHalf j.dest_seq_num (rreqOfPayload pkt.payload).orig_seq_num) ∧
  ∀ pkt ∈ receivedRrep s i, ∀ j ∈ s.info (rrepNext pkt).dest_ip_addr, j.seq_valid = true →
    SameHalf j.dest_seq_num (rrepNext pkt).dest_seq_num ∨
      (rrepNext pkt).hop_count = j.hop_count

/-- The number after a RREQ. -/
theorem storedNumber_rreq (h : Wf s) {pkt : AodvPkt} (hpkt : receivedRreq s i = some pkt)
    (hnew : rreqDuplicate s pkt = false) {j : RouteInfo}
    (hj : s.info (rreqOfPayload pkt.payload).orig_ip_addr = some j) :
    (step s i).storedNumber (rreqOfPayload pkt.payload).orig_ip_addr =
      some (if j.dest_seq_num.slt (rreqOfPayload pkt.payload).orig_seq_num then
        (rreqOfPayload pkt.payload).orig_seq_num else j.dest_seq_num) := by
  obtain ⟨stats, hstep⟩ := step_of_receivedRreq hpkt
  have hinfo := info_aodvProcessRreq_of_some ((h.arrive i).withStats stats) pkt hj
  rw [← hstep, rreqDuplicate_arrive, if_pos ⟨hnew, rfl⟩] at hinfo
  rw [MshData.storedNumber, hinfo]
  rfl

/-- The number after a RREP. -/
theorem storedNumber_rrep (h : Wf s) {pkt : AodvPkt} (hpkt : receivedRrep s i = some pkt)
    {j : RouteInfo} (hj : s.info (rrepNext pkt).dest_ip_addr = some j) :
    (step s i).storedNumber (rrepNext pkt).dest_ip_addr =
      some (if rrepAcceptable s pkt then (rrepNext pkt).dest_seq_num else j.dest_seq_num) := by
  obtain ⟨stats, hstep⟩ := step_of_receivedRrep hpkt
  have hacceptable : rrepAcceptable ((s.arrive i).withStats stats) pkt = rrepAcceptable s pkt := rfl
  have hinfo := info_aodvProcessRrep_of_some ((h.arrive i).withStats stats) pkt hj
  rw [← hstep, hacceptable] at hinfo
  rw [MshData.storedNumber, hinfo]
  cases rrepAcceptable s pkt with
  | true => simp only [and_self, if_true, Option.map_some]; rfl
  | false => simp

/-- A RREP with another number is accepted for its number or its hop count. -/
theorem rrepAcceptable_iff {pkt : AodvPkt} {j : RouteInfo}
    (hj : s.info (rrepNext pkt).dest_ip_addr = some j) (hvalid : j.seq_valid = true)
    (hne : (rrepNext pkt).dest_seq_num ≠ j.dest_seq_num) :
    rrepAcceptable s pkt = true ↔ j.dest_seq_num.slt (rrepNext pkt).dest_seq_num = true ∨
      (rrepNext pkt).hop_count = j.hop_count := by
  simp only [rrepAcceptable, hj, RouteInfo.rrepUpdates, hvalid, beq_eq_false_iff_ne.2 hne,
    Bool.not_true, Bool.false_or, Bool.false_and, Bool.or_false, Bool.or_eq_true, beq_iff_eq]

theorem numbersRoll_step_iff (h : Wf s) (i : Input) : NumbersRoll s i ↔ NumbersCompare s i := by
  refine and_congr ?_ ?_
  · refine forall₂_congr fun pkt hpkt => forall_congr' fun hnew => forall₂_congr fun j hj =>
      forall_congr' fun _ => ?_
    rw [storedNumber_rreq h (Option.mem_def.1 hpkt) hnew (Option.mem_def.1 hj)]
    exact (rollsOver_iff fun _ => (or_iff_left id).symm).trans (or_iff_left id)
  · refine forall₂_congr fun pkt hpkt => forall₂_congr fun j hj => forall_congr' fun hvalid => ?_
    rw [storedNumber_rrep h (Option.mem_def.1 hpkt) (Option.mem_def.1 hj)]
    exact rollsOver_iff fun hne => rrepAcceptable_iff (Option.mem_def.1 hj) hvalid hne

/-- 10.0.0.8 asks with the number 2147483647. -/
def lastPositive : List Input :=
  [⟨0, [], [], datagramFrom 0x0A000002 60
    (aodvPktBuildRreq 0 1 1 0x0A000009 0 0x0A000008 0x7FFFFFFF)⟩]

/-- It asks again, with the next number. -/
def firstNegative : Input :=
  ⟨1000000, [], [], datagramFrom 0x0A000002 60
    (aodvPktBuildRreq 0 1 2 0x0A000009 0 0x0A000008 0x80000000)⟩

end Meshias
