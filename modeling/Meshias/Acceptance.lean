import Meshias.Freshness
import Meshias.Reachable

/-!
# The acceptance of route replies

The comment in `aodv_process_rrep` lists four conditions under which the entry of the destination
is updated.  The code tests the last one, equal sequence numbers and a smaller hop count, as equal
hop counts whatever the sequence numbers are.

* `rrepDue` — the four conditions, on the table as the previous hop step leaves it.
* `RrepTaken`, `RrepLeft` — the entry is created or updated; what it says is left alone.
* `RrepsDecided` — every reply that arrives in a turn is taken exactly if it is due.
* `RrepsWellJudged` — the condition on the turn: none is one that the last test gets wrong, and a
  route that has to be created is not refused by the kernel.

Principal results: `rrepsDecided_iff`; `better_reply_rejected` — a reply with the same sequence
number over a shorter way is discarded.
-/

set_option autoImplicit false

namespace Meshias

open Machine (run)

variable {s u t : MshData}

/-! ## The property -/

/-- The conditions (i)–(iv) of the comment, for an entry that is there. -/
def RouteInfo.rrepDue (active : Bool) (rrep : AodvRrep) (j : RouteInfo) : Bool :=
  !j.seq_valid || j.dest_seq_num.slt rrep.dest_seq_num ||
    (rrep.dest_seq_num == j.dest_seq_num && !active) ||
    (rrep.dest_seq_num == j.dest_seq_num && rrep.hop_count < j.hop_count)

def rrepDue (u : MshData) (rrep : AodvRrep) : Bool :=
  match u.info rrep.dest_ip_addr with
  | none => true
  | some j => j.rrepDue (u.active rrep.dest_ip_addr) rrep

/-- What an entry says once a reply has been taken. -/
structure RouteInfo.Follows (sender : InAddr) (rrep : AodvRrep) (j : RouteInfo) : Prop where
  dest_seq_num : j.dest_seq_num = rrep.dest_seq_num
  seq_valid : j.seq_valid = true
  hop_count : j.hop_count = rrep.hop_count
  next_hop : j.next_hop = sender

/-- The entry of the destination is created or updated, and active. -/
def RrepTaken (t : MshData) (sender : InAddr) (rrep : AodvRrep) : Prop :=
  t.active rrep.dest_ip_addr = true ∧ ∃ j ∈ t.info rrep.dest_ip_addr, j.Follows sender rrep

/-- The three fields that a reply sets. -/
def RouteInfo.fields (j : RouteInfo) : U32 × U8 × InAddr := (j.dest_seq_num, j.hop_count, j.next_hop)

def RrepLeft (u t : MshData) (rrep : AodvRrep) : Prop :=
  (t.info rrep.dest_ip_addr).map RouteInfo.fields = (u.info rrep.dest_ip_addr).map RouteInfo.fields

/-- **A reply is taken if it is due, and leaves the entry alone otherwise.** -/
def RrepDecided (u t : MshData) (sender : InAddr) (rrep : AodvRrep) : Prop :=
  if rrepDue u rrep then RrepTaken t sender rrep else RrepLeft u t rrep

/-- This for the reply a turn receives, against the table behind the previous hop step. -/
def RrepsDecided (s : MshData) (i : Input) : Prop :=
  ∀ pkt ∈ receivedRrep s i,
    RrepDecided (rrepArrived (s.arrive i) pkt) (step s i) pkt.address (rrepNext pkt)

/-- The replies that the test of the hop counts gets wrong: an older one with the hop count of the
    entry; and one as fresh as an active entry, over a shorter way, or over another neighbour with
    the same hop count. -/
def rrepMisjudged (active : Bool) (sender : InAddr) (rrep : AodvRrep) (j : RouteInfo) : Bool :=
  j.seq_valid &&
    (rrep.dest_seq_num.slt j.dest_seq_num && rrep.hop_count == j.hop_count ||
      rrep.dest_seq_num == j.dest_seq_num && active &&
        (rrep.hop_count < j.hop_count || rrep.hop_count == j.hop_count && j.next_hop != sender))

/-- The reply is not misjudged, and a route that has to be created is not refused. -/
def rrepWellJudged (s : MshData) (i : Input) (pkt : AodvPkt) : Bool :=
  match s.info (rrepNext pkt).dest_ip_addr with
  | some j => !rrepMisjudged
      (s.active (rrepNext pkt).dest_ip_addr || (rrepNext pkt).dest_ip_addr = pkt.address)
      pkt.address (rrepNext pkt) j
  | none => knownOnArrival s i pkt (rrepNext pkt).dest_ip_addr || !nextRefused s i pkt

/-- The condition on one turn. -/
def RrepsWellJudged (s : MshData) (i : Input) : Prop :=
  ∀ pkt ∈ receivedRrep s i, rrepWellJudged s i pkt = true

/-! ## One entry -/

theorem slt_trichotomy (a b : U32) : a.slt b = true ∨ a = b ∨ b.slt a = true := by
  rw [BitVec.slt_eq_decide, BitVec.slt_eq_decide, decide_eq_true_eq, decide_eq_true_eq]
  rcases lt_trichotomy a.toInt b.toInt with hlt | heq | hgt
  · exact .inl hlt
  · exact .inr (.inl (BitVec.eq_of_toInt_eq heq))
  · exact .inr (.inr hgt)

theorem follows_rrepUpdate (p : InAddr) (rrep : AodvRrep) (j : RouteInfo) :
    (j.rrepUpdate p rrep).Follows p rrep := ⟨rfl, rfl, rfl, rfl⟩

section

variable {active : Bool} {p : InAddr} {rrep : AodvRrep} {j : RouteInfo}

/-- A reply that is due and rejected is over a shorter way, and the entry does not follow it. -/
theorem misjudged_of_rejected (hdue : j.rrepDue active rrep = true)
    (hrej : j.rrepUpdates active rrep = false) :
    rrepMisjudged active p rrep j = true ∧ ¬ j.Follows p rrep := by
  simp only [RouteInfo.rrepUpdates, Bool.or_eq_false_iff, Bool.not_eq_false',
    Bool.and_eq_false_iff, beq_eq_false_iff_ne] at hrej
  obtain ⟨⟨⟨hvalid, hnew⟩, hinact⟩, hhop⟩ := hrej
  simp only [RouteInfo.rrepDue, hvalid, hnew, Bool.not_true, Bool.false_or, Bool.or_eq_true,
    Bool.and_eq_true, beq_iff_eq, Bool.not_eq_true', decide_eq_true_eq] at hdue
  refine ⟨?_, fun hfol => hhop hfol.hop_count.symm⟩
  rcases hdue with ⟨heq, hoff⟩ | ⟨heq, hlt⟩
  · rcases hinact with hne | hon
    · exact absurd heq hne
    · rw [hoff] at hon
      cases hon
  · have hon : active = true := by
      rcases hinact with hne | hon
      · exact absurd heq hne
      · simpa using hon
    simp [rrepMisjudged, hvalid, heq, hon, hlt]

/-- A reply that is accepted without being due has the hop count of the entry; writing it changes
    nothing exactly if it is not misjudged. -/
theorem fields_rrepUpdate_iff (hdue : j.rrepDue active rrep = false)
    (hacc : j.rrepUpdates active rrep = true) :
    (j.rrepUpdate p rrep).fields = j.fields ↔ rrepMisjudged active p rrep j = false := by
  simp only [RouteInfo.rrepDue, Bool.or_eq_false_iff, Bool.not_eq_false',
    Bool.and_eq_false_iff, beq_eq_false_iff_ne, decide_eq_false_iff_not] at hdue
  obtain ⟨⟨⟨hvalid, hnew⟩, hinact⟩, -⟩ := hdue
  have hhop : rrep.hop_count = j.hop_count := by
    simp only [RouteInfo.rrepUpdates, hvalid, hnew, Bool.not_true, Bool.false_or, Bool.or_eq_true,
      Bool.and_eq_true, beq_iff_eq, Bool.not_eq_true'] at hacc
    rcases hacc with ⟨heq, hoff⟩ | hhop
    · rcases hinact with hne | hon
      · exact absurd heq hne
      · rw [hoff] at hon
        cases hon
    · exact hhop
  have hfields : (j.rrepUpdate p rrep).fields = (rrep.dest_seq_num, rrep.hop_count, p) := rfl
  rw [hfields, RouteInfo.fields, Prod.mk.injEq, Prod.mk.injEq]
  rcases slt_trichotomy rrep.dest_seq_num j.dest_seq_num with hold | heq | hlt
  · -- an older reply changes the sequence number
    have hne : rrep.dest_seq_num ≠ j.dest_seq_num := by
      intro hc
      rw [hc, slt_irrefl] at hold
      cases hold
    simp [rrepMisjudged, hvalid, hold, hhop, hne]
  · have hon : active = true := by
      rcases hinact with hne | hon
      · exact absurd heq hne
      · simpa using hon
    simp [rrepMisjudged, hvalid, heq, hon, hhop, slt_irrefl, @eq_comm _ p]
  · rw [hnew] at hlt
    cases hlt

/-- The test and the conditions disagree on every misjudged reply. -/
theorem disagree_of_misjudged (h : rrepMisjudged active p rrep j = true) :
    j.rrepDue active rrep ≠ j.rrepUpdates active rrep := by
  simp only [rrepMisjudged, Bool.and_eq_true, Bool.or_eq_true, beq_iff_eq, decide_eq_true_eq] at h
  obtain ⟨hvalid, ⟨hold, hhop⟩ | ⟨⟨heq, hon⟩, hlt | ⟨hhop, -⟩⟩⟩ := h
  · have hne : rrep.dest_seq_num ≠ j.dest_seq_num := by
      intro hc
      rw [hc, slt_irrefl] at hold
      cases hold
    simp [RouteInfo.rrepDue, RouteInfo.rrepUpdates, hvalid, slt_asymm hold, hne, hhop]
  · have hne : rrep.hop_count ≠ j.hop_count := by
      intro hc
      rw [hc] at hlt
      exact BitVec.lt_irrefl _ hlt
    simp [RouteInfo.rrepDue, RouteInfo.rrepUpdates, hvalid, heq, hon, slt_irrefl, hlt, hne]
  · simp [RouteInfo.rrepDue, RouteInfo.rrepUpdates, hvalid, heq, hon, slt_irrefl, hhop]

end

/-! ## One reply -/

/-- The destination of an accepted reply is in use afterwards. -/
theorem rrepTaken (h : Wf s) {i : Input} {pkt : AodvPkt} {stats : Statistics}
    (hstep : step s i = aodvProcessRrep ((s.arrive i).withStats stats) pkt)
    (hacc : rrepAcceptable s pkt = true) {j : RouteInfo}
    (hj : (step s i).info (rrepNext pkt).dest_ip_addr = some j)
    (hfol : j.Follows pkt.address (rrepNext pkt))
    (hdest : (rrepNext pkt).dest_ip_addr ∈ destActivated s i pkt) :
    RrepTaken (step s i) pkt.address (rrepNext pkt) := by
  refine ⟨?_, j, hj, hfol⟩
  rw [hstep, active_rrep i stats pkt _ h, rrepActivated, hacc]
  simp [hdest]

/-- The reply of a turn, against the entry that was there before. -/
theorem rrepDecided_of_some (h : Wf s) {i : Input} {pkt : AodvPkt} {stats : Statistics}
    (hstep : step s i = aodvProcessRrep ((s.arrive i).withStats stats) pkt) {j : RouteInfo}
    (hj : s.info (rrepNext pkt).dest_ip_addr = some j) :
    RrepDecided (rrepArrived (s.arrive i) pkt) (step s i) pkt.address (rrepNext pkt) ↔
      rrepWellJudged s i pkt = true := by
  have hwf := h.arrive i
  have hu : (rrepArrived (s.arrive i) pkt).info (rrepNext pkt).dest_ip_addr = some j := by
    rw [rrepArrived_eq]
    exact info_rreqArrived_of_some hwf pkt hj
  have hact : (rrepArrived (s.arrive i) pkt).active (rrepNext pkt).dest_ip_addr =
      (s.active (rrepNext pkt).dest_ip_addr || (rrepNext pkt).dest_ip_addr = pkt.address) := by
    rw [rrepArrived_eq]
    exact active_rreqArrived_of_some hwf pkt hj
  have ht := info_aodvProcessRrep_of_some (hwf.withStats stats) pkt hj
  have hacceptable : rrepAcceptable ((s.arrive i).withStats stats) pkt = rrepAcceptable s pkt := rfl
  have hupd : rrepAcceptable s pkt = j.rrepUpdates
      (s.active (rrepNext pkt).dest_ip_addr || (rrepNext pkt).dest_ip_addr = pkt.address)
      (rrepNext pkt) := by
    rw [rrepAcceptable, hj]
  rw [← hstep, hacceptable] at ht
  have hdueEq : rrepDue (rrepArrived (s.arrive i) pkt) (rrepNext pkt) = j.rrepDue
      (s.active (rrepNext pkt).dest_ip_addr || (rrepNext pkt).dest_ip_addr = pkt.address)
      (rrepNext pkt) := by
    rw [rrepDue, hu, ← hact]
  rw [RrepDecided, hdueEq, rrepWellJudged, hj, Bool.not_eq_true']
  cases hdue : j.rrepDue
    (s.active (rrepNext pkt).dest_ip_addr || (rrepNext pkt).dest_ip_addr = pkt.address)
    (rrepNext pkt) <;>
  cases hacc : j.rrepUpdates
    (s.active (rrepNext pkt).dest_ip_addr || (rrepNext pkt).dest_ip_addr = pkt.address)
    (rrepNext pkt)
  · -- neither: the entry stays
    rw [hupd, hacc, if_neg (by simp)] at ht
    refine iff_of_true ?_ ?_
    · rw [if_neg Bool.false_ne_true, RrepLeft, ht, hu]
    · rw [Bool.eq_false_iff]
      exact fun hmis => disagree_of_misjudged hmis (by rw [hdue, hacc])
  · -- accepted without being due
    rw [hupd, hacc, if_pos ⟨rfl, rfl⟩] at ht
    rw [if_neg Bool.false_ne_true, RrepLeft, ht, hu, ← fields_rrepUpdate_iff hdue hacc]
    simp
  · -- due and rejected
    obtain ⟨hmis, hnot⟩ := misjudged_of_rejected (p := pkt.address) hdue hacc
    rw [hupd, hacc, if_neg (by simp)] at ht
    refine iff_of_false ?_ (by rw [hmis]; exact Bool.noConfusion)
    rw [if_pos rfl]
    rintro ⟨-, j', hj', hfol⟩
    rw [Option.mem_def, ht] at hj'
    obtain rfl := Option.some.inj hj'
    exact hnot hfol
  · -- due and accepted
    rw [hupd, hacc, if_pos ⟨rfl, rfl⟩] at ht
    refine iff_of_true ?_ ?_
    · rw [if_pos rfl]
      refine rrepTaken h hstep (hupd.trans hacc) ht (follows_rrepUpdate _ _ _) ?_
      rw [destActivated, knownOnArrival, hj]
      simp
    · rw [Bool.eq_false_iff]
      exact fun hmis => disagree_of_misjudged hmis (by rw [hdue, hacc])

/-- The reply of a turn for a destination without an entry. -/
theorem rrepDecided_of_none (h : Wf s) {i : Input} {pkt : AodvPkt} {stats : Statistics}
    (hstep : step s i = aodvProcessRrep ((s.arrive i).withStats stats) pkt)
    (hnone : s.info (rrepNext pkt).dest_ip_addr = none) :
    RrepDecided (rrepArrived (s.arrive i) pkt) (step s i) pkt.address (rrepNext pkt) ↔
      rrepWellJudged s i pkt = true := by
  have hwf := (h.arrive i).withStats stats
  have hdue : rrepDue (rrepArrived (s.arrive i) pkt) (rrepNext pkt) = true := by
    rw [rrepDue, rrepArrived_eq, info_rreqArrived pkt (h.arrive i)]
    split
    · rfl
    · rename_i j hj
      split at hj
      · obtain rfl := Option.some.inj hj
        rfl
      · rw [show (s.arrive i).info (rrepNext pkt).dest_ip_addr = none from hnone] at hj
        cases hj
  have hacc : rrepAcceptable s pkt = true := by rw [rrepAcceptable, hnone]
  have hinfo : (step s i).info (rrepNext pkt).dest_ip_addr =
      (rrepUpdated ((s.arrive i).withStats stats) pkt).info (rrepNext pkt).dest_ip_addr := by
    rw [hstep, info_aodvProcessRrep pkt hwf, rrepAccepted_eq hwf, if_pos]
    exact hacc
  have hknown := isSome_rreqArrived h i stats pkt (rrepNext pkt).dest_ip_addr
  rw [info_rrepUpdated pkt hwf, if_pos rfl, nextRefused_eq h] at hinfo
  rw [RrepDecided, if_pos hdue, rrepWellJudged, hnone, Bool.or_eq_true, Bool.not_eq_true']
  cases hu : (rreqArrived ((s.arrive i).withStats stats) pkt).info (rrepNext pkt).dest_ip_addr with
  | some j =>
    rw [hu] at hinfo hknown
    refine iff_of_true (rrepTaken h hstep hacc hinfo (follows_rrepUpdate _ _ _) ?_)
      (.inl hknown.symm)
    simp [destActivated, ← hknown]
  | none =>
    rw [hu] at hinfo hknown
    rw [← hknown]
    cases href : nextRefused s i pkt with
    | true =>
      rw [href] at hinfo
      refine iff_of_false ?_ (by simp)
      rintro ⟨-, j, hj, -⟩
      rw [Option.mem_def, hinfo] at hj
      cases hj
    | false =>
      rw [href] at hinfo
      refine iff_of_true (rrepTaken h hstep hacc hinfo ⟨rfl, rfl, rfl, rfl⟩ ?_) (.inr rfl)
      simp [destActivated, href]

/-- **One turn.** -/
theorem rrepsDecided_step_iff (h : Wf s) (i : Input) : RrepsDecided s i ↔ RrepsWellJudged s i := by
  cases hpkt : receivedRrep s i with
  | none => simp [RrepsDecided, RrepsWellJudged, hpkt]
  | some pkt =>
    obtain ⟨stats, hstep⟩ := step_of_receivedRrep hpkt
    simp only [RrepsDecided, RrepsWellJudged, hpkt, Option.mem_def, Option.some.injEq, forall_eq']
    cases hj : s.info (rrepNext pkt).dest_ip_addr with
    | some j => exact rrepDecided_of_some h hstep hj
    | none => exact rrepDecided_of_none h hstep hj

/-- **A reply is taken exactly if it is due**, in every state the daemon can reach, if and only if
    it is not one that the test of the hop counts gets wrong. -/
theorem rrepsDecided_iff (ip bcast : InAddr) (iface : U32) (is : List Input) (i : Input) :
    RrepsDecided (run step (mshDataInit ip bcast iface) is) i ↔
      RrepsWellJudged (run step (mshDataInit ip bcast iface) is) i :=
  rrepsDecided_step_iff (wf_run ip bcast iface is) i

/-- Node 10.0.0.1 has received a reply of 10.0.0.9, four hops away over 10.0.0.2. -/
def longWay : List Input :=
  [⟨0, [], [], datagramFrom 0x0A000002 61 (aodvPktBuildRrep 0 0 3 0x0A000009 5 0x0A000001 6000)⟩]

/-- The same reply arrives over 10.0.0.3, from where it is two hops. -/
def shortWay : Input :=
  ⟨100000, [], [], datagramFrom 0x0A000003 63 (aodvPktBuildRrep 0 0 1 0x0A000009 5 0x0A000001 6000)⟩

/-- **The better reply is rejected.** -/
theorem better_reply_rejected :
    ¬ ∀ (ip bcast : InAddr) (iface : U32) (is : List Input) (i : Input),
      RrepsDecided (run step (mshDataInit ip bcast iface) is) i := by
  intro hall
  have hjudged := (rrepsDecided_step_iff (wf_run _ _ _ longWay) shortWay).1
    (hall 0x0A000001 0x0A0000FF 0 longWay shortWay)
  exact absurd hjudged (by unfold RrepsWellJudged; decide +kernel)

end Meshias
