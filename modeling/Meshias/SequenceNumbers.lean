import Meshias.Network
import Meshias.Sending

/-!
# Nobody knows a newer sequence number than its owner

A node makes sequence numbers for its own address only; every other number in its table or in a
message it sends is a copy of one it received.  The ghost counter `seq_incs` tells how often a
node has incremented its number, so a number of `d` that is known anywhere is at most the counter
of `d`, taken as natural numbers; as long as the counter stays below 2^31 it is the sequence number
itself, and the order of the natural numbers is both orders of the 32-bit words.

* `Known` — the numbers a node may know of an address: for its own, up to its counter; for
  another, what a predicate `K` allows.
* `KnownMsg` — the numbers in a message.
* `KnowsAtMost` — the invariant of one node, kept by every turn (`KnowsAtMost.step`).

Principal results: `KnowsAtMost.step`, and for the network `knows_at_most_owner`.
-/

set_option autoImplicit false

namespace Meshias

open Network (Action)
open Machine (run StepsMeet)

variable {s t : MshData} {K : InAddr → U32 → Prop}

/-! ## One node -/

/-- `x` is a number that a node with address `own` and counter `incs` may know of `a`. -/
def Known (K : InAddr → U32 → Prop) (own : InAddr) (incs : Nat) (a : InAddr) (x : U32) : Prop :=
  if a = own then x.toNat ≤ incs else K a x

theorem Known.mono {own : InAddr} {incs incs' : Nat} {a : InAddr} {x : U32}
    (h : Known K own incs a x) (hle : incs ≤ incs') : Known K own incs' a x := by
  by_cases ha : a = own
  · rw [Known, if_pos ha] at h ⊢
    exact h.trans hle
  · rw [Known, if_neg ha] at h ⊢
    exact h

/-- The sequence numbers in a message are known. -/
structure KnownMsg (P : InAddr → U32 → Prop) (payload : List U8) : Prop where
  rreq_orig : (payload.headD 0).toInt = AODV_RREQ →
    P (rreqOfPayload payload).orig_ip_addr (rreqOfPayload payload).orig_seq_num
  rreq_dest : (payload.headD 0).toInt = AODV_RREQ →
    P (rreqOfPayload payload).dest_ip_addr (rreqOfPayload payload).dest_seq_num
  rrep_dest : (payload.headD 0).toInt = AODV_RREP →
    P (rrepOfPayload payload).dest_ip_addr (rrepOfPayload payload).dest_seq_num

theorem KnownMsg.mono {P Q : InAddr → U32 → Prop} {payload : List U8} (h : KnownMsg P payload)
    (hle : ∀ a x, P a x → Q a x) : KnownMsg Q payload :=
  ⟨fun ht => hle _ _ (h.rreq_orig ht), fun ht => hle _ _ (h.rreq_dest ht),
    fun ht => hle _ _ (h.rrep_dest ht)⟩

/-- The node's own number is its counter; its table and its messages hold known numbers. -/
structure KnowsAtMost (K : InAddr → U32 → Prop) (s : MshData) : Prop where
  own : s.seq_num = BitVec.ofNat 32 s.seq_incs
  table : ∀ a i, s.info a = some i → Known K s.ip_addr s.seq_incs a i.dest_seq_num
  sent : ∀ pkt ∈ s.os.sent, KnownMsg (Known K s.ip_addr s.seq_incs) pkt.payload

theorem KnowsAtMost.own_succ (h : KnowsAtMost K s) :
    s.seq_num + 1 = BitVec.ofNat 32 (s.seq_incs + 1) := by
  rw [h.own, BitVec.ofNat_add]
  rfl

theorem KnowsAtMost.mono {K' : InAddr → U32 → Prop} (h : KnowsAtMost K s)
    (hle : ∀ a x, K a x → K' a x) : KnowsAtMost K' s := by
  have hknown : ∀ a x, Known K s.ip_addr s.seq_incs a x → Known K' s.ip_addr s.seq_incs a x := by
    intro a x hx
    by_cases ha : a = s.ip_addr
    · rw [Known, if_pos ha] at hx ⊢
      exact hx
    · rw [Known, if_neg ha] at hx ⊢
      exact hle a x hx
  exact ⟨h.own, fun a i hi => hknown a _ (h.table a i hi),
    fun pkt hpkt => (h.sent pkt hpkt).mono hknown⟩

/-- The invariant is about these parts of the state only. -/
theorem KnowsAtMost.congr (h : KnowsAtMost K s) (hip : t.ip_addr = s.ip_addr) (hsil : Silent s t)
    (htable : ∀ a i, t.info a = some i → Known K s.ip_addr s.seq_incs a i.dest_seq_num) :
    KnowsAtMost K t := by
  refine ⟨?_, fun a i hi => ?_, fun pkt hpkt => ?_⟩
  · rw [hsil.seq_num, hsil.seq_incs]; exact h.own
  · rw [hip, hsil.seq_incs]; exact htable a i hi
  · rw [hsil.sent] at hpkt
    rw [hip, hsil.seq_incs]
    exact h.sent pkt hpkt

/-! ## Messages a node makes or passes on -/

variable {P : InAddr → U32 → Prop}

theorem knownMsg_build_rreq {flags hop : U8} {id dest dseq orig oseq : U32} (ho : P orig oseq)
    (hd : P dest dseq) : KnownMsg P (aodvPktBuildRreq flags hop id dest dseq orig oseq) := by
  refine ⟨fun _ => ?_, fun _ => ?_, fun ht => ?_⟩
  · simpa using ho
  · simpa using hd
  · rw [type_build_rreq] at ht
    exact absurd ht rreq_ne_rrep

theorem knownMsg_build_rrep {flags psz hop : U8} {dest dseq orig lifetime : U32}
    (hd : P dest dseq) : KnownMsg P (aodvPktBuildRrep flags psz hop dest dseq orig lifetime) := by
  refine ⟨fun ht => ?_, fun ht => ?_, fun _ => ?_⟩
  · rw [type_build_rrep] at ht
    exact absurd ht.symm rreq_ne_rrep
  · rw [type_build_rrep] at ht
    exact absurd ht.symm rreq_ne_rrep
  · simpa using hd

/-- A message that is passed on holds the numbers it came with. -/
theorem knownMsg_prepare_rreq {pkt : AodvPkt} (htype : aodvPktGetType pkt = AODV_RREQ)
    (h : KnownMsg P pkt.payload) : KnownMsg P (aodvPktPrepareRreq (rreqNext pkt)) := by
  have hread := rreqOfPayload_prepare (rreqNext pkt)
  refine ⟨fun _ => ?_, fun _ => ?_, fun ht => ?_⟩
  · rw [hread]; exact h.rreq_orig htype
  · rw [hread]; exact h.rreq_dest htype
  · rw [type_prepare_rreqNext, htype] at ht
    exact absurd ht rreq_ne_rrep

theorem knownMsg_prepare_rrep {pkt : AodvPkt} (htype : aodvPktGetType pkt = AODV_RREP)
    (h : KnownMsg P pkt.payload) : KnownMsg P (aodvPktPrepareRrep (rrepNext pkt)) := by
  have hread := rrepOfPayload_prepare (rrepNext pkt)
  refine ⟨fun ht => ?_, fun ht => ?_, fun _ => ?_⟩
  · rw [type_prepare_rrepNext, htype] at ht
    exact absurd ht.symm rreq_ne_rrep
  · rw [type_prepare_rrepNext, htype] at ht
    exact absurd ht.symm rreq_ne_rrep
  · rw [hread]; exact h.rrep_dest htype

/-! ## One turn -/

/-- Zero is always known: requests for an unknown number and entries for a previous hop carry it. -/
def AllowsZero (K : InAddr → U32 → Prop) : Prop := ∀ a, K a 0

theorem known_zero (hK : AllowsZero K) (own : InAddr) (incs : Nat) (a : InAddr) :
    Known K own incs a 0 := by
  unfold Known
  split
  · exact Nat.zero_le _
  · exact hK a

/-- A request of the node itself carries its next number. -/
theorem KnowsAtMost.asked (hK : AllowsZero K) (h : KnowsAtMost K s) {dest : InAddr}
    {prev_tries : Int} (hip : t.ip_addr = s.ip_addr) (hnum : t.seq_num = s.seq_num + 1)
    (hincs : t.seq_incs = s.seq_incs + 1)
    (hsent : t.os.sent = s.os.sent ++ [ownRequest s dest prev_tries])
    (htable : ∀ a i, t.info a = some i → Known K s.ip_addr s.seq_incs a i.dest_seq_num) :
    KnowsAtMost K t := by
  have hle : s.seq_incs ≤ t.seq_incs := by rw [hincs]; exact Nat.le_succ _
  have hseq : (s.seq_num + 1).toNat ≤ t.seq_incs := by
    rw [hincs, h.own_succ, BitVec.toNat_ofNat]
    exact Nat.mod_le _ _
  refine ⟨by rw [hnum, hincs, h.own_succ], fun a i hi => ?_, fun pkt hpkt => ?_⟩
  · rw [hip]
    exact (htable a i hi).mono hle
  · rw [hip]
    rw [hsent] at hpkt
    rcases List.mem_append.1 hpkt with hpkt | hpkt
    · exact (h.sent pkt hpkt).mono fun _ _ hk => hk.mono hle
    · obtain rfl := List.mem_singleton.1 hpkt
      refine knownMsg_build_rreq ?_ (known_zero hK _ _ _)
      rw [Known, if_pos rfl]
      exact hseq

theorem KnowsAtMost.originated (hK : AllowsZero K) (h : KnowsAtMost K s) {dest : InAddr}
    {prev_tries : Int} (ho : Originated s dest prev_tries t) : KnowsAtMost K t :=
  h.asked hK ho.ip_addr ho.seq_num ho.seq_incs ho.sent fun a i hi =>
    h.table a i (by rw [← info_congr ho.routing_table]; exact hi)

theorem KnowsAtMost.runAlarm (hK : AllowsZero K) (hwf : Wf s) (h : KnowsAtMost K s)
    (owner : AlarmOwner) : KnowsAtMost K (runAlarm s owner) := by
  have hrun := runAlarm_cases hwf owner
  have hip := hrun.sameNode.ip_addr
  have htable : ∀ a i, (Meshias.runAlarm s owner).info a = some i →
      Known K s.ip_addr s.seq_incs a i.dest_seq_num := by
    intro a i hi
    rcases hrun.info hwf a with heq | hnone
    · exact h.table a i (heq ▸ hi)
    · rw [hnone] at hi; exact absurd hi (by simp)
  cases hrun with
  | idle _ hsil => exact h.congr hip hsil htable
  | expired a hexp => exact h.congr hip hexp.silent htable
  | destroyed r q _ _ hdel => exact h.congr hip hdel.silent htable
  | forgotten e _ _ ht => exact h.congr hip (by rw [ht]; exact ⟨rfl, rfl, rfl⟩) htable
  | gaveUp e _ _ ht => exact h.congr hip (by rw [ht]; exact ⟨rfl, rfl, rfl⟩) htable
  | retried e _ _ hret =>
    exact h.asked hK hip hret.seq_num hret.seq_incs hret.sent htable

/-- The previous hop comes without a sequence number. -/
theorem known_rreqArrived (hK : AllowsZero K) (hwf : Wf s) (h : KnowsAtMost K s) (pkt : AodvPkt)
    {a : InAddr} {i : RouteInfo} (hi : (rreqArrived s pkt).info a = some i) :
    Known K s.ip_addr s.seq_incs a i.dest_seq_num := by
  rw [info_rreqArrived pkt hwf] at hi
  split at hi
  · obtain rfl := Option.some.inj hi
    exact known_zero hK _ _ _
  · exact h.table a i hi

theorem known_rreqReversed (hK : AllowsZero K) (hwf : Wf s) (h : KnowsAtMost K s) {pkt : AodvPkt}
    (hnew : Known K s.ip_addr s.seq_incs (rreqOfPayload pkt.payload).orig_ip_addr
      (rreqOfPayload pkt.payload).orig_seq_num)
    {a : InAddr} {i : RouteInfo} (hi : (rreqReversed s pkt).info a = some i) :
    Known K s.ip_addr s.seq_incs a i.dest_seq_num := by
  rw [info_rreqReversed pkt hwf] at hi
  split at hi
  · rename_i ha
    subst ha
    split at hi
    · rename_i j hj
      obtain rfl := Option.some.inj hi
      -- the newer of the old number and the one in the request
      simp only [RouteInfo.rreqUpdate]
      split
      · exact hnew
      · exact known_rreqArrived hK hwf h pkt hj
    · split at hi
      · exact absurd hi (by simp)
      · obtain rfl := Option.some.inj hi
        exact hnew
  · exact known_rreqArrived hK hwf h pkt hi

theorem known_rrepUpdated (hK : AllowsZero K) (hwf : Wf s) (h : KnowsAtMost K s) {pkt : AodvPkt}
    (hnew : Known K s.ip_addr s.seq_incs (rrepNext pkt).dest_ip_addr (rrepNext pkt).dest_seq_num)
    {a : InAddr} {i : RouteInfo} (hi : (rrepUpdated s pkt).info a = some i) :
    Known K s.ip_addr s.seq_incs a i.dest_seq_num := by
  rw [info_rrepUpdated pkt hwf] at hi
  split at hi
  · rename_i ha
    subst ha
    split at hi
    · obtain rfl := Option.some.inj hi
      exact hnew
    · split at hi
      · exact absurd hi (by simp)
      · obtain rfl := Option.some.inj hi
        exact hnew
  · exact known_rreqArrived hK hwf h pkt hi

theorem KnowsAtMost.rreq (hK : AllowsZero K) (hwf : Wf s) (h : KnowsAtMost K s) {pkt : AodvPkt}
    (htype : aodvPktGetType pkt = AODV_RREQ)
    (hmsg : KnownMsg (Known K s.ip_addr s.seq_incs) pkt.payload) :
    KnowsAtMost K (aodvProcessRreq s pkt) := by
  have hip := (sameNode_aodvProcessRreq hwf pkt).ip_addr
  have hinfo := info_aodvProcessRreq pkt hwf
  have harr : Silent s (rreqArrived s pkt) := (onlyTable_rreqArrived pkt hwf).silent
  have hrev : Silent s (rreqReversed s pkt) := silent_rreqReversed pkt hwf
  obtain ⟨o, heq⟩ := aodvProcessRreq_eq pkt hwf
  cases hdup : rreqDuplicate s pkt with
  | true =>
    rw [hdup, if_pos rfl] at heq hinfo
    refine h.congr hip (by rw [heq]; exact harr) fun a i hi => ?_
    exact known_rreqArrived hK hwf h pkt (by rw [← hinfo]; exact hi)
  | false =>
    rw [hdup, if_neg Bool.false_ne_true] at heq hinfo
    have htable : ∀ a i, (aodvProcessRreq s pkt).info a = some i →
        Known K s.ip_addr s.seq_incs a i.dest_seq_num := fun a i hi =>
      known_rreqReversed hK hwf h (hmsg.rreq_orig htype) (by rw [← hinfo]; exact hi)
    have hreply := (rreqReply_spec (s := rreqReversed s pkt) pkt (rreqNext pkt) pkt.address o).2.2
    rw [← heq] at hreply
    cases hreply with
    | silent _ hsil => exact h.congr hip (hrev.trans hsil) htable
    | forwarded _ _ hseq hsent =>
      refine ⟨?_, fun a i hi => ?_, fun p hp => ?_⟩
      · rw [hseq.1, hseq.2, hrev.seq_num, hrev.seq_incs]; exact h.own
      · rw [hip, hseq.2, hrev.seq_incs]; exact htable a i hi
      · rw [hip, hseq.2, hrev.seq_incs]
        rw [hsent, hrev.sent] at hp
        rcases List.mem_append.1 hp with hp | hp
        · exact h.sent p hp
        · obtain rfl := List.mem_singleton.1 hp
          exact knownMsg_prepare_rreq htype hmsg
    | answered _ hseq hsent =>
      have hown : (aodvProcessRreq s pkt).seq_num =
          BitVec.ofNat 32 (aodvProcessRreq s pkt).seq_incs ∧
          s.seq_incs ≤ (aodvProcessRreq s pkt).seq_incs := by
        rcases hseq with ⟨hn, hi⟩ | ⟨hn, hi⟩
        · rw [hn, hi, hrev.seq_num, hrev.seq_incs]; exact ⟨h.own, le_refl _⟩
        · rw [hn, hi, hrev.seq_num, hrev.seq_incs]; exact ⟨h.own_succ, Nat.le_succ _⟩
      refine ⟨hown.1, fun a i hi => ?_, fun p hp => ?_⟩
      · rw [hip]; exact (htable a i hi).mono hown.2
      · rw [hsent, hrev.sent] at hp
        rcases List.mem_append.1 hp with hp | hp
        · rw [hip]; exact (h.sent p hp).mono fun _ _ hk => hk.mono hown.2
        · obtain rfl := List.mem_singleton.1 hp
          refine knownMsg_build_rrep ?_
          rw [Known, if_pos rfl, hown.1, BitVec.toNat_ofNat]
          exact Nat.mod_le _ _

theorem KnowsAtMost.rrep (hK : AllowsZero K) (hwf : Wf s) (h : KnowsAtMost K s) {pkt : AodvPkt}
    (htype : aodvPktGetType pkt = AODV_RREP)
    (hmsg : KnownMsg (Known K s.ip_addr s.seq_incs) pkt.payload) :
    KnowsAtMost K (aodvProcessRrep s pkt) := by
  have hip := (sameNode_aodvProcessRrep hwf pkt).ip_addr
  have hinfo := info_aodvProcessRrep pkt hwf
  have hupd : Silent s (rrepUpdated s pkt) := (onlyTable_rrepUpdated pkt hwf).silent
  have htable : rrepAccepted (rreqArrived s pkt) (rrepNext pkt) = true →
      ∀ a i, (aodvProcessRrep s pkt).info a = some i →
        Known K s.ip_addr s.seq_incs a i.dest_seq_num := by
    intro hacc a i hi
    rw [if_pos hacc] at hinfo
    exact known_rrepUpdated hK hwf h (hmsg.rrep_dest htype) (by rw [← hinfo]; exact hi)
  cases rrepProcessed pkt hwf with
  | ended hacc _ ht =>
    refine h.congr hip (hupd.trans ?_) (htable hacc)
    rw [ht]
    exact ⟨rfl, rfl, rfl⟩
  | forwarded hacc _ ph d ht =>
    obtain ⟨-, -, hfwd, hseq, hincs⟩ :=
      aodvForwardRrep_spec pkt (rrepNext pkt) ph d (wf_rrepUpdated pkt hwf)
    rw [← ht] at hfwd hseq hincs
    cases hfwd with
    | silent _ hsent => exact h.congr hip (hupd.trans ⟨hsent, hseq, hincs⟩) (htable hacc)
    | forwarded horig hsent =>
      refine ⟨?_, fun a i hi => ?_, fun p hp => ?_⟩
      · rw [hseq, hincs, hupd.seq_num, hupd.seq_incs]; exact h.own
      · rw [hip, hincs, hupd.seq_incs]; exact htable hacc a i hi
      · rw [hip, hincs, hupd.seq_incs]
        rw [hsent, hupd.sent] at hp
        rcases List.mem_append.1 hp with hp | hp
        · exact h.sent p hp
        · obtain rfl := List.mem_singleton.1 hp
          exact knownMsg_prepare_rrep htype hmsg
  | refused hrej ht =>
    rw [hrej, if_neg Bool.false_ne_true] at hinfo
    refine h.congr hip (by rw [ht]; exact (onlyTable_rreqArrived pkt hwf).silent) fun a i hi => ?_
    rw [hinfo] at hi
    exact known_rreqArrived hK hwf h pkt hi

theorem KnowsAtMost.packet (hK : AllowsZero K) (hwf : Wf s) (h : KnowsAtMost K s) (nfa : NfqData) :
    KnowsAtMost K (managePacket s nfa) := by
  have hlook : ∀ orig, KnowsAtMost K (packetLookedUp s nfa orig) := by
    intro orig
    obtain ⟨hsame, hsil, -⟩ := routingTableUpdateRoute_spec hwf (nfqueuePacketGetDest nfa) orig
    exact h.congr hsame.ip_addr hsil fun a i hi =>
      h.table a i (by rw [← hsame.info hwf]; exact hi)
  -- verdicts and queued packets hold no sequence numbers
  have hsame : ∀ {u v : MshData}, KnowsAtMost K u → v.ip_addr = u.ip_addr → Silent u v →
      v.info = u.info → KnowsAtMost K v := fun hu hip hsil hinfo =>
    hu.congr hip hsil fun a i hi => hu.table a i (by rw [← hinfo]; exact hi)
  cases packetManaged hwf nfa with
  | passed _ ht => rw [ht]; exact hsame h rfl ⟨rfl, rfl, rfl⟩ rfl
  | routed orig _ _ _ ht => rw [ht]; exact hsame (hlook orig) rfl ⟨rfl, rfl, rfl⟩ rfl
  | unanswered _ _ _ ht => rw [ht]; exact hlook _
  | queued _ _ _ _ ht => rw [ht]; exact hsame (hlook 0) rfl ⟨rfl, rfl, rfl⟩ rfl
  | discovered _ _ _ _ ht =>
    have hqueued : KnowsAtMost K (packetsFifoPush (packetLookedUp s nfa 0)
        (nfqueuePacketGetId nfa) (nfqueuePacketGetDest nfa)) :=
      hsame (hlook 0) rfl ⟨rfl, rfl, rfl⟩ rfl
    rw [ht]
    exact hqueued.originated hK (originated_aodvFindRoute _ _ _)

/-- **One turn of a node.** -/
theorem KnowsAtMost.step (hK : AllowsZero K) (hwf : Wf s) (h : KnowsAtMost K s) (i : Input)
    (hmsg : ∀ pkt, s.received i = some pkt →
      KnownMsg (Known K s.ip_addr s.seq_incs) pkt.payload) : KnowsAtMost K (step s i) := by
  have hstats : ∀ stats, KnowsAtMost K ((s.arrive i).withStats stats) := fun stats =>
    ⟨h.own, h.table, h.sent⟩
  have hwf' := fun stats => (hwf.arrive i).withStats stats
  cases turn s i with
  | rreq pkt stats hpkt hstep =>
    obtain ⟨hrec, htype⟩ := receivedRreq_eq_some.1 hpkt
    rw [hstep]
    exact (hstats stats).rreq hK (hwf' stats) htype (hmsg pkt hrec)
  | rrep pkt stats hpkt hstep =>
    obtain ⟨hrec, htype⟩ := receivedRrep_eq_some.1 hpkt
    rw [hstep]
    exact (hstats stats).rrep hK (hwf' stats) htype (hmsg pkt hrec)
  | packet nfa _ hstep =>
    rw [hstep]
    exact KnowsAtMost.packet hK (hwf.arrive i) ⟨h.own, h.table, h.sent⟩ nfa
  | alarms _ hstep =>
    rw [hstep]
    exact (doAlarmRun_invariant (I := fun t => Wf t ∧ KnowsAtMost K t)
      (fun t owner ht => ⟨(runAlarm_cases ht.1 owner).wf ht.1, ht.2.runAlarm hK ht.1 owner⟩)
      ⟨hwf.arrive i, ⟨h.own, h.table, h.sent⟩⟩).2
  | quiet stats _ _ _ _ hstep => rw [hstep]; exact hstats stats

/-! ## The counter grows -/

theorem seq_incs_runAlarm (h : Wf s) (owner : AlarmOwner) :
    s.seq_incs ≤ (runAlarm s owner).seq_incs := by
  cases runAlarm_cases h owner with
  | idle _ hsil => exact hsil.seq_incs.ge
  | expired a hexp => exact hexp.silent.seq_incs.ge
  | destroyed r q _ _ hdel => exact hdel.silent.seq_incs.ge
  | forgotten e _ _ ht => rw [ht]; exact le_refl _
  | gaveUp e _ _ ht => rw [ht]; exact le_refl _
  | retried e _ _ hret => rw [hret.seq_incs]; exact Nat.le_succ _

theorem seq_incs_aodvProcessRreq (h : Wf s) (pkt : AodvPkt) :
    s.seq_incs ≤ (aodvProcessRreq s pkt).seq_incs := by
  have hrev := (silent_rreqReversed pkt h).seq_incs
  obtain ⟨o, heq⟩ := aodvProcessRreq_eq pkt h
  rw [heq]
  split
  · exact (onlyTable_rreqArrived pkt h).seq_incs.ge
  · rw [← hrev]
    cases (rreqReply_spec (s := rreqReversed s pkt) pkt (rreqNext pkt) pkt.address o).2.2 with
    | silent _ hsil => exact hsil.seq_incs.ge
    | forwarded _ _ hseq _ => exact hseq.2.ge
    | answered _ hseq _ =>
      rcases hseq with ⟨-, hi⟩ | ⟨-, hi⟩
      · exact hi.ge
      · rw [hi]; exact Nat.le_succ _

theorem seq_incs_aodvProcessRrep (h : Wf s) (pkt : AodvPkt) :
    (aodvProcessRrep s pkt).seq_incs = s.seq_incs := by
  have hupd := (onlyTable_rrepUpdated pkt h).seq_incs
  cases rrepProcessed pkt h with
  | refused _ ht => rw [ht, (onlyTable_rreqArrived pkt h).seq_incs]
  | ended _ _ ht => rw [ht, ← hupd]
  | forwarded _ _ ph d ht =>
    rw [ht, (aodvForwardRrep_spec pkt _ ph d (wf_rrepUpdated pkt h)).2.2.2.2, hupd]

theorem seq_incs_managePacket (h : Wf s) (nfa : NfqData) :
    s.seq_incs ≤ (managePacket s nfa).seq_incs := by
  have hlook : ∀ orig, (packetLookedUp s nfa orig).seq_incs = s.seq_incs := fun orig =>
    (routingTableUpdateRoute_spec h _ orig).2.1.seq_incs
  cases packetManaged h nfa with
  | passed _ ht => rw [ht]; exact le_refl _
  | routed orig _ _ _ ht => rw [ht]; exact (hlook orig).ge
  | unanswered _ _ _ ht => rw [ht]; exact (hlook _).ge
  | queued _ _ _ _ ht => rw [ht]; exact (hlook 0).ge
  | discovered _ _ _ _ ht =>
    rw [ht, (originated_aodvFindRoute _ _ _).seq_incs]
    exact (hlook 0).ge.trans (Nat.le_succ _)

theorem seq_incs_step (h : Wf s) (i : Input) : s.seq_incs ≤ (step s i).seq_incs := by
  have hwf' := fun stats => (h.arrive i).withStats stats
  cases turn s i with
  | rreq pkt stats _ hstep => rw [hstep]; exact seq_incs_aodvProcessRreq (hwf' stats) pkt
  | rrep pkt stats _ hstep => rw [hstep]; exact (seq_incs_aodvProcessRrep (hwf' stats) pkt).ge
  | packet nfa _ hstep => rw [hstep]; exact seq_incs_managePacket (h.arrive i) nfa
  | alarms _ hstep =>
    rw [hstep]
    exact (doAlarmRun_invariant (I := fun t => Wf t ∧ s.seq_incs ≤ t.seq_incs)
      (fun t owner ht => ⟨(runAlarm_cases ht.1 owner).wf ht.1,
        ht.2.trans (seq_incs_runAlarm ht.1 owner)⟩) ⟨h.arrive i, le_refl _⟩).2
  | quiet stats _ _ _ _ hstep => rw [hstep]; exact le_refl _

/-! ## The network -/

section Net

variable {ι : Type} {addr : ι → InAddr} {n : ι → MshData}

/-- What may be known of an address in a network: what its owner has counted up to. -/
def ownerBound (addr : ι → InAddr) (n : ι → MshData) (a : InAddr) (x : U32) : Prop :=
  ∀ d, addr d = a → x.toNat ≤ (n d).seq_incs

theorem allowsZero_ownerBound (addr : ι → InAddr) (n : ι → MshData) :
    AllowsZero (ownerBound addr n) := fun _ _ _ => Nat.zero_le _

/-- With different addresses, what a node may know does not depend on the node. -/
theorem known_ownerBound (hinj : Function.Injective addr) (k : ι) (a : InAddr) (x : U32) :
    Known (ownerBound addr n) (addr k) (n k).seq_incs a x ↔ ownerBound addr n a x := by
  unfold Known
  split
  · rename_i ha
    subst ha
    refine ⟨fun hx d hd => ?_, fun hx => hx k rfl⟩
    rw [hinj hd]
    exact hx
  · exact Iff.rfl

variable [DecidableEq ι] {bcast : InAddr} {iface : ι → U32}

def NetKnows (addr : ι → InAddr) (n : ι → MshData) : Prop :=
  ∀ k, KnowsAtMost (ownerBound addr n) (n k)

omit [DecidableEq ι] in
theorem NetKnows.init : NetKnows addr (netInit addr bcast iface) := fun k => by
  refine ⟨rfl, fun a i hi => ?_, fun pkt hpkt => ?_⟩
  · exact absurd hi (by simp [netInit, mshDataInit, MshData.info, MshData.entry])
  · simp [netInit, mshDataInit] at hpkt

theorem NetKnows.step (hinj : Function.Injective addr) (hwf : NetWf addr bcast n)
    (h : NetKnows addr n) {a : Action ι Input} (ha : Deliverable n a) :
    NetKnows addr (netStep n a) := by
  have hgrow : ∀ d, (n d).seq_incs ≤ (netStep n a d).seq_incs := by
    intro d
    by_cases hd : d = a.node
    · subst hd
      rw [netStep, Network.act_same]
      exact seq_incs_step (hwf.wf _) a.input
    · rw [netStep, Network.act_other n hd]
  have hmono : ∀ b x, ownerBound addr n b x → ownerBound addr (netStep n a) b x :=
    fun b x hx d hd => (hx d hd).trans (hgrow d)
  intro k
  by_cases hk : k = a.node
  · subst hk
    have hnode := h a.node
    rw [netStep, Network.act_same]
    refine (hnode.mono hmono).step (allowsZero_ownerBound _ _) (hwf.wf _) _ fun pkt hpkt => ?_
    obtain ⟨m, -, p, hp, hpay, -⟩ := messageFrom_of_received ha hpkt
    -- what the sender may know, the receiver may know
    rw [hpay]
    refine ((h m).sent p hp).mono fun b x hx => ?_
    rw [hwf.ip_addr, known_ownerBound hinj] at hx
    rw [hwf.ip_addr]
    have hx' := (known_ownerBound hinj a.node b x).2 hx
    by_cases hb : b = addr a.node
    · rw [Known, if_pos hb] at hx' ⊢
      exact hx'
    · rw [Known, if_neg hb]
      exact hmono b x hx
  · rw [netStep, Network.act_other n hk]
    exact (h k).mono hmono

/-- In the order of the code and as unsigned words. -/
def SeqAtMost (x y : U32) : Prop := x.sle y = true ∧ x ≤ y

theorem seqAtMost_of_toNat {x y : U32} (hy : y.toNat < 2 ^ 31) (h : x.toNat ≤ y.toNat) :
    SeqAtMost x y := by
  refine ⟨?_, h⟩
  rw [BitVec.sle_iff_toInt_le, BitVec.toInt_eq_toNat_of_lt (by omega),
    BitVec.toInt_eq_toNat_of_lt (by omega)]
  exact_mod_cast h

/-- Every number known for `d`, in a table or in a message, is at most the one of `d`. -/
structure AtMostOwner (addr : ι → InAddr) (n : ι → MshData) (d k : ι) : Prop where
  table : ∀ r ∈ (n k).routing_table, r.dst_ip = addr d →
    SeqAtMost r.dest_seq_num (n d).seq_num
  rreq_orig : ∀ pkt ∈ (n k).os.sent, aodvPktGetType pkt = AODV_RREQ →
    (rreqOfPayload pkt.payload).orig_ip_addr = addr d →
    SeqAtMost (rreqOfPayload pkt.payload).orig_seq_num (n d).seq_num
  rreq_dest : ∀ pkt ∈ (n k).os.sent, aodvPktGetType pkt = AODV_RREQ →
    (rreqOfPayload pkt.payload).dest_ip_addr = addr d →
    SeqAtMost (rreqOfPayload pkt.payload).dest_seq_num (n d).seq_num
  rrep_dest : ∀ pkt ∈ (n k).os.sent, aodvPktGetType pkt = AODV_RREP →
    (rrepOfPayload pkt.payload).dest_ip_addr = addr d →
    SeqAtMost (rrepOfPayload pkt.payload).dest_seq_num (n d).seq_num

/-- **Nobody knows a newer sequence number than its owner**, in every network of nodes with
    different addresses, as long as no node has counted up to 2^31. -/
theorem knows_at_most_owner (hinj : Function.Injective addr) {as : List (Action ι Input)}
    (hrun : StepsMeet netStep Deliverable (netInit addr bcast iface) as)
    (hincs : ∀ d, (run netStep (netInit addr bcast iface) as d).seq_incs < 2 ^ 31) (d k : ι) :
    AtMostOwner addr (run netStep (netInit addr bcast iface) as) d k := by
  obtain ⟨hwf, hknows⟩ := Machine.run_invariant
    (I := fun n => NetWf addr bcast n ∧ NetKnows addr n)
    (fun n a hn ha => ⟨hn.1.step a, hn.2.step hinj hn.1 ha⟩)
    ⟨NetWf.init addr bcast iface, NetKnows.init⟩ hrun
  have hcount := (hknows d).own
  have hbound : ∀ {x : U32}, Known (ownerBound addr (run netStep (netInit addr bcast iface) as))
      (run netStep (netInit addr bcast iface) as k).ip_addr
      (run netStep (netInit addr bcast iface) as k).seq_incs (addr d) x →
      SeqAtMost x (run netStep (netInit addr bcast iface) as d).seq_num := by
    intro x hx
    rw [hwf.ip_addr, known_ownerBound hinj] at hx
    have hlt := hincs d
    have hnum : (run netStep (netInit addr bcast iface) as d).seq_num.toNat =
        (run netStep (netInit addr bcast iface) as d).seq_incs := by
      rw [hcount, BitVec.toNat_ofNat]
      exact Nat.mod_eq_of_lt (by omega)
    exact seqAtMost_of_toNat (by omega) (by rw [hnum]; exact hx d rfl)
  refine ⟨fun r hr hrd => ?_, fun pkt hpkt ht ho => ?_, fun pkt hpkt ht hd => ?_,
    fun pkt hpkt ht hd => ?_⟩
  · have hi := info_of_entry (entry_of_mem (hwf.wf k) hr)
    have hknown := (hknows k).table _ _ hi
    rw [hrd] at hknown
    exact hbound hknown
  · have hknown := ((hknows k).sent pkt hpkt).rreq_orig ht
    rw [ho] at hknown
    exact hbound hknown
  · have hknown := ((hknows k).sent pkt hpkt).rreq_dest ht
    rw [hd] at hknown
    exact hbound hknown
  · have hknown := ((hknows k).sent pkt hpkt).rrep_dest ht
    rw [hd] at hknown
    exact hbound hknown

end Net

/-- Node 0 looks for node 1; node 1 gets the RREQ, and node 0 its reply. -/
def discovery : List (Action (Fin 2) Input) :=
  script (smallNet 2)
    [.packet 0 0 (capturedPacket 1 3 1 0x0A000001 0x0A000002), .deliver 1 10 0 0 3,
      .deliver 0 20 1 0 64]

theorem knows_at_most_owner_discovery :
    AtMostOwner nodeAddr (run netStep (smallNet 2) discovery) 1 0 ∧
      (run netStep (smallNet 2) discovery 0).info 0x0A000002 ≠ none :=
  ⟨knows_at_most_owner (by decide)
    (by decide +kernel) (by decide +kernel) 1 0, by decide +kernel⟩

end Meshias
