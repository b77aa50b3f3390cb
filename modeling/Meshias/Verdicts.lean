import Meshias.Lib.Machine
import Meshias.Traffic

/-!
# Verdicts for captured packets

Every packet id that the kernel hands over is to be answered exactly once: it has one verdict, or
it is queued and has none.  `MshData.ids` lists the ids with a verdict and those queued, so an id is
accounted for when it occurs there once and the two lists do not share it.

Only a datagram or an alarm moves ids from the queue to the verdicts (`ids_step`), so what counts
is whether a captured packet is answered or queued when it comes.  `manage_input_packet` does
neither with a packet that is not for the node and has no route.

Principal results: `allAccounted_iff_answered` — the packets of a run are accounted for exactly if
no packet is left in that branch; `input_packet_unanswered` — a run with one that is.
-/

set_option autoImplicit false

namespace Meshias

open Machine (run StepsMeet)

variable {s t : MshData}

/-! ## One turn -/

theorem SameTable.ids_eq (h : SameTable s t) : t.ids = s.ids := by
  rw [MshData.ids, MshData.ids, h.verdicts, h.packets_queue]

theorem ids_aodvProcessRreq (h : Wf s) (pkt : AodvPkt) : (aodvProcessRreq s pkt).ids.Perm s.ids := by
  obtain ⟨o, heq⟩ := aodvProcessRreq_eq pkt h
  have harr : (rreqArrived s pkt).ids.Perm s.ids := (onlyTable_aodvRreqPrevHop h _).ids
  have hrev : (rreqReversed s pkt).ids.Perm (rreqArrived s pkt).ids :=
    (onlyTable_aodvUpdateOrig _ _ _ _ (wf_rreqBuffered pkt h)).ids
  rw [heq]
  split
  · exact harr
  · rw [(rreqReply_spec pkt _ _ o).1.ids_eq]
    exact hrev.trans harr

theorem ids_aodvProcessRrep (h : Wf s) (pkt : AodvPkt) : (aodvProcessRrep s pkt).ids.Perm s.ids := by
  have hupd := (onlyTable_rrepUpdated pkt h).ids
  cases rrepProcessed pkt h with
  | refused _ ht =>
    rw [ht]
    exact (onlyTable_rreqArrived pkt h).ids
  | ended _ _ ht =>
    rw [ht]
    exact List.Perm.trans (.of_eq rfl) hupd
  | forwarded _ _ ph d ht =>
    rw [ht, (aodvForwardRrep_spec pkt _ ph d (wf_rrepUpdated pkt h)).1.ids_eq]
    exact hupd

theorem ids_runAlarm (h : Wf s) (owner : AlarmOwner) : (runAlarm s owner).ids.Perm s.ids := by
  cases runAlarm_cases h owner with
  | idle hsame => exact .of_eq hsame.ids_eq
  | expired a hexp => exact .of_eq hexp.same.ids_eq
  | destroyed r q _ _ hdel =>
    refine .of_eq ?_
    rw [MshData.ids, MshData.ids, hdel.verdicts, hdel.packets_queue]
  | forgotten e _ _ ht => rw [ht]; exact .of_eq rfl
  | gaveUp e _ _ ht =>
    rw [ht]
    exact ids_packetObjDropWhere (s := rreqFifoEntryDelete s e.self) _
  | retried e _ _ hret =>
    refine .of_eq ?_
    rw [MshData.ids, MshData.ids, hret.verdicts, hret.packets_queue]

theorem ids_doAlarmRun (h : Wf s) : (doAlarmRun s).ids.Perm s.ids := by
  have hinv := doAlarmRun_invariant (s := s) (I := fun t => Wf t ∧ t.ids.Perm s.ids)
    (fun t owner ht => ⟨(runAlarm_cases ht.1 owner).wf ht.1, (ids_runAlarm ht.1 owner).trans ht.2⟩)
    ⟨h, .refl _⟩
  exact hinv.2

/-- The packet id an input hands over. -/
def packetId (i : Input) : Option U32 :=
  match i.event with
  | .packet nfa => some (nfqueuePacketGetId nfa)
  | _ => none

/-- A captured packet gets a verdict or is queued: it does not take the last branch of
    `manage_input_packet`. -/
def packetAnswered (s : MshData) (nfa : NfqData) : Bool :=
  packetPasses s nfa || nfqueuePacketGetHook nfa ≠ NF_IP_LOCAL_IN ||
    routeUsable s (nfqueuePacketGetDest nfa)

/-- The condition on one turn. -/
def answered (s : MshData) (i : Input) : Prop :=
  match i.event with
  | .packet nfa => packetAnswered s nfa = true
  | _ => True

instance (s : MshData) (i : Input) : Decidable (answered s i) := by
  unfold answered; split <;> infer_instance

theorem ids_managePacket (h : Wf s) (nfa : NfqData) :
    (managePacket s nfa).ids.Perm
      ((if packetAnswered s nfa then [nfqueuePacketGetId nfa] else []) ++ s.ids) := by
  have hlook := fun orig => (sameTable_packetLookedUp h nfa orig).ids_eq
  -- a verdict is added behind the other verdicts, a queued packet in front of the queue
  have hverdict : ∀ u : MshData, (nfqSetVerdict u (nfqueuePacketGetId nfa) .NF_ACCEPT).ids.Perm
      (nfqueuePacketGetId nfa :: u.ids) := by
    intro u
    simp only [MshData.ids, nfqSetVerdict_os_verdicts, List.map_append, nfqSetVerdict_packets_queue,
      List.append_assoc, List.map_cons, List.map_nil, List.singleton_append]
    exact List.perm_middle
  have hqueued : ∀ u : MshData, (packetsFifoPush u (nfqueuePacketGetId nfa)
      (nfqueuePacketGetDest nfa)).ids.Perm (nfqueuePacketGetId nfa :: u.ids) := fun u =>
    List.perm_middle
  have hsend : ∀ u : MshData, (aodvFindRoute u (nfqueuePacketGetDest nfa) none 0).ids = u.ids := by
    intro u
    have horig := originated_aodvFindRoute u (nfqueuePacketGetDest nfa) 0
    rw [MshData.ids, MshData.ids, horig.verdicts, horig.packets_queue]
  have hin : NF_IP_LOCAL_OUT ≠ NF_IP_LOCAL_IN := by decide
  have hfwd : NF_IP_FORWARD ≠ NF_IP_LOCAL_IN := by decide
  cases packetManaged h nfa with
  | passed hpass ht =>
    rw [ht, packetAnswered, hpass]
    exact hverdict s
  | routed orig _ _ husable ht =>
    have hans : packetAnswered s nfa = true := by
      rcases husable with hhook | husable
      · simp [packetAnswered, hhook, hfwd]
      · simp [packetAnswered, husable]
    rw [ht, hans, if_pos rfl, ← hlook orig]
    exact hverdict _
  | unanswered hpass hhook husable ht =>
    have hans : packetAnswered s nfa = false := by simp [packetAnswered, hpass, hhook, husable]
    rw [ht, hans, hlook]
    exact .refl _
  | queued hpass hhook husable _ ht =>
    have hans : packetAnswered s nfa = true := by simp [packetAnswered, hhook, hin]
    rw [ht, hans, if_pos rfl, ← hlook 0]
    exact hqueued _
  | discovered hpass hhook husable _ ht =>
    have hans : packetAnswered s nfa = true := by simp [packetAnswered, hhook, hin]
    rw [ht, hans, if_pos rfl, ← hlook 0, hsend]
    exact hqueued _

/-- The id that one turn adds. -/
def newId (s : MshData) (i : Input) : List U32 :=
  if answered s i then (packetId i).toList else []

/-- **One turn** adds the id of the packet it answers, and loses none. -/
theorem ids_step (h : Wf s) (i : Input) : (step s i).ids.Perm (newId (s.arrive i) i ++ s.ids) := by
  have harrive : (s.arrive i).ids = s.ids := rfl
  have hother : (∀ nfa, i.event ≠ .packet nfa) → newId (s.arrive i) i = [] := by
    intro hno
    unfold newId packetId
    split
    · split
      · exact absurd (by assumption) (hno _)
      · rfl
    · rfl
  have hdatagram : s.received i ≠ none → ∀ nfa, i.event ≠ .packet nfa := by
    intro hrec nfa hev
    exact hrec (by rw [MshData.received, hev])
  cases turn s i with
  | rreq pkt stats hpkt hstep =>
    rw [hstep, hother (hdatagram fun hc => by simp [receivedRreq, hc] at hpkt)]
    exact ids_aodvProcessRreq ((h.arrive i).withStats stats) pkt
  | rrep pkt stats hpkt hstep =>
    rw [hstep, hother (hdatagram fun hc => by simp [receivedRrep, hc] at hpkt)]
    exact ids_aodvProcessRrep ((h.arrive i).withStats stats) pkt
  | packet nfa hev hstep =>
    have hnew : newId (s.arrive i) i =
        if packetAnswered (s.arrive i) nfa then [nfqueuePacketGetId nfa] else [] := by
      simp only [newId, answered, packetId, hev]
      split <;> rfl
    rw [hstep, hnew]
    exact ids_managePacket (h.arrive i) nfa
  | alarms hev hstep =>
    rw [hstep, hother (by simp [hev])]
    exact ids_doAlarmRun (h.arrive i)
  | quiet stats _ _ hno _ hstep =>
    rw [hstep, hother hno]
    exact .refl _

/-! ## Runs -/

/-- The ids handed over in a run. -/
def handedOver (is : List Input) : List U32 := is.filterMap packetId

/-- One verdict and not queued, or queued once and without a verdict. -/
def Accounted (s : MshData) (id : U32) : Prop :=
  (s.os.verdicts.map (·.1)).count id = 1 ∧ (s.packets_queue.map (·.id)).count id = 0 ∨
    (s.os.verdicts.map (·.1)).count id = 0 ∧ (s.packets_queue.map (·.id)).count id = 1

instance (s : MshData) (id : U32) : Decidable (Accounted s id) := by
  unfold Accounted; infer_instance

theorem accounted_iff_count (s : MshData) (id : U32) : Accounted s id ↔ s.ids.count id = 1 := by
  rw [Accounted, MshData.ids, List.count_append]
  omega

/-- Every id handed over is accounted for, in every state of the run. -/
def AllAccounted (s : MshData) (is : List Input) : Prop :=
  ∀ pre, pre <+: is → ∀ id ∈ handedOver pre, Accounted (run step s pre) id

/-- The induction over the run: `before` are the ids handed over so far. -/
theorem accounted_iff_of_ids {is : List Input} {before : List U32} (h : Wf s)
    (hids : s.ids.Perm before) (hnodup : (before ++ handedOver is).Nodup) :
    (∀ pre, pre <+: is → ∀ id ∈ before ++ handedOver pre, Accounted (run step s pre) id) ↔
      StepsMeet step (fun s i => answered (s.arrive i) i) s is := by
  induction is generalizing s before with
  | nil =>
    refine ⟨fun _ => trivial, fun _ pre hpre id hid => ?_⟩
    obtain rfl := List.prefix_nil.1 hpre
    rw [accounted_iff_count]
    rw [handedOver, List.filterMap_nil, List.append_nil] at hid hnodup
    exact List.count_eq_one_of_mem (hids.nodup_iff.2 hnodup) (hids.mem_iff.2 hid)
  | cons i is ih =>
    have hcons : ∀ l, before ++ handedOver (i :: l) =
        (before ++ (packetId i).toList) ++ handedOver l := by
      intro l
      rw [handedOver, List.filterMap_cons]
      cases packetId i <;> simp [handedOver]
    rw [hcons] at hnodup
    have hstep := ids_step h i
    have hwf := h.step i
    constructor
    · intro hall
      have hans : answered (s.arrive i) i := by
        by_contra hno
        -- the id of an unanswered packet occurs nowhere
        rw [newId, if_neg hno, List.nil_append] at hstep
        cases hid : packetId i with
        | none =>
          apply hno
          unfold answered
          split
          · rename_i nfa hev; simp [packetId, hev] at hid
          · trivial
        | some id =>
          rw [hid] at hnodup
          have hmem : id ∈ before ++ handedOver [i] := by
            simp [handedOver, hid]
          have hacc := (accounted_iff_count _ _).1 (hall [i] (by simp) id hmem)
          have hbefore : id ∈ before := by
            have hpos : 0 < (run step s [i]).ids.count id := by omega
            exact (hstep.trans hids).mem_iff.1 (List.count_pos_iff.1 hpos)
          exact (List.nodup_append.1 (List.nodup_append.1 hnodup).1).2.2 id hbefore id (by simp) rfl
      refine ⟨hans, (ih hwf ?_ hnodup).1 fun pre hpre id hid => ?_⟩
      · rw [newId, if_pos hans] at hstep
        exact (hstep.trans (hids.append_left _)).trans List.perm_append_comm
      · exact hall (i :: pre) (by simpa using hpre) id (by rw [hcons]; exact hid)
    · rintro ⟨hans, hrest⟩ pre hpre id hid
      cases pre with
      | nil =>
        rw [handedOver, List.filterMap_nil, List.append_nil] at hid
        rw [accounted_iff_count]
        exact List.count_eq_one_of_mem
          (hids.nodup_iff.2 (List.nodup_append.1 (List.nodup_append.1 hnodup).1).1)
          (hids.mem_iff.2 hid)
      | cons j pre =>
        obtain ⟨rfl, htail⟩ := List.cons_prefix_cons.1 hpre
        rw [newId, if_pos hans] at hstep
        rw [hcons] at hid
        exact (ih hwf ((hstep.trans (hids.append_left _)).trans List.perm_append_comm) hnodup).2
          hrest pre htail id hid

/-- **Every captured packet is accounted for exactly once**, if and only if no packet meets the
    branch of `manage_input_packet` that answers nothing. -/
theorem allAccounted_iff_answered (ip bcast : InAddr) (iface : U32) (is : List Input)
    (hnodup : (handedOver is).Nodup) :
    AllAccounted (mshDataInit ip bcast iface) is ↔
      StepsMeet step (fun s i => answered (s.arrive i) i) (mshDataInit ip bcast iface) is := by
  have hids : (mshDataInit ip bcast iface).ids.Perm [] := .refl _
  have hempty : ([] ++ handedOver is).Nodup := by simpa using hnodup
  have h := accounted_iff_of_ids (Wf.init ip bcast iface) hids hempty
  simpa [AllAccounted] using h

/-- An ICMP packet from 10.0.0.2 to the all-hosts group 224.0.0.1, captured at the INPUT hook. -/
def multicastInput : Input := ⟨0, [], [], .packet (capturedPacket 7 1 1 0x0A000002 0xE0000001)⟩

/-- A packet for the node itself, at the same hook. -/
def localInput : Input := ⟨0, [], [], .packet (capturedPacket 8 1 1 0x0A000002 0x0A000001)⟩

theorem allAccounted_local : AllAccounted (mshDataInit 0x0A000001 0x0A0000FF 0) [localInput] :=
  (allAccounted_iff_answered 0x0A000001 0x0A0000FF 0 [localInput] (by decide)).2 (by decide +kernel)

/-- **The multicast packet gets no verdict and is not queued.** -/
theorem input_packet_unanswered :
    ¬ ∀ (ip bcast : InAddr) (iface : U32) (is : List Input), (handedOver is).Nodup →
      AllAccounted (mshDataInit ip bcast iface) is := by
  intro hall
  have hacc := hall 0x0A000001 0x0A0000FF 0 [multicastInput] (by decide) [multicastInput]
    (List.prefix_refl _) 7 (by decide)
  exact absurd hacc (by decide +kernel)

end Meshias
