import Meshias.Lib.Machine
import Meshias.Forecast

/-!
# Freshness of routes

An entry is to be overwritten only by fresher information.  `aodv_process_rrep` tests this, but its
last condition compares the hop counts alone where its comment wants them compared for equal
sequence numbers; `aodv_process_rreq` compares only the sequence numbers, and sets the next hop and
the hop count in any case.

* `FreshInfo` — from one state of an entry to the next the sequence number does not decrease, and
  with the same sequence number the hop count does not increase.
* `FreshTurn` — this for every destination, over one turn.
* `KeepsFresh` — the condition on one turn: no message updates an entry with older information.

Each has a parameter `flagged`: whether the hop count is asked for only while
`RTFLAG_VALID_DEST_SEQ_NUM` is set.

Principal results: `freshness_iff`, and with the flag `freshness_iff_flagged`; `stale_reply_accepted`
— a RREP with an older sequence number and the same hop count is accepted.
-/

set_option autoImplicit false

namespace Meshias

open Machine (run StepsMeet)

variable {s t : MshData}

/-! ## The property -/

/-- What an entry says does not become older; `inUse` says that it is active before and after. -/
structure FreshInfo (flagged inUse : Bool) (j j' : RouteInfo) : Prop where
  seq : j.seq_valid = true → j'.seq_valid = true → j'.dest_seq_num.slt j.dest_seq_num = false
  hop : j'.dest_seq_num = j.dest_seq_num → inUse = true → (flagged = true → j.seq_valid = true) →
    j'.hop_count ≤ j.hop_count

instance (flagged inUse : Bool) (j j' : RouteInfo) : Decidable (FreshInfo flagged inUse j j') :=
  decidable_of_iff (_ ∧ _) ⟨fun h => ⟨h.1, h.2⟩, fun h => ⟨h.1, h.2⟩⟩

def FreshAt (flagged : Bool) (s t : MshData) (d : InAddr) : Prop :=
  ∀ j ∈ s.info d, ∀ j' ∈ t.info d, FreshInfo flagged (s.active d && t.active d) j j'

instance (flagged : Bool) (s t : MshData) (d : InAddr) : Decidable (FreshAt flagged s t d) := by
  unfold FreshAt; infer_instance

/-- **No entry becomes older from one state to the next.** -/
def FreshTurn (flagged : Bool) (s t : MshData) : Prop := ∀ d, FreshAt flagged s t d

/-- A RREQ puts a larger hop count into an active entry without a newer sequence number. -/
def rreqStale (flagged inUse : Bool) (hop_count : U8) (seq_num : U32) (j : RouteInfo) : Bool :=
  inUse && (!flagged || j.seq_valid) && !j.dest_seq_num.slt seq_num && j.hop_count < hop_count

/-- A RREP has the hop count of the entry and an older sequence number; or the sequence number of
    the entry, not marked valid, and a larger hop count. -/
def rrepStale (flagged inUse : Bool) (rrep : AodvRrep) (j : RouteInfo) : Bool :=
  j.seq_valid && rrep.dest_seq_num.slt j.dest_seq_num && rrep.hop_count == j.hop_count ||
    !flagged && inUse && !j.seq_valid && rrep.dest_seq_num == j.dest_seq_num &&
      j.hop_count < rrep.hop_count

/-- The condition on one turn. -/
structure KeepsFresh (flagged : Bool) (s : MshData) (i : Input) : Prop where
  rreq : ∀ pkt ∈ receivedRreq s i, rreqDuplicate s pkt = false →
    ∀ j ∈ s.info (rreqOfPayload pkt.payload).orig_ip_addr,
      rreqStale flagged (s.active (rreqOfPayload pkt.payload).orig_ip_addr)
        (rreqOfPayload pkt.payload).hop_count (rreqOfPayload pkt.payload).orig_seq_num j = false
  rrep : ∀ pkt ∈ receivedRrep s i, ∀ j ∈ s.info (rrepNext pkt).dest_ip_addr,
    rrepStale flagged (s.active (rrepNext pkt).dest_ip_addr) (rrepNext pkt) j = false

/-! ## One entry -/

theorem slt_irrefl (a : U32) : a.slt a = false := by
  rw [BitVec.slt_eq_decide]; simp

theorem slt_asymm {a b : U32} (h : a.slt b = true) : b.slt a = false := by
  rw [BitVec.slt_eq_decide, decide_eq_true_eq] at h
  rw [BitVec.slt_eq_decide, decide_eq_false_iff_not]
  omega

theorem FreshInfo.refl (flagged inUse : Bool) (j : RouteInfo) : FreshInfo flagged inUse j j :=
  ⟨fun _ _ => slt_irrefl _, fun _ _ _ => BitVec.le_refl _⟩

/-- **The update by a RREQ.** -/
theorem freshInfo_rreqUpdate (flagged inUse : Bool) (p : InAddr) (hop : U8) (seq : U32)
    (j : RouteInfo) :
    FreshInfo flagged inUse j (j.rreqUpdate p hop seq) ↔ rreqStale flagged inUse hop seq j = false := by
  have hseq : (j.rreqUpdate p hop seq).dest_seq_num =
      if j.dest_seq_num.slt seq then seq else j.dest_seq_num := rfl
  have hhop : (j.rreqUpdate p hop seq).hop_count = hop := rfl
  unfold rreqStale
  cases hnew : j.dest_seq_num.slt seq with
  | true =>
    -- a newer sequence number
    refine iff_of_true ⟨fun _ _ => ?_, fun heq => ?_⟩ (by simp)
    · rw [hseq, hnew, if_pos rfl]
      exact slt_asymm hnew
    · rw [hseq, hnew, if_pos rfl] at heq
      rw [heq, slt_irrefl] at hnew
      exact absurd hnew Bool.false_ne_true
  | false =>
    have hsame : (j.rreqUpdate p hop seq).dest_seq_num = j.dest_seq_num := by
      rw [hseq, hnew, if_neg Bool.false_ne_true]
    constructor
    · intro h
      have hle := h.hop hsame
      rw [hhop] at hle
      cases inUse <;> cases flagged <;> cases hv : j.seq_valid <;> simp_all
    · intro h
      refine ⟨fun _ _ => by rw [hsame]; exact slt_irrefl _, fun _ huse hflag => ?_⟩
      rw [hhop]
      cases flagged <;> simp_all

/-- **The update by an accepted RREP**; `active` is what the test sees. -/
theorem freshInfo_rrepUpdate {flagged inUse active : Bool} {p : InAddr} {rrep : AodvRrep}
    {j : RouteInfo} (hacc : j.rrepUpdates active rrep = true) (huse : inUse = true → active = true) :
    FreshInfo flagged inUse j (j.rrepUpdate p rrep) ↔ rrepStale flagged inUse rrep j = false := by
  have hseq : (j.rrepUpdate p rrep).dest_seq_num = rrep.dest_seq_num := rfl
  have hhop : (j.rrepUpdate p rrep).hop_count = rrep.hop_count := rfl
  have hval : (j.rrepUpdate p rrep).seq_valid = true := rfl
  have hirr : rrep.dest_seq_num = j.dest_seq_num → rrep.dest_seq_num.slt j.dest_seq_num = false :=
    fun heq => by rw [heq]; exact slt_irrefl _
  cases hv : j.seq_valid with
  | false =>
    have hstale : rrepStale flagged inUse rrep j = false ↔ ¬ (flagged = false ∧ inUse = true ∧
        rrep.dest_seq_num = j.dest_seq_num ∧ j.hop_count < rrep.hop_count) := by
      rw [rrepStale, hv]
      cases flagged <;> cases inUse <;> simp
    rw [hstale]
    constructor
    · rintro h ⟨hf, hu, heq, hlt⟩
      exact BitVec.not_le.2 hlt (h.hop heq hu (fun hc => by rw [hf] at hc; cases hc))
    · intro h
      refine ⟨fun hc => absurd (hv ▸ hc) Bool.false_ne_true, fun heq hu hflag => ?_⟩
      rw [hv] at hflag
      by_contra hlt
      exact h ⟨Bool.eq_false_iff.2 (fun hc => Bool.false_ne_true (hflag hc)), hu, heq,
        BitVec.not_le.1 hlt⟩
  | true =>
    have hstale : rrepStale flagged inUse rrep j = false ↔
        ¬ (rrep.dest_seq_num.slt j.dest_seq_num = true ∧ rrep.hop_count = j.hop_count) := by
      rw [rrepStale, hv]
      simp
    have hacc : j.dest_seq_num.slt rrep.dest_seq_num = true ∨
        rrep.dest_seq_num = j.dest_seq_num ∧ active = false ∨ rrep.hop_count = j.hop_count := by
      simpa [RouteInfo.rrepUpdates, hv, or_assoc] using hacc
    rw [hstale]
    constructor
    · rintro h ⟨hlt, -⟩
      have hno := h.seq hv hval
      rw [hseq, hlt] at hno
      cases hno
    · intro h
      rcases hacc with hnew | ⟨heq, hact⟩ | hhops
      · refine ⟨fun _ _ => by rw [hseq]; exact slt_asymm hnew, fun heq => ?_⟩
        rw [hseq] at heq
        rw [heq, slt_irrefl] at hnew
        cases hnew
      · refine ⟨fun _ _ => by rw [hseq]; exact hirr heq, fun _ hu => ?_⟩
        rw [huse hu] at hact
        cases hact
      · refine ⟨fun _ _ => ?_, fun _ _ _ => by rw [hhop, hhops]; exact BitVec.le_refl _⟩
        rw [hseq, Bool.eq_false_iff]
        exact fun hlt => h ⟨hlt, hhops⟩

/-! ## One turn -/

/-- An entry after a RREQ. -/
theorem info_aodvProcessRreq_of_some (h : Wf s) (pkt : AodvPkt) {d : InAddr} {j : RouteInfo}
    (hj : s.info d = some j) :
    (aodvProcessRreq s pkt).info d =
      some (if rreqDuplicate s pkt = false ∧ d = (rreqOfPayload pkt.payload).orig_ip_addr then
        j.rreqUpdate pkt.address (rreqOfPayload pkt.payload).hop_count
          (rreqOfPayload pkt.payload).orig_seq_num
      else j) := by
  have harr := info_rreqArrived_of_some h pkt hj
  rw [info_aodvProcessRreq pkt h]
  cases rreqDuplicate s pkt with
  | true => simpa using harr
  | false =>
    rw [if_neg Bool.false_ne_true, info_rreqReversed pkt h]
    by_cases hd : d = (rreqOfPayload pkt.payload).orig_ip_addr
    · subst hd
      rw [if_pos rfl, harr]
      simp
    · rw [if_neg hd, if_neg (fun hc => hd hc.2), harr]

/-- An entry after a RREP. -/
theorem info_aodvProcessRrep_of_some (h : Wf s) (pkt : AodvPkt) {d : InAddr} {j : RouteInfo}
    (hj : s.info d = some j) :
    (aodvProcessRrep s pkt).info d =
      some (if rrepAcceptable s pkt = true ∧ d = (rrepNext pkt).dest_ip_addr then
        j.rrepUpdate pkt.address (rrepNext pkt)
      else j) := by
  have harr := info_rreqArrived_of_some h pkt hj
  rw [info_aodvProcessRrep pkt h, rrepAccepted_eq h]
  cases rrepAcceptable s pkt with
  | false => simpa using harr
  | true =>
    rw [if_pos rfl, info_rrepUpdated pkt h]
    by_cases hd : d = (rrepNext pkt).dest_ip_addr
    · subst hd
      rw [if_pos rfl, harr]
      simp
    · rw [if_neg hd, if_neg (fun hc => hd hc.2), harr]

theorem freshAt_of_same {flagged : Bool} {d : InAddr}
    (h : ∀ j, s.info d = some j → t.info d = some j ∨ t.info d = none) :
    FreshAt flagged s t d := by
  intro j hj j' hj'
  rcases h j hj with hsame | hnone
  · rw [Option.mem_def, hsame] at hj'
    obtain rfl := Option.some.inj hj'
    exact .refl _ _ _
  · rw [Option.mem_def, hnone] at hj'
    cases hj'

theorem freshAt_of_info {flagged : Bool} {d : InAddr} {j j' : RouteInfo} (hj : s.info d = some j)
    (hj' : t.info d = some j') :
    FreshAt flagged s t d ↔ FreshInfo flagged (s.active d && t.active d) j j' := by
  simp [FreshAt, hj, hj']

/-- A turn that brings entries into use takes none out of use. -/
theorem active_and_step (h : Wf s) {i : Input} (hi : i.event ≠ .alarms) (d : InAddr) :
    (s.active d && (step s i).active d) = s.active d := by
  rw [active_step h hi]
  cases s.active d <;> simp

/-- **A turn that writes one entry** keeps the freshness if that entry does not become older. -/
theorem freshTurn_written_iff (flagged : Bool) {c : Prop} [Decidable c] {d₀ : InAddr}
    {f : RouteInfo → RouteInfo} (hactive : ∀ d, (s.active d && t.active d) = s.active d)
    (hinfo : ∀ d j, s.info d = some j → t.info d = some (if c ∧ d = d₀ then f j else j)) :
    FreshTurn flagged s t ↔
      (c → ∀ j ∈ s.info d₀, FreshInfo flagged (s.active d₀) j (f j)) := by
  constructor
  · intro hall hc j hj
    have hj' := hinfo d₀ j hj
    rw [if_pos ⟨hc, rfl⟩] at hj'
    have hfresh := (freshAt_of_info hj hj').1 (hall d₀)
    rw [hactive] at hfresh
    exact hfresh
  · intro hwritten d
    cases hj : s.info d with
    | none => exact freshAt_of_same fun j hc => by rw [hj] at hc; cases hc
    | some j =>
      have hj' := hinfo d j hj
      split at hj'
      · rename_i hc
        obtain ⟨hc, rfl⟩ := hc
        rw [freshAt_of_info hj hj', hactive]
        exact hwritten hc j hj
      · refine freshAt_of_same fun j₀ hj₀ => .inl ?_
        rw [hj', ← hj, hj₀]

theorem freshTurn_rreq_iff (flagged : Bool) (h : Wf s) {i : Input} {pkt : AodvPkt}
    (hpkt : receivedRreq s i = some pkt) :
    FreshTurn flagged s (step s i) ↔ KeepsFresh flagged s i := by
  have hinfo : ∀ d j, s.info d = some j → (step s i).info d =
      some (if rreqDuplicate s pkt = false ∧ d = (rreqOfPayload pkt.payload).orig_ip_addr then
        j.rreqUpdate pkt.address (rreqOfPayload pkt.payload).hop_count
          (rreqOfPayload pkt.payload).orig_seq_num
      else j) := by
    intro d j hj
    obtain ⟨stats, hstep⟩ := step_of_receivedRreq hpkt
    rw [hstep]
    exact info_aodvProcessRreq_of_some ((h.arrive i).withStats stats) pkt hj
  rw [freshTurn_written_iff flagged (active_and_step h (not_alarms_of_rreq hpkt)) hinfo]
  simp only [freshInfo_rreqUpdate]
  constructor
  · intro hwritten
    refine ⟨fun pkt' hpkt' hdup => ?_, fun pkt' hpkt' => ?_⟩
    · rw [Option.mem_def, hpkt] at hpkt'
      obtain rfl := Option.some.inj hpkt'
      exact hwritten hdup
    · rw [Option.mem_def, receivedRrep_of_rreq hpkt] at hpkt'
      cases hpkt'
  · intro hkeep hdup
    exact hkeep.rreq pkt hpkt hdup

theorem freshTurn_rrep_iff (flagged : Bool) (h : Wf s) {i : Input} {pkt : AodvPkt}
    (hpkt : receivedRrep s i = some pkt) :
    FreshTurn flagged s (step s i) ↔ KeepsFresh flagged s i := by
  have hinfo : ∀ d j, s.info d = some j → (step s i).info d =
      some (if rrepAcceptable s pkt = true ∧ d = (rrepNext pkt).dest_ip_addr then
        j.rrepUpdate pkt.address (rrepNext pkt)
      else j) := by
    intro d j hj
    obtain ⟨stats, hstep⟩ := step_of_receivedRrep hpkt
    rw [hstep]
    exact info_aodvProcessRrep_of_some ((h.arrive i).withStats stats) pkt hj
  -- a stale reply is accepted
  have haccepts : ∀ j, s.info (rrepNext pkt).dest_ip_addr = some j →
      rrepStale flagged (s.active (rrepNext pkt).dest_ip_addr) (rrepNext pkt) j = true →
      rrepAcceptable s pkt = true := by
    intro j hj hstale
    rw [rrepAcceptable, hj]
    dsimp only
    rw [rrepStale, Bool.or_eq_true] at hstale
    rcases hstale with hc | hc
    · simp only [Bool.and_eq_true] at hc
      simp [RouteInfo.rrepUpdates, hc.2]
    · simp only [Bool.and_eq_true, Bool.not_eq_true'] at hc
      simp [RouteInfo.rrepUpdates, hc.1.1.2]
  have hentry : ∀ j, s.info (rrepNext pkt).dest_ip_addr = some j → rrepAcceptable s pkt = true →
      (FreshInfo flagged (s.active (rrepNext pkt).dest_ip_addr) j
        (j.rrepUpdate pkt.address (rrepNext pkt)) ↔
      rrepStale flagged (s.active (rrepNext pkt).dest_ip_addr) (rrepNext pkt) j = false) := by
    intro j hj hacc
    rw [rrepAcceptable, hj] at hacc
    exact freshInfo_rrepUpdate hacc fun hact => by rw [hact]; rfl
  rw [freshTurn_written_iff flagged (active_and_step h (not_alarms_of_rrep hpkt)) hinfo]
  constructor
  · intro hwritten
    refine ⟨fun pkt' hpkt' => ?_, fun pkt' hpkt' j hj => ?_⟩
    · rw [Option.mem_def, receivedRreq_of_rrep hpkt] at hpkt'
      cases hpkt'
    · rw [Option.mem_def, hpkt] at hpkt'
      obtain rfl := Option.some.inj hpkt'
      by_contra hstale
      have hacc := haccepts j hj (by simpa using hstale)
      exact hstale ((hentry j hj hacc).1 (hwritten hacc j hj))
  · intro hkeep hacc j hj
    exact (hentry j hj hacc).2 (hkeep.rrep pkt hpkt j hj)

theorem freshTurn_step_iff (flagged : Bool) (h : Wf s) (i : Input) :
    FreshTurn flagged s (step s i) ↔ KeepsFresh flagged s i := by
  have hother : receivedRreq s i = none → receivedRrep s i = none →
      (∀ d, (step s i).info d = s.info d ∨ (step s i).info d = none) →
      (FreshTurn flagged s (step s i) ↔ KeepsFresh flagged s i) := by
    intro hrreq hrrep hinfo
    refine iff_of_true (fun d => freshAt_of_same fun j hj => ?_) ⟨?_, ?_⟩
    · rw [← hj]
      exact hinfo d
    · simp [hrreq]
    · simp [hrrep]
  cases turn s i with
  | rreq pkt _ hpkt _ => exact freshTurn_rreq_iff flagged h hpkt
  | rrep pkt _ hpkt _ => exact freshTurn_rrep_iff flagged h hpkt
  | packet nfa hev hstep =>
    obtain ⟨hrreq, hrrep⟩ := received_of_event (s := s) (i := i) (by simp [hev])
    refine hother hrreq hrrep fun d => .inl ?_
    rw [hstep]
    exact congrFun (info_managePacket (h.arrive i) nfa) d
  | alarms hev hstep =>
    obtain ⟨hrreq, hrrep⟩ := received_of_event (s := s) (i := i) (by simp [hev])
    refine hother hrreq hrrep fun d => ?_
    rw [hstep]
    exact info_doAlarmRun (h.arrive i) d
  | quiet _ hrreq hrrep _ _ hstep => exact hother hrreq hrrep fun d => .inl (by rw [hstep]; rfl)

/-! ## Runs -/

theorem freshness_iff_of (flagged : Bool) (ip bcast : InAddr) (iface : U32) (is : List Input) :
    StepsMeet step (fun s i => FreshTurn flagged s (step s i)) (mshDataInit ip bcast iface) is ↔
      StepsMeet step (KeepsFresh flagged) (mshDataInit ip bcast iface) is :=
  Machine.stepsMeet_iff (I := Wf) (fun _ i h => h.step i)
    (fun _ i h => freshTurn_step_iff flagged h i) (Wf.init ip bcast iface) is

/-- **Route freshness never regresses** in a run if and only if no message of the run updates an
    entry with older information. -/
theorem freshness_iff (ip bcast : InAddr) (iface : U32) (is : List Input) :
    StepsMeet step (fun s i => FreshTurn false s (step s i)) (mshDataInit ip bcast iface) is ↔
      StepsMeet step (KeepsFresh false) (mshDataInit ip bcast iface) is :=
  freshness_iff_of false ip bcast iface is

/-- The same where the hop count is looked at only with a valid sequence number. -/
theorem freshness_iff_flagged (ip bcast : InAddr) (iface : U32) (is : List Input) :
    StepsMeet step (fun s i => FreshTurn true s (step s i)) (mshDataInit ip bcast iface) is ↔
      StepsMeet step (KeepsFresh true) (mshDataInit ip bcast iface) is :=
  freshness_iff_of true ip bcast iface is

/-- Node 10.0.0.1 receives two replies of 10.0.0.9 two hops away, the newer one over 10.0.0.2
    first, the older one over 10.0.0.3 second. -/
def overtaken : List Input :=
  [⟨0, [], [], datagramFrom 0x0A000002 63 (aodvPktBuildRrep 0 0 1 0x0A000009 5 0x0A000001 6000)⟩,
    ⟨100000, [], [], datagramFrom 0x0A000003 63 (aodvPktBuildRrep 0 0 1 0x0A000009 3 0x0A000001 6000)⟩]

/-- **The older reply is accepted**: its hop count is that of the entry. -/
theorem stale_reply_accepted :
    ¬ ∀ (ip bcast : InAddr) (iface : U32) (is : List Input),
      StepsMeet step (fun s i => FreshTurn false s (step s i)) (mshDataInit ip bcast iface) is := by
  intro hall
  have hturn := (hall 0x0A000001 0x0A0000FF 0 overtaken).2.1 0x0A000009
  exact absurd hturn (by decide +kernel)

end Meshias
