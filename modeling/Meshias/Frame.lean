import Meshias.Table

/-!
# Operations that only touch the routing table

Insertions, updates and refreshes of routes change the table, the kernel's routes and the packets
released by an insertion, and nothing else.

* `Releases s t` — no entry disappears, and a packet leaves the queue, with the verdict
  `NF_ACCEPT`, exactly when its destination gets an entry.
* `OnlyTable s t` — `t` comes from `s` by such operations: besides, the protocol's own state, the
  RREQ queue and what was sent are the same.  One lemma for each operation.
-/

set_option autoImplicit false

namespace Meshias

/-- Every packet id the daemon has dealt with: those with a verdict, then those still queued. -/
def MshData.ids (s : MshData) : List U32 :=
  s.os.verdicts.map (·.1) ++ s.packets_queue.map (·.id)

/-- No entry disappears; a packet leaves the queue exactly when its destination gets an entry, and
    no verdict but `NF_ACCEPT` is given. -/
structure Releases (s t : MshData) : Prop where
  keeps_entry : ∀ a, s.info a ≠ none → t.info a ≠ none
  packets : t.packets_queue =
    s.packets_queue.filter (fun e => (s.info e.dest).isSome || (t.info e.dest).isNone)
  verdicts : ∃ l, t.os.verdicts = s.os.verdicts ++ l ∧ ∀ v ∈ l, v.2 = .NF_ACCEPT

structure OnlyTable (s t : MshData) : Prop extends Releases s t where
  ip_addr : t.ip_addr = s.ip_addr
  broadcast_addr : t.broadcast_addr = s.broadcast_addr
  net_iface : t.net_iface = s.net_iface
  seq_num : t.seq_num = s.seq_num
  seq_incs : t.seq_incs = s.seq_incs
  rreq_id : t.rreq_id = s.rreq_id
  rreq_queue : t.rreq_queue = s.rreq_queue
  now : t.os.now = s.os.now
  sent : t.os.sent = s.os.sent
  dels : t.os.dels = s.os.dels
  ids : t.ids.Perm s.ids

variable {s t u : MshData}

/-- A state with the same entries, packets and verdicts. -/
theorem Releases.of_same (hinfo : ∀ a, s.info a = none ↔ t.info a = none)
    (hpackets : t.packets_queue = s.packets_queue) (hverdicts : t.os.verdicts = s.os.verdicts) :
    Releases s t := by
  refine ⟨fun a ha => mt (hinfo a).2 ha, ?_, [], by rw [hverdicts, List.append_nil], by simp⟩
  rw [hpackets]
  refine (List.filter_eq_self.2 fun e _ => ?_).symm
  have he := hinfo e.dest
  cases hs : s.info e.dest with
  | none => rw [he.1 hs]; rfl
  | some i => rfl

theorem Releases.refl (s : MshData) : Releases s s := .of_same (fun _ => Iff.rfl) rfl rfl

theorem Releases.trans (h : Releases s t) (h' : Releases t u) : Releases s u where
  keeps_entry a ha := h'.keeps_entry a (h.keeps_entry a ha)
  packets := by
    rw [h'.packets, h.packets, List.filter_filter]
    refine List.filter_congr fun e _ => ?_
    have hst := h.keeps_entry e.dest
    have htu := h'.keeps_entry e.dest
    cases hs : s.info e.dest <;> cases ht : t.info e.dest <;> cases hu : u.info e.dest <;>
      simp_all
  verdicts := by
    obtain ⟨l, hl, hacc⟩ := h.verdicts
    obtain ⟨l', hl', hacc'⟩ := h'.verdicts
    refine ⟨l ++ l', by rw [hl', hl, List.append_assoc], fun v hv => ?_⟩
    rcases List.mem_append.1 hv with hv | hv
    · exact hacc v hv
    · exact hacc' v hv

/-- A packet is still queued exactly if its destination did not just get its entry. -/
theorem Releases.mem_packets (h : Releases s t) (e : PacketsFifo) :
    e ∈ t.packets_queue ↔ e ∈ s.packets_queue ∧ (s.info e.dest ≠ none ∨ t.info e.dest = none) := by
  rw [h.packets, List.mem_filter]
  refine and_congr_right fun _ => ?_
  rw [Bool.or_eq_true, Option.isSome_iff_ne_none, Option.isNone_iff_eq_none]

theorem OnlyTable.refl (s : MshData) : OnlyTable s s :=
  ⟨.refl s, rfl, rfl, rfl, rfl, rfl, rfl, rfl, rfl, rfl, rfl, .refl _⟩

theorem OnlyTable.trans (h : OnlyTable s t) (h' : OnlyTable t u) : OnlyTable s u where
  toReleases := h.toReleases.trans h'.toReleases
  ip_addr := h'.ip_addr.trans h.ip_addr
  broadcast_addr := h'.broadcast_addr.trans h.broadcast_addr
  net_iface := h'.net_iface.trans h.net_iface
  seq_num := h'.seq_num.trans h.seq_num
  seq_incs := h'.seq_incs.trans h.seq_incs
  rreq_id := h'.rreq_id.trans h.rreq_id
  rreq_queue := h'.rreq_queue.trans h.rreq_queue
  now := h'.now.trans h.now
  sent := h'.sent.trans h.sent
  dels := h'.dels.trans h.dels
  ids := h'.ids.trans h.ids

/-- A change of the table alone that neither adds nor removes an entry. -/
theorem OnlyTable.of_table {tbl lost : List MshRoute} {objects alarms : Nat} {stats : Statistics}
    (hinfo : ∀ a, s.info a = none ↔ MshData.info { s with routing_table := tbl } a = none) :
    OnlyTable s { s with
      routing_table := tbl, lost_routes := lost, objects := objects, alarms := alarms,
      stats := stats } :=
  ⟨.of_same hinfo rfl rfl, rfl, rfl, rfl, rfl, rfl, rfl, rfl, rfl, rfl, rfl, .refl _⟩

theorem onlyTable_alloc (s : MshData) : OnlyTable s (mshRouteAlloc s).1 :=
  .of_table (fun _ => Iff.rfl)

theorem info_modifyRoute_none (p : Nat) {f : MshRoute → MshRoute} (hf : Keeps f) (a : InAddr) :
    s.info a = none ↔ (s.modifyRoute p f).info a = none := by
  rw [info_eq_none, info_eq_none, entry_modifyRoute_cases hf]
  simp

theorem onlyTable_modifyRoute (p : Nat) {f : MshRoute → MshRoute} (hf : Keeps f) :
    OnlyTable s (s.modifyRoute p f) := .of_table (info_modifyRoute_none p hf)

theorem onlyTable_routeSetLifetime (p : Nat) (lifetime : U32) :
    OnlyTable s (s.routeSetLifetime p lifetime) :=
  .of_table (info_modifyRoute_none p (keeps_setLifetime _ _ lifetime))

theorem ids_packetObjAcceptWhere (p : PacketsFifo → Bool) :
    (packetObjAcceptWhere s p).ids.Perm s.ids := by
  have hperm := ((List.filter_append_perm p s.packets_queue).map (·.id)).append_left
    (s.os.verdicts.map (·.1))
  simpa [MshData.ids, Function.comp_def] using hperm

theorem ids_packetObjDropWhere (p : PacketsFifo → Bool) :
    (packetObjDropWhere s p).ids.Perm s.ids := by
  have hperm := ((List.filter_append_perm p s.packets_queue).map (·.id)).append_left
    (s.os.verdicts.map (·.1))
  simpa [MshData.ids, Function.comp_def] using hperm

/-- What `rtnl_route_add` changes of the operating system. -/
theorem rtnlRouteAdd_frame (os : Os) (q : RtnlRoute) :
    (rtnlRouteAdd os q).1.now = os.now ∧ (rtnlRouteAdd os q).1.sent = os.sent ∧
      (rtnlRouteAdd os q).1.verdicts = os.verdicts ∧ (rtnlRouteAdd os q).1.dels = os.dels := by
  unfold rtnlRouteAdd
  dsimp only
  split
  · exact ⟨rfl, rfl, rfl, rfl⟩
  · split <;> exact ⟨rfl, rfl, rfl, rfl⟩

theorem releases_addInstalled (h : Wf s) {route : MshRoute} (hf : Fresh s route)
    (hnew : s.entry route.dst_ip = none) (href : s.refuses = false) :
    Releases s (addInstalled s route) := by
  have hinfo : ∀ b, (addInstalled s route).info b =
      if b = route.dst_ip then
        some (route.info.withNlroute (routeRequest s.net_iface route))
      else s.info b := by
    intro b
    have := info_routingTableAdd h hf hnew b
    rw [routingTableAdd_eq h hnew, href, if_neg Bool.false_ne_true] at this
    simpa only [true_and] using this
  have hverd := (rtnlRouteAdd_frame s.os (routeRequest s.net_iface route)).2.2.1
  have hnone : s.info route.dst_ip = none := info_eq_none.2 hnew
  constructor
  case keeps_entry =>
    intro a ha
    rw [hinfo]
    split
    · exact Option.some_ne_none _
    · exact ha
  all_goals rw [addInstalled, routingTableInstall_eq hf] at hinfo ⊢
  case packets =>
    refine List.filter_congr fun e _ => ?_
    rw [hinfo]
    by_cases he : e.dest = route.dst_ip
    · simp [he, hnone]
    · cases s.info e.dest <;> simp [he]
  case verdicts =>
    refine ⟨(s.packets_queue.filter (fun e => e.dest = route.dst_ip)).map
      (fun e => (e.id, .NF_ACCEPT)), congrArg (· ++ _) hverd, fun v hv => ?_⟩
    obtain ⟨e, -, rfl⟩ := List.mem_map.1 hv
    rfl

theorem onlyTable_addInstalled (h : Wf s) {route : MshRoute} (hf : Fresh s route)
    (hnew : s.entry route.dst_ip = none) (href : s.refuses = false) :
    OnlyTable s (addInstalled s route) := by
  have hrel := releases_addInstalled h hf hnew href
  obtain ⟨hnow, hsent, hverd, hdels⟩ :=
    rtnlRouteAdd_frame s.os (routeRequest s.net_iface route)
  rw [addInstalled, routingTableInstall_eq hf] at hrel ⊢
  refine ⟨hrel, rfl, rfl, rfl, rfl, rfl, rfl, rfl, hnow, hsent, hdels, ?_⟩
  refine (ids_packetObjAcceptWhere _).trans (List.Perm.of_eq ?_)
  exact congrArg (fun v => v.map (·.1) ++ s.packets_queue.map (·.id)) hverd

theorem onlyTable_addRefused (s : MshData) (route : MshRoute) :
    OnlyTable s (addRefused s route) :=
  ⟨.of_same (fun _ => Iff.rfl) rfl rfl, rfl, rfl, rfl, rfl, rfl, rfl, rfl, rfl, rfl, rfl, .refl _⟩

theorem onlyTable_routingTableAdd (h : Wf s) {route : MshRoute} (hf : Fresh s route)
    (hnew : s.entry route.dst_ip = none) : OnlyTable s (routingTableAdd s route).1 := by
  rw [routingTableAdd_eq h hnew]
  cases href : s.refuses with
  | true => rw [if_pos rfl]; exact onlyTable_addRefused s route
  | false => rw [if_neg Bool.false_ne_true]; exact onlyTable_addInstalled h hf hnew href

end Meshias
