import Meshias.Reachable

/-!
# Deleting routes

`routing_table_del` and `routing_table_delete` of `routing_table.c`, the latter as
`msh_data_shutdown` calls it.

* `Fault` — what the functions run into when a pointer is not what they take it for.
* `routingTableDel`, `routingTableDelete` — with the objects they free, in order.  A freed entry
  that nothing has unlinked stays in the list, and its alarm in the tree.
* `DeletesRoute` — what deleting a route is to do; `CleanShutdown` — and shutting down.

Without attributes `msh_route_compare` finds no difference between any two routes, and the test of
its result in `routing_table_del` is the wrong way round.

Principal results: `deletesRoute_iff`, `cleanShutdown_iff`.
-/

set_option autoImplicit false

namespace Meshias

open Machine (run)

inductive Fault where
  | nullPointer
  | uninitialized
  | poisonedList
  deriving DecidableEq, Repr

/-- An object that is freed: a route, or the scratch object of the lookups. -/
inductive RouteObject where
  | route (self : Nat)
  | findRoute
  deriving DecidableEq, Repr

/-- What `routing_table_del` leaves behind. -/
structure Deletion where
  data : MshData
  freed : List RouteObject
  ret : Int
  deriving DecidableEq, Repr

/-- The part of `routing_table_del` behind the null test.  An unmanaged route leaves `nlroute`
    unset; with the callback the route is unlinked a second time. -/
def routingTableDelFound (s : MshData) (found route : MshRoute) : Except Fault Deletion :=
  if found.hasFlag RTFLAG_UNMANAGED then .error .uninitialized else
  match route.nlroute with
  | none => .error .nullPointer
  | some nlroute =>
    let (os, errno) := rtnlRouteDel s.os nlroute
    if errno < 0 then .ok ⟨{ s with os }, [], -1⟩
    else if route.updated_cb then .error .poisonedList
    else
      let s := { s with
        os, routing_table := s.routing_table.filter (fun r => r.self ≠ route.self) }
      .ok ⟨mshRouteDestroy s { route with nlroute := none }, [.route route.self], 0⟩

/-- `routing_table_del`. -/
def routingTableDel (s : MshData) (route : MshRoute) : Except Fault Deletion :=
  let found := routingTableFind s.routing_table route 0
  if found.isSome then .ok ⟨s, [], 1⟩ else
  match found with
  | none => .error .nullPointer
  | some found => routingTableDelFound s found route

/-- One turn of the loop of `routing_table_delete`; the result of `routing_table_del` is not
    looked at. -/
def routingTableDeleteEntry (d : Deletion) (entry : MshRoute) : Except Fault Deletion := do
  let d' ← routingTableDel d.data entry
  return ⟨d'.data, d.freed ++ d'.freed ++ [.route entry.self], d'.ret⟩

/-- `routing_table_delete`; `find_route` has no callback. -/
def routingTableDelete (s : MshData) : Except Fault Deletion := do
  let d ← s.routing_table.foldlM routingTableDeleteEntry ⟨s, [], 0⟩
  return { d with freed := d.freed ++ [.findRoute] }

/-! ## One route -/

/-- Comparing nothing finds no difference. -/
theorem mshRouteCompare_zero (first second : MshRoute) : mshRouteCompare first second 0 = false := by
  simp [mshRouteCompare]

theorem routingTableFind_zero (table : List MshRoute) (route : MshRoute) :
    routingTableFind table route 0 = table.head? := by
  cases table with
  | nil => rfl
  | cons entry table =>
    exact List.find?_cons_of_pos (by rw [mshRouteCompare_zero]; rfl)

theorem routingTableDel_nil {s : MshData} (h : s.routing_table = []) (route : MshRoute) :
    routingTableDel s route = .error .nullPointer := by
  unfold routingTableDel
  rw [routingTableFind_zero, h]
  rfl

theorem routingTableDel_of_ne_nil {s : MshData} (h : s.routing_table ≠ []) (route : MshRoute) :
    routingTableDel s route = .ok ⟨s, [], 1⟩ := by
  have hsome : (routingTableFind s.routing_table route 0).isSome = true := by
    rw [routingTableFind_zero, List.isSome_head?]
    exact h
  rw [routingTableDel, if_pos hsome]

/-- The object is an entry of the table. -/
def InTable (s : MshData) (route : MshRoute) : Prop := ∃ r ∈ s.routing_table, r.self = route.self

/-- The kernel would refuse to delete the route. -/
def KernelKeeps (s : MshData) (route : MshRoute) : Prop :=
  route.hasFlag RTFLAG_UNMANAGED = false ∧
    ∃ nlroute ∈ route.nlroute, (rtnlRouteDel s.os nlroute).2 < 0

/-- The kernel after the request to delete the route, if there is one to make. -/
def kernelAsked (s : MshData) (route : MshRoute) : Os :=
  if route.hasFlag RTFLAG_UNMANAGED then s.os
  else (route.nlroute.map (fun nlroute => (rtnlRouteDel s.os nlroute).1)).getD s.os

structure RouteDeleted (s : MshData) (route : MshRoute) (d : Deletion) : Prop where
  ret : d.ret = 0
  table : d.data.routing_table = s.routing_table.filter (fun r => r.self ≠ route.self)
  kernel : d.data.os = kernelAsked s route
  alarm : ∀ a ∈ alarmTree d.data, a.owner ≠ .route route.self

structure NothingDeleted (s : MshData) (d : Deletion) : Prop where
  ret : d.ret ≠ 0
  table : d.data.routing_table = s.routing_table
  kernel : d.data.os.routes = s.os.routes
  alarms : alarmTree d.data = alarmTree s

/-- The call returns; it deletes an entry of the table unless the kernel refuses, and otherwise
    says so and changes nothing. -/
def DeletesRoute (s : MshData) (route : MshRoute) : Prop :=
  ∃ d, routingTableDel s route = .ok d ∧
    (InTable s route ∧ ¬ KernelKeeps s route → RouteDeleted s route d) ∧
    (¬ InTable s route ∨ KernelKeeps s route → NothingDeleted s d)

/-- **When `routing_table_del` does what it is for**: whenever there is nothing to delete, in a
    table that has entries. -/
theorem deletesRoute_iff (s : MshData) (route : MshRoute) :
    DeletesRoute s route ↔
      s.routing_table ≠ [] ∧ (InTable s route → KernelKeeps s route) := by
  unfold DeletesRoute
  by_cases hnil : s.routing_table = []
  · refine iff_of_false ?_ fun h => h.1 hnil
    rintro ⟨d, hd, -⟩
    rw [routingTableDel_nil hnil] at hd
    cases hd
  · rw [routingTableDel_of_ne_nil hnil, and_iff_right hnil]
    constructor
    · rintro ⟨d, hd, hdeleted, -⟩ hin
      obtain rfl := Except.ok.inj hd
      by_contra hkeeps
      exact absurd (hdeleted ⟨hin, hkeeps⟩).ret one_ne_zero
    · intro h
      refine ⟨_, rfl, fun hdel => absurd (h hdel.1) hdel.2, fun _ => ?_⟩
      exact ⟨one_ne_zero, rfl, rfl, rfl⟩

/-- A table with the route to 10.0.0.2, and an object that is not in it. -/
def oneRoute : MshRoute :=
  { self := 0, dst_ip := 0x0A000002, flags := RTFLAG_VALID_ENTRY, updated_cb := true,
    nlroute := some ⟨0, ⟨0x0A000002, 32⟩, none⟩ }

def oneRouteTable : MshData :=
  { mshDataInit 0x0A000001 0x0A0000FF 0 with
    routing_table := [oneRoute], objects := 1, os := { routes := [⟨0, ⟨0x0A000002, 32⟩, none⟩] } }

/-- **The entry of a table with one route is not deleted.** -/
theorem route_not_deleted : ¬ ∀ (s : MshData) (route : MshRoute), DeletesRoute s route := by
  intro hall
  obtain ⟨d, hd, hdeleted, -⟩ := hall oneRouteTable oneRoute
  have hin : InTable oneRouteTable oneRoute := ⟨oneRoute, List.mem_singleton_self _, rfl⟩
  have htakes : ¬ KernelKeeps oneRouteTable oneRoute := by
    rintro ⟨-, nlroute, hq, hneg⟩
    obtain rfl := Option.mem_some_iff.1 hq
    revert hneg
    decide
  rw [routingTableDel_of_ne_nil (List.cons_ne_nil _ _)] at hd
  obtain rfl := Except.ok.inj hd
  exact absurd (hdeleted ⟨hin, htakes⟩).ret one_ne_zero

/-! ## The whole table -/

/-- The loop frees every entry and changes nothing else. -/
theorem foldlM_routingTableDeleteEntry {d : Deletion} (h : d.data.routing_table ≠ [])
    (entries : List MshRoute) :
    ∃ ret, entries.foldlM routingTableDeleteEntry d =
      .ok ⟨d.data, d.freed ++ entries.map (fun r => .route r.self), ret⟩ := by
  induction entries generalizing d with
  | nil => exact ⟨d.ret, by simp; rfl⟩
  | cons entry entries ih =>
    have hentry : routingTableDeleteEntry d entry =
        .ok ⟨d.data, d.freed ++ [.route entry.self], 1⟩ := by
      rw [routingTableDeleteEntry, routingTableDel_of_ne_nil h]
      simp [bind, Except.bind, pure, Except.pure]
    obtain ⟨ret, hret⟩ := ih (d := ⟨d.data, d.freed ++ [.route entry.self], 1⟩) h
    refine ⟨ret, ?_⟩
    rw [List.foldlM_cons, hentry]
    simpa [bind, Except.bind] using hret

theorem routingTableDelete_eq (s : MshData) :
    ∃ ret, routingTableDelete s =
      .ok ⟨s, s.routing_table.map (fun r => .route r.self) ++ [.findRoute], ret⟩ := by
  unfold routingTableDelete
  by_cases hnil : s.routing_table = []
  · rw [hnil]
    exact ⟨0, rfl⟩
  · obtain ⟨ret, hret⟩ := foldlM_routingTableDeleteEntry (d := ⟨s, [], 0⟩) hnil s.routing_table
    refine ⟨ret, ?_⟩
    rw [hret]
    rfl

/-- After `routing_table_delete` no alarm of an entry is pending, the deletion of every entry's
    kernel route has been requested once, and each of `objects` and the scratch object has been
    freed once. -/
structure CleanlyDeleted (s : MshData) (objects : List MshRoute) (d : Deletion) : Prop where
  alarms : ∀ r ∈ s.routing_table, ∀ a ∈ alarmTree d.data, a.owner ≠ .route r.self
  kernel : ∀ r ∈ s.routing_table, ∀ nlroute ∈ r.nlroute,
    (d.data.os.dels.drop s.os.dels.length).countP (fun del => del.1 = nlroute) = 1
  freed : ∀ r ∈ objects, d.freed.count (.route r.self) = 1
  find_route : d.freed.count .findRoute = 1

def CleanShutdown (s : MshData) (objects : List MshRoute) : Prop :=
  ∃ d, routingTableDelete s = .ok d ∧ CleanlyDeleted s objects d

theorem cleanShutdown_iff_cleanlyDeleted (s : MshData) (objects : List MshRoute) :
    CleanShutdown s objects ↔ ∃ ret, CleanlyDeleted s objects
      ⟨s, s.routing_table.map (fun r => .route r.self) ++ [.findRoute], ret⟩ := by
  obtain ⟨ret, hret⟩ := routingTableDelete_eq s
  constructor
  · rintro ⟨d, hd, hclean⟩
    obtain rfl := Except.ok.inj (hret.symm.trans hd)
    exact ⟨ret, hclean⟩
  · rintro ⟨ret', hclean⟩
    exact ⟨_, hret, hclean.alarms, hclean.kernel, hclean.freed, hclean.find_route⟩

/-- The deletion of a kernel route is never requested. -/
theorem no_entry_of_cleanShutdown {s : MshData} (h : Wf s) {objects : List MshRoute}
    (hclean : CleanShutdown s objects) : s.routing_table = [] := by
  obtain ⟨ret, hclean⟩ := (cleanShutdown_iff_cleanlyDeleted s objects).1 hclean
  refine List.eq_nil_iff_forall_not_mem.2 fun r hr => ?_
  obtain ⟨nlroute, hnl, -⟩ := (h.entry_ok r hr).nlroute
  have hone := hclean.kernel r hr nlroute hnl
  rw [List.drop_length, List.countP_nil] at hone
  exact absurd hone zero_ne_one

/-- Without an entry only the scratch object is freed. -/
theorem cleanShutdown_of_nil {s : MshData} (h : s.routing_table = []) {objects : List MshRoute} :
    CleanShutdown s objects ↔ objects = [] := by
  rw [cleanShutdown_iff_cleanlyDeleted, h]
  constructor
  · rintro ⟨ret, hclean⟩
    refine List.eq_nil_iff_forall_not_mem.2 fun r hr => ?_
    have hone := hclean.freed r hr
    simp at hone
  · rintro rfl
    refine ⟨0, ?_, ?_, ?_, ?_⟩ <;> simp [h]

theorem cleanShutdown_wf_iff {s : MshData} (h : Wf s) (objects : List MshRoute) :
    CleanShutdown s objects ↔ s.routing_table = [] ∧ objects = [] := by
  constructor
  · intro hclean
    have hnil := no_entry_of_cleanShutdown h hclean
    exact ⟨hnil, (cleanShutdown_of_nil hnil).1 hclean⟩
  · rintro ⟨hnil, hobjects⟩
    exact (cleanShutdown_of_nil hnil).2 hobjects

/-- **When the daemon shuts down cleanly**, in every state it reaches: when the table is empty,
    and, if the objects outside of it count as well, there are none of them. -/
theorem cleanShutdown_iff (ip bcast : InAddr) (iface : U32) (is : List Input) :
    (CleanShutdown (run step (mshDataInit ip bcast iface) is)
        (run step (mshDataInit ip bcast iface) is).routing_table ↔
      (run step (mshDataInit ip bcast iface) is).routing_table = []) ∧
    (CleanShutdown (run step (mshDataInit ip bcast iface) is)
        ((run step (mshDataInit ip bcast iface) is).routing_table ++
          (run step (mshDataInit ip bcast iface) is).lost_routes) ↔
      (run step (mshDataInit ip bcast iface) is).routing_table = [] ∧
        (run step (mshDataInit ip bcast iface) is).lost_routes = []) := by
  have hwf := wf_run ip bcast iface is
  rw [cleanShutdown_wf_iff hwf, cleanShutdown_wf_iff hwf, List.append_eq_nil_iff]
  exact ⟨and_self_iff, by tauto⟩

/-- The first RREQ that 10.0.0.1 hears, from its neighbour 10.0.0.2. -/
def neighbourHeard : Input :=
  ⟨0, [], [], datagramFrom 0x0A000002 60 (aodvPktBuildRreq 1 0 1 0x0A000008 0 0x0A000002 1)⟩

/-- **The route to the neighbour survives the daemon.** -/
theorem route_left_behind :
    ¬ ∀ (ip bcast : InAddr) (iface : U32) (is : List Input),
      CleanShutdown (run step (mshDataInit ip bcast iface) is)
        (run step (mshDataInit ip bcast iface) is).routing_table := by
  intro hall
  have hnil := no_entry_of_cleanShutdown (wf_run _ _ _ [neighbourHeard])
    (hall 0x0A000001 0x0A0000FF 0 [neighbourHeard])
  revert hnil
  decide +kernel

end Meshias
