import Meshias.Queues

/-!
# The routing table

`routing_table.c`, with `msh_route_destroy`, whose callback unlinks the route and asks the kernel
to delete it.
-/

set_option autoImplicit false

namespace Meshias

def routingTableFind (table : List MshRoute) (route : MshRoute) (attr_flags : U32) :
    Option MshRoute :=
  table.find? (fun entry => !mshRouteCompare route entry attr_flags)

/-- `routing_table_find_by_ip`; the scratch object `find_route` carries only the address. -/
def routingTableFindByIp (table : List MshRoute) (addr : InAddr) : Option MshRoute :=
  routingTableFind table { self := 0, dst_ip := addr } RTFIND_BY_DEST_LONGEST_PREFIX_MATCHING

/-- The `rtnl_route` that `routing_table_add` builds for a route. -/
def routeRequest (net_iface : U32) (route : MshRoute) : RtnlRoute where
  oif := net_iface
  dst := inAddr2nlAddr route.dst_ip route.prefix_sz
  gateway :=
    if route.hasFlag RTFLAG_HAS_NEXTHOP ∧ route.dst_ip ≠ route.next_hop then
      some (inAddr2nlAddr route.next_hop 0)
    else none

/-- The route object as `routing_table_add` leaves it when the kernel has the route. -/
def installed (s : MshData) (route : MshRoute) (nlroute : RtnlRoute) : MshRoute :=
  let route := { route with nlroute := some nlroute }
  let route := mshRouteSetLifetime s.os.now s.alarms route ACTIVE_ROUTE_TIMEOUT
  { route with updated_cb := true }

/-- The end of `routing_table_add`. -/
def routingTableInstall (s : MshData) (route : MshRoute) (nlroute : RtnlRoute) : MshData :=
  packetsFifoProcessRoute
    { s with
      alarms := s.alarms + 1, routing_table := installed s route nlroute :: s.routing_table }
    (installed s route nlroute)

/-- `routing_table_add`.  A route that is not inserted stays allocated. -/
def routingTableAdd (s : MshData) (route : MshRoute) : MshData × Int :=
  match routingTableFind s.routing_table route RTFIND_BY_DEST_LONGEST_PREFIX_MATCHING with
  | some _ => ({ s with lost_routes := route :: s.lost_routes }, 1)
  | none =>
    let nlroute := routeRequest s.net_iface route
    let (os, errno) := rtnlRouteAdd s.os nlroute
    if errno < 0 ∧ errno ≠ EEXIST then ({ s with os, lost_routes := route :: s.lost_routes }, -1)
    else (routingTableInstall { s with os } route nlroute, 0)

/-- `msh_route_destroy` on the object at `p`: `__routing_table_route_updated_cb` with
    `RTACTION_DESTROY`, if the callback is set, and then the object is freed. -/
def mshRouteDestroy (s : MshData) (route : MshRoute) : MshData :=
  let s :=
    if route.updated_cb then
      let s := { s with
        routing_table := s.routing_table.filter (fun r => r.self ≠ route.self) }
      match route.nlroute with
      | none => s
      | some nlroute => { s with os := (rtnlRouteDel s.os nlroute).1 }
    else s
  { s with lost_routes := s.lost_routes.filter (fun r => r.self ≠ route.self) }

/-- Refreshes the entry for `addr`, and the one for its next hop, as both halves of
    `routing_table_update_route` do with a route they have found. -/
def routingTableRefresh (s : MshData) (route : MshRoute) (addr : InAddr) : MshData :=
  let s := s.routeSetLifetime route.self ACTIVE_ROUTE_TIMEOUT
  let next_hop := route.next_hop
  if next_hop ≠ addr then
    match routingTableFindByIp s.routing_table next_hop with
    | some next_hop_route => s.routeSetLifetime next_hop_route.self ACTIVE_ROUTE_TIMEOUT
    | none => s
  else s

/-- The part of `routing_table_update_route` about the source of the packet. -/
def routingTableUpdateOrig (s : MshData) (orig_ip : InAddr) : MshData :=
  if orig_ip = 0 then s else
  match routingTableFindByIp s.routing_table orig_ip with
  | some orig_route => routingTableRefresh s orig_route orig_ip
  | none => s

/-- `routing_table_update_route`.  The parameter `invalid_route` is left out: the function assigns
    to the parameter itself, so the variable of the caller is never written. -/
def routingTableUpdateRoute (s : MshData) (dst_ip orig_ip : InAddr) : MshData × Bool :=
  if dst_ip ≠ s.ip_addr then
    match routingTableFindByIp s.routing_table dst_ip with
    | none => (s, false)
    | some dst_route =>
      if ¬ dst_route.hasFlag RTFLAG_VALID_ENTRY then
        ({ s with stats := { s.stats with invalid_route := s.stats.invalid_route + 1 } }, false)
      else (routingTableUpdateOrig (routingTableRefresh s dst_route dst_ip) orig_ip, true)
  else (routingTableUpdateOrig s orig_ip, true)

end Meshias
