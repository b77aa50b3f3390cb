import Meshias.Packet

/-!
# Route objects

`libmeshias/msh_route.c`, with the alarm blocks of `libmeshias/alarm/alarm.c` and the `rtnl_route`
objects of libnl that a route carries.

* `AlarmBlock` — the expiry time and, while the block is in the alarm tree, its insertion rank;
  the tree is ordered by `(tv, rank)` because `__add_alarm` walks right on equal times.
* `MshRoute` — `struct msh_route`; `self` is the address of the object.
* `mshRouteSetFlag` … `mshRouteCompare` — the setters, getters and the comparison.

The only callback ever installed is `__routing_table_route_updated_cb`; its
`RTACTION_CHANGE_NEXTHOP_IP` branch writes nothing but the route's own `rtnl_route` and is
`nexthopUpdatedCb` here, so that `mshRouteSetNextHop` is a function of the route.
-/

set_option autoImplicit false

namespace Meshias

/-! ## Alarm blocks -/

/-- `struct alarm_block`; `node = none` is a cleared `rb_node`. -/
structure AlarmBlock where
  tv : Nat := 0
  node : Option Nat := none
  deriving DecidableEq, Repr

def AlarmBlock.pending (a : AlarmBlock) : Bool := a.node.isSome

/-- `add_alarm` at clock `now`; the block goes behind every block with the same time. -/
def addAlarm (now rank sc usc : Nat) : AlarmBlock := ⟨now + (sc * 1000000 + usc), some rank⟩

theorem addAlarm_setAlarmTime (now rank : Nat) (ms : U32) :
    addAlarm now rank (setAlarmTime ms).1 (setAlarmTime ms).2 =
      ⟨now + ms.toNat * 1000, some rank⟩ := by
  rw [addAlarm, setAlarmTime_usec]

/-! ## libnl objects -/

structure NlAddr where
  addr : InAddr
  prefixlen : Nat
  deriving DecidableEq, Repr

/-- `in_addr2nl_addr`: without a prefix `nl_addr_parse` yields a host address. -/
def inAddr2nlAddr (addr : InAddr) (prefix_sz : U8) : NlAddr :=
  if prefix_sz > 0 then ⟨addr, prefix_sz.toNat⟩ else ⟨addr, 32⟩

/-- `struct rtnl_route`, as far as the daemon sets it. -/
structure RtnlRoute where
  oif : U32
  dst : NlAddr
  gateway : Option NlAddr
  deriving DecidableEq, Repr

/-! ## Flags and actions -/

def RTFLAG_VALID_DEST_SEQ_NUM : U16 := 0x0001
def RTFLAG_VALID_ENTRY : U16 := 0x0002
def RTFLAG_HAS_NEXTHOP : U16 := 0x0004
def RTFLAG_UNMANAGED : U16 := 0x0008

def RTATTR_DST_IP : U32 := 0x0001
def RTATTR_NEXTHOP_IP : U32 := 0x0002
def RTATTR_PREFIX_SZ : U32 := 0x0004
def RTATTR_DEST_SEQ_NUM : U32 := 0x0008
def RTATTR_FLAGS : U32 := 0x0010
def RTATTR_HOP_COUNT : U32 := 0x0020
def RTATTR_NET_IFACE : U32 := 0x0080
def RTATTR_LIFETIME : U32 := 0x0100
def RTATTR_UPDATED_CB : U32 := 0x0200
def RTATTR_CB_DATA : U32 := 0x0400
def RTFIND_BY_DEST_LONGEST_PREFIX_MATCHING : U32 := 0x1000

def RTACTION_UNSET_VALID_ENTRY : U32 := 0x0008
def RTACTION_DESTROY : U32 := 0x0010

def INADDR_BROADCAST : U32 := 0xffffffff

/-- `struct msh_route`.  `updated_cb` says whether the callback is set. -/
structure MshRoute where
  self : Nat
  dst_ip : InAddr := 0
  prefix_sz : U8 := 0
  dest_seq_num : U32 := 0
  flags : U16 := 0
  hop_count : U8 := 0
  next_hop : InAddr := 0
  net_iface : U32 := 0
  precursors_list : List InAddr := []
  updated_cb : Bool := false
  cb_data : Nat := 0
  nlroute : Option RtnlRoute := none
  alarm : AlarmBlock := {}
  alarm_action : U32 := 0
  deriving DecidableEq, Repr

/-- `msh_route_get_flags(route) & flag`. -/
def MshRoute.hasFlag (route : MshRoute) (flag : U16) : Bool := route.flags &&& flag != 0

/-! ## Setters and getters -/

def mshRouteSetDstIp (route : MshRoute) (dst_ip : InAddr) : MshRoute := { route with dst_ip }

def mshRouteSetFlag (route : MshRoute) (flag : U16) : MshRoute :=
  if flag = RTFLAG_VALID_DEST_SEQ_NUM then
    { route with flags := route.flags ||| RTFLAG_VALID_DEST_SEQ_NUM }
  else if flag = RTFLAG_VALID_ENTRY then
    { route with flags := route.flags ||| RTFLAG_VALID_ENTRY }
  else if flag = RTFLAG_HAS_NEXTHOP then
    { route with flags := route.flags ||| RTFLAG_HAS_NEXTHOP }
  else if flag = RTFLAG_UNMANAGED then
    { route with flags := route.flags ||| RTFLAG_UNMANAGED }
  else route

def mshRouteUnsetFlag (route : MshRoute) (flag : U16) : MshRoute :=
  if flag = RTFLAG_VALID_DEST_SEQ_NUM then
    { route with flags := route.flags &&& ~~~RTFLAG_VALID_DEST_SEQ_NUM }
  else if flag = RTFLAG_VALID_ENTRY then
    { route with flags := route.flags &&& ~~~RTFLAG_VALID_ENTRY }
  else if flag = RTFLAG_HAS_NEXTHOP then
    { route with flags := route.flags &&& ~~~RTFLAG_HAS_NEXTHOP }
  else if flag = RTFLAG_UNMANAGED then
    { route with flags := route.flags &&& ~~~RTFLAG_UNMANAGED }
  else route

def mshRouteSetHopCount (route : MshRoute) (hop_count : U8) : MshRoute := { route with hop_count }

def mshRouteSetDestSeqNum (route : MshRoute) (dest_seq_num : U32) : MshRoute :=
  { route with dest_seq_num }

/-- `__routing_table_route_updated_cb` for `RTACTION_CHANGE_NEXTHOP_IP`: the gateway is put into
    the `rtnl_route` object; no request goes to the kernel. -/
def nexthopUpdatedCb (route : MshRoute) : MshRoute :=
  match route.nlroute with
  | none => route
  | some nlroute =>
    let nexthop := inAddr2nlAddr route.next_hop route.prefix_sz
    if route.hasFlag RTFLAG_HAS_NEXTHOP then
      { route with nlroute := some { nlroute with gateway := some nexthop } }
    else route

def mshRouteSetNextHop (route : MshRoute) (next_hop : InAddr) : MshRoute :=
  let route := { mshRouteSetFlag route RTFLAG_HAS_NEXTHOP with next_hop }
  if route.updated_cb then nexthopUpdatedCb route else route

/-- `msh_route_set_lifetime` at clock `now`; `rank` is the next free rank of the alarm tree. -/
def mshRouteSetLifetime (now rank : Nat) (route : MshRoute) (lifetime : U32) : MshRoute :=
  if route.hasFlag RTFLAG_UNMANAGED then route else
  let (sc, usc) := setAlarmTime lifetime
  { mshRouteSetFlag route RTFLAG_VALID_ENTRY with
    alarm_action := RTACTION_UNSET_VALID_ENTRY, alarm := addAlarm now rank sc usc }

/-- `msh_route_get_lifetime`: `timersub` takes the alarm time from the clock, not the clock from
    the alarm time. -/
def mshRouteGetLifetime (now : Nat) (route : MshRoute) : U32 :=
  if ¬ route.hasFlag RTFLAG_VALID_ENTRY ∨ ¬ (route.alarm.tv > now) then 0 else
  let diff : Int := now - route.alarm.tv
  getAlarmTime (tvSec diff) (tvUsec diff)

def mshRouteAddPrecursor (route : MshRoute) (dst_ip : InAddr) : MshRoute :=
  if dst_ip ∈ route.precursors_list then route
  else { route with precursors_list := dst_ip :: route.precursors_list }

/-- The branch of `__msh_route_alarm_cb` for `RTACTION_UNSET_VALID_ENTRY`. -/
def mshRouteExpire (now rank : Nat) (route : MshRoute) : MshRoute :=
  let (sc, usc) := setAlarmTime DELETE_PERIOD
  { mshRouteUnsetFlag route RTFLAG_VALID_ENTRY with
    alarm_action := RTACTION_DESTROY, alarm := addAlarm now rank sc usc }

/-- `msh_route_compare`; `true` stands for a non-zero `diff`. -/
def mshRouteCompare (first second : MshRoute) (attr_flags : U32) : Bool :=
  let mask := INADDR_BROADCAST <<< second.prefix_sz.toNat
  (attr_flags &&& RTFIND_BY_DEST_LONGEST_PREFIX_MATCHING != 0 &&
    first.dst_ip &&& mask != second.dst_ip &&& mask) ||
  (attr_flags &&& RTATTR_DST_IP != 0 && first.dst_ip != second.dst_ip) ||
  (attr_flags &&& RTATTR_PREFIX_SZ != 0 && first.prefix_sz != second.prefix_sz) ||
  (attr_flags &&& RTATTR_DEST_SEQ_NUM != 0 && first.dest_seq_num != second.dest_seq_num) ||
  (attr_flags &&& RTATTR_FLAGS != 0 && first.flags != second.flags) ||
  (attr_flags &&& RTATTR_HOP_COUNT != 0 && first.hop_count != second.hop_count) ||
  (attr_flags &&& RTATTR_NEXTHOP_IP != 0 && first.next_hop != second.next_hop) ||
  (attr_flags &&& RTATTR_NET_IFACE != 0 && first.net_iface != second.net_iface) ||
  (attr_flags &&& RTATTR_LIFETIME != 0 && first.alarm.tv != second.alarm.tv) ||
  (attr_flags &&& RTATTR_UPDATED_CB != 0 && first.updated_cb != second.updated_cb) ||
  (attr_flags &&& RTATTR_CB_DATA != 0 && first.cb_data != second.cb_data)

/-! ## Flag algebra -/

theorem mask_or {x f g : U16} (h : f &&& g = 0) : (x ||| f) &&& g = x &&& g := by
  rw [BitVec.and_comm, BitVec.and_or_distrib_left, BitVec.and_comm g f, h]
  simp [BitVec.and_comm]

theorem mask_or_self {x f : U16} : (x ||| f) &&& f = f := by
  rw [BitVec.and_comm]
  ext i hi
  simp only [BitVec.getElem_and, BitVec.getElem_or]
  cases x[i] <;> cases f[i] <;> rfl

theorem mask_and_not {x f g : U16} (h : f &&& g = 0) : (x &&& ~~~f) &&& g = x &&& g := by
  ext i hi
  have hfg : (f[i] && g[i]) = false := by simpa using congrArg (fun b : U16 => b[i]) h
  simp only [BitVec.getElem_and, BitVec.getElem_not]
  revert hfg
  cases x[i] <;> cases f[i] <;> cases g[i] <;> simp

theorem mask_and_not_self {x f : U16} : (x &&& ~~~f) &&& f = 0 := by
  ext i hi
  cases hx : x[i] <;> cases hf : f[i] <;> simp [hx, hf]

/-- `flags & flag`, as a test. -/
def hasBit (flags flag : U16) : Bool := flags &&& flag != 0

theorem hasFlag_eq (r : MshRoute) (f : U16) : r.hasFlag f = hasBit r.flags f := rfl

@[simp] theorem hasBit_or {x f g : U16} (h : f &&& g = 0) : hasBit (x ||| f) g = hasBit x g := by
  rw [hasBit, mask_or h, hasBit]

@[simp] theorem hasBit_or_self {x f : U16} (h : f ≠ 0#16) : hasBit (x ||| f) f = true := by
  simpa [hasBit, mask_or_self] using h

@[simp] theorem hasBit_and_not {x f g : U16} (h : f &&& g = 0) :
    hasBit (x &&& ~~~f) g = hasBit x g := by
  rw [hasBit, mask_and_not h, hasBit]

@[simp] theorem hasBit_and_not_self {x f : U16} : hasBit (x &&& ~~~f) f = false := by
  simp [hasBit, mask_and_not_self]

/-! ## Closed forms of the setters -/

theorem mshRouteSetNextHop_eq (r : MshRoute) (next_hop : InAddr)
    (h : r.updated_cb = true → r.nlroute.isSome) :
    mshRouteSetNextHop r next_hop =
      { r with
        flags := r.flags ||| RTFLAG_HAS_NEXTHOP
        next_hop
        nlroute := if r.updated_cb then
            r.nlroute.map ({ · with gateway := some (inAddr2nlAddr next_hop r.prefix_sz) })
          else r.nlroute } := by
  have hset : mshRouteSetFlag r RTFLAG_HAS_NEXTHOP =
      { r with flags := r.flags ||| RTFLAG_HAS_NEXTHOP } := rfl
  simp only [mshRouteSetNextHop, hset, nexthopUpdatedCb]
  cases hcb : r.updated_cb with
  | false => simp
  | true =>
    obtain ⟨q, hq⟩ := Option.isSome_iff_exists.1 (h hcb)
    simp +decide [hq, hasFlag_eq]

theorem mshRouteSetLifetime_eq {r : MshRoute} (now rank : Nat) (lifetime : U32)
    (h : r.hasFlag RTFLAG_UNMANAGED = false) :
    mshRouteSetLifetime now rank r lifetime =
      { r with
        flags := r.flags ||| RTFLAG_VALID_ENTRY
        alarm_action := RTACTION_UNSET_VALID_ENTRY
        alarm := ⟨now + lifetime.toNat * 1000, some rank⟩ } := by
  have hset : mshRouteSetFlag r RTFLAG_VALID_ENTRY =
      { r with flags := r.flags ||| RTFLAG_VALID_ENTRY } := rfl
  simp only [mshRouteSetLifetime, h, hset, addAlarm_setAlarmTime]
  simp

theorem mshRouteExpire_eq (now rank : Nat) (r : MshRoute) :
    mshRouteExpire now rank r =
      { r with
        flags := r.flags &&& ~~~RTFLAG_VALID_ENTRY
        alarm_action := RTACTION_DESTROY
        alarm := ⟨now + DELETE_PERIOD.toNat * 1000, some rank⟩ } := by
  have hset : mshRouteUnsetFlag r RTFLAG_VALID_ENTRY =
      { r with flags := r.flags &&& ~~~RTFLAG_VALID_ENTRY } := rfl
  simp only [mshRouteExpire, hset, addAlarm_setAlarmTime]

/-- With the full mask of a host route the comparison is equality of the addresses. -/
theorem mshRouteCompare_host {first second : MshRoute} (h : second.prefix_sz = 0) :
    mshRouteCompare first second RTFIND_BY_DEST_LONGEST_PREFIX_MATCHING =
      (first.dst_ip != second.dst_ip) := by
  have hones : ∀ a : InAddr, a &&& 4294967295#32 = a := fun a => BitVec.and_allOnes
  simp [mshRouteCompare, h, hones, INADDR_BROADCAST,
    RTFIND_BY_DEST_LONGEST_PREFIX_MATCHING, RTATTR_DST_IP, RTATTR_PREFIX_SZ, RTATTR_DEST_SEQ_NUM, RTATTR_FLAGS, RTATTR_HOP_COUNT, RTATTR_NEXTHOP_IP,
    RTATTR_NET_IFACE, RTATTR_LIFETIME, RTATTR_UPDATED_CB, RTATTR_CB_DATA]

end Meshias
