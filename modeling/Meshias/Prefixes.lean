import Meshias.Table
import Meshias.Lib.Machine
import Meshias.Lib.Prefixes

/-!
# Routes to more than one address

`prefix_sz` in the comparison of routes, in the table and in the kernel.  The daemon's own routes
have `prefix_sz = 0`; here it is any number for which the mask of `msh_route_compare` is defined.

* `MshRoute.net`, `NlAddr.net` — the network of a route as `msh_route_compare` and as the kernel
  read it.  The mask is shifted to the left, so `prefix_sz` counts free bits there and significant
  bits in the kernel.
* `PrefixAgrees` — the two readings agree about an address.
* `LongestPrefix` — `routing_table_find_by_ip` returns a most specific match.
* `addRoute` — `routing_table_add` as a machine, from an empty table.

Principal results: `prefixAgrees_iff`, `longestPrefix_iff`.
-/

set_option autoImplicit false

namespace Meshias

open Prefixes Machine

/-- A route whose `prefix_sz` is less than the width of the mask. -/
abbrev PrefixRoute := { route : MshRoute // route.prefix_sz.toNat < 32 }

/-- The route matches the address of `first`. -/
def MshRoute.Matches (route first : MshRoute) : Prop :=
  mshRouteCompare first route RTFIND_BY_DEST_LONGEST_PREFIX_MATCHING = false

instance (route first : MshRoute) : Decidable (route.Matches first) :=
  inferInstanceAs (Decidable (_ = _))

def MshRoute.net (route : MshRoute) : Net 32 := ⟨route.dst_ip, route.prefix_sz.toNat⟩

/-- The addresses that agree with `addr` on the `prefixlen` most significant bits. -/
def NlAddr.net (addr : NlAddr) : Net 32 := ⟨addr.addr, 32 - addr.prefixlen⟩

theorem matches_iff {route first : MshRoute} :
    route.Matches first ↔ route.net.Contains first.dst_ip := by
  have hmask : INADDR_BROADCAST = BitVec.allOnes 32 := by decide
  unfold MshRoute.Matches MshRoute.net Net.Contains
  rw [← sameNet_iff_mask, ← hmask]
  simp [mshRouteCompare, RTFIND_BY_DEST_LONGEST_PREFIX_MATCHING, RTATTR_DST_IP, RTATTR_PREFIX_SZ,
    RTATTR_DEST_SEQ_NUM, RTATTR_FLAGS, RTATTR_HOP_COUNT, RTATTR_NEXTHOP_IP, RTATTR_NET_IFACE,
    RTATTR_LIFETIME, RTATTR_UPDATED_CB, RTATTR_CB_DATA]

/-! ## The two readings of a prefix -/

/-- `msh_route_compare` matches the address exactly if the kernel's network contains it. -/
def PrefixAgrees (first route : MshRoute) : Prop :=
  route.Matches first ↔
    (inAddr2nlAddr route.dst_ip route.prefix_sz).net.Contains first.dst_ip

theorem kernelNet_host {route : MshRoute} (h : route.prefix_sz.toNat = 0) :
    (inAddr2nlAddr route.dst_ip route.prefix_sz).net = ⟨route.dst_ip, 0⟩ := by
  have hzero : route.prefix_sz = 0 := BitVec.eq_of_toNat_eq h
  rw [inAddr2nlAddr, hzero]
  rfl

theorem kernelNet_network {route : MshRoute} (h : route.prefix_sz.toNat ≠ 0) :
    (inAddr2nlAddr route.dst_ip route.prefix_sz).net =
      ⟨route.dst_ip, 32 - route.prefix_sz.toNat⟩ := by
  have hpos : route.prefix_sz > 0 := by
    rw [gt_iff_lt, BitVec.lt_def]
    exact Nat.pos_of_ne_zero h
  rw [inAddr2nlAddr, if_pos hpos]
  rfl

theorem prefixAgrees_host {first route : MshRoute} (h : route.prefix_sz.toNat = 0) :
    PrefixAgrees first route := by
  unfold PrefixAgrees
  rw [matches_iff, kernelNet_host h, MshRoute.net, h]

theorem prefixAgrees_network {first route : MshRoute} (h : route.prefix_sz.toNat ≠ 0) :
    PrefixAgrees first route ↔
      (SameNet route.prefix_sz.toNat first.dst_ip route.dst_ip ↔
        SameNet (32 - route.prefix_sz.toNat) first.dst_ip route.dst_ip) := by
  unfold PrefixAgrees
  rw [matches_iff, kernelNet_network h]
  rfl

/-- The address agrees with the destination in all bits that one of the readings looks at, or
    differs from it in one that both look at. -/
def ReadAlike (first route : MshRoute) : Prop :=
  route.prefix_sz.toNat = 0 ∨
    SameNet (min route.prefix_sz.toNat (32 - route.prefix_sz.toNat)) first.dst_ip route.dst_ip ∨
    ¬ SameNet (max route.prefix_sz.toNat (32 - route.prefix_sz.toNat)) first.dst_ip route.dst_ip

theorem sameNet_iff_min_max {j k : Nat} {a b : InAddr} :
    (SameNet j a b ↔ SameNet k a b) ↔ SameNet (min j k) a b ∨ ¬ SameNet (max j k) a b := by
  rcases Nat.le_total j k with hle | hle
  · rw [Nat.min_eq_left hle, Nat.max_eq_right hle]
    have hmono : SameNet j a b → SameNet k a b := fun h => h.mono hle
    tauto
  · rw [Nat.min_eq_right hle, Nat.max_eq_left hle]
    have hmono : SameNet k a b → SameNet j a b := fun h => h.mono hle
    tauto

theorem prefixAgrees_iff_readAlike (first route : MshRoute) :
    PrefixAgrees first route ↔ ReadAlike first route := by
  unfold ReadAlike
  by_cases h : route.prefix_sz.toNat = 0
  · simp only [prefixAgrees_host h, h, true_or]
  · rw [prefixAgrees_network h, sameNet_iff_min_max, or_iff_right h]

/-- **User space and kernel read a prefix alike**, for one address and for all of them. -/
theorem prefixAgrees_iff (route : PrefixRoute) :
    (∀ first, PrefixAgrees first route.1 ↔ ReadAlike first route.1) ∧
      ((∀ first, PrefixAgrees first route.1) ↔
        route.1.prefix_sz = 0 ∨ route.1.prefix_sz = 16) := by
  obtain ⟨route, hsz⟩ := route
  refine ⟨fun first => prefixAgrees_iff_readAlike first route, ?_⟩
  have hzero : route.prefix_sz = 0 ↔ route.prefix_sz.toNat = 0 := BitVec.toNat_inj.symm
  have hhalf : route.prefix_sz = 16 ↔ route.prefix_sz.toNat = 16 := BitVec.toNat_inj.symm
  rw [hzero, hhalf]
  by_cases h : route.prefix_sz.toNat = 0
  · simp [prefixAgrees_host h, h]
  · rw [or_iff_right h]
    constructor
    · intro hall
      have hall' : ∀ a : InAddr, SameNet route.prefix_sz.toNat a route.dst_ip ↔
          SameNet (32 - route.prefix_sz.toNat) a route.dst_ip :=
        fun a => (prefixAgrees_network h).1 (hall { self := 0, dst_ip := a })
      have hle := le_of_sameNet (Nat.le_of_lt hsz) fun a ha => (hall' a).1 ha
      have hge := le_of_sameNet (Nat.sub_le 32 _) fun a ha => (hall' a).2 ha
      omega
    · intro h16 first
      rw [prefixAgrees_network h, h16]

/-- 10.1.0.0 and the route to 10.0.0.0/24: the comparison takes the 24 low bits for free. -/
theorem prefix_read_differently :
    ¬ ∀ (first : MshRoute) (route : PrefixRoute), PrefixAgrees first route.1 := by
  intro hall
  have h := hall { self := 0, dst_ip := 0x0a010000 }
    ⟨{ self := 1, dst_ip := 0x0a000000, prefix_sz := 24 }, by decide⟩
  revert h
  unfold PrefixAgrees
  decide

/-! ## The first match of the table -/

/-- `routing_table_find_by_ip` returns a match whose mask leaves the fewest bits free, if there is
    a match at all. -/
def LongestPrefix (table : List MshRoute) (a : InAddr) : Prop :=
  ∀ route ∈ table, route.Matches { self := 0, dst_ip := a } →
    ∃ found, routingTableFindByIp table a = some found ∧
      found.prefix_sz.toNat ≤ route.prefix_sz.toNat

instance (table : List MshRoute) (a : InAddr) : Decidable (LongestPrefix table a) :=
  decidable_of_iff (∀ route ∈ table, route.Matches { self := 0, dst_ip := a } →
      (routingTableFindByIp table a).any
        (fun found => decide (found.prefix_sz.toNat ≤ route.prefix_sz.toNat)) = true)
    (by simp only [LongestPrefix, Option.any_eq_true, decide_eq_true_eq])

theorem firstMatch_net (table : List MshRoute) (a : InAddr) :
    firstMatch (table.map MshRoute.net) a = (routingTableFindByIp table a).map MshRoute.net := by
  rw [firstMatch, List.find?_map, routingTableFindByIp, routingTableFind]
  congr 2
  funext route
  have h : route.Matches { self := 0, dst_ip := a } ↔ route.net.Contains a := matches_iff
  rw [Function.comp_apply, Bool.eq_iff_iff, decide_eq_true_iff, ← h, MshRoute.Matches,
    Bool.not_eq_true']

theorem longestPrefix_iff_mostSpecific {table : List MshRoute} {a : InAddr} :
    LongestPrefix table a ↔ MostSpecific (table.map MshRoute.net) a := by
  unfold LongestPrefix MostSpecific
  rw [List.forall_mem_map, firstMatch_net]
  refine forall₂_congr fun route _ => imp_congr matches_iff ?_
  cases routingTableFindByIp table a with
  | none => simp
  | some found => simp [MshRoute.net]

/-! ## Tables built by insertions -/

def addRoute (s : MshData) (route : PrefixRoute) : MshData := (routingTableAdd s route.1).1

/-- `routing_table_add` finds the destination covered, or the kernel refuses the route. -/
def NotAdded (s : MshData) (route : PrefixRoute) : Prop :=
  (∃ entry ∈ s.routing_table, entry.net.Contains route.1.dst_ip) ∨
    s.refuses = true

instance (s : MshData) (route : PrefixRoute) : Decidable (NotAdded s route) :=
  inferInstanceAs (Decidable (_ ∨ _))

/-- If the route goes into the table, its network contains no destination that is there. -/
def HidesNothing (s : MshData) (route : PrefixRoute) : Prop :=
  NotAdded s route ∨ ∀ entry ∈ s.routing_table, ¬ route.1.net.Contains entry.dst_ip

instance (s : MshData) (route : PrefixRoute) : Decidable (HidesNothing s route) :=
  inferInstanceAs (Decidable (_ ∨ _))

theorem net_installed (s : MshData) (route : MshRoute) (nlroute : RtnlRoute) :
    (installed s route nlroute).net = route.net := by
  simp only [installed, mshRouteSetLifetime, mshRouteSetFlag, MshRoute.net]
  split <;> rfl

theorem routingTableFind_isSome {table : List MshRoute} {route : MshRoute} :
    (routingTableFind table route RTFIND_BY_DEST_LONGEST_PREFIX_MATCHING).isSome ↔
      ∃ entry ∈ table, entry.net.Contains route.dst_ip := by
  rw [routingTableFind, List.find?_isSome]
  refine exists_congr fun entry => and_congr_right fun _ => ?_
  rw [← matches_iff, MshRoute.Matches, Bool.not_eq_true']

theorem routing_table_addRoute_of_notAdded {s : MshData} {route : PrefixRoute}
    (h : NotAdded s route) : (addRoute s route).routing_table = s.routing_table := by
  unfold addRoute routingTableAdd
  cases hfind : routingTableFind s.routing_table route.1
      RTFIND_BY_DEST_LONGEST_PREFIX_MATCHING with
  | some entry => rfl
  | none =>
    have hrefused : s.refuses = true := by
      refine h.resolve_left fun hcovered => ?_
      rw [← routingTableFind_isSome, hfind] at hcovered
      cases hcovered
    dsimp only
    rw [if_pos ((rtnlRouteAdd_errno s.os _).2 hrefused)]

theorem nets_addRoute {s : MshData} {route : PrefixRoute} (h : ¬ NotAdded s route) :
    (addRoute s route).routing_table.map MshRoute.net =
      route.1.net :: s.routing_table.map MshRoute.net := by
  obtain ⟨hfree, htaken⟩ := not_or.1 h
  unfold addRoute routingTableAdd
  cases hfind : routingTableFind s.routing_table route.1
      RTFIND_BY_DEST_LONGEST_PREFIX_MATCHING with
  | some entry =>
    refine absurd (routingTableFind_isSome.1 ?_) hfree
    rw [hfind]
    rfl
  | none =>
    dsimp only
    rw [if_neg (mt (rtnlRouteAdd_errno s.os _).1 htaken)]
    show (installed _ route.1 _).net :: _ = _
    rw [net_installed]

/-- No entry covers a destination that was added after it. -/
theorem newestFirst_addRoute {s : MshData} (h : NewestFirst (s.routing_table.map MshRoute.net))
    (route : PrefixRoute) :
    NewestFirst ((addRoute s route).routing_table.map MshRoute.net) := by
  by_cases hnot : NotAdded s route
  · rwa [routing_table_addRoute_of_notAdded hnot]
  · rw [nets_addRoute hnot]
    refine List.pairwise_cons.2 ⟨List.forall_mem_map.2 fun entry hentry hin => ?_, h⟩
    exact hnot (.inl ⟨entry, hentry, hin⟩)

theorem disjoint_addRoute (s : MshData) (route : PrefixRoute) :
    Prefixes.Disjoint ((addRoute s route).routing_table.map MshRoute.net) ↔
      Prefixes.Disjoint (s.routing_table.map MshRoute.net) ∧ HidesNothing s route := by
  unfold HidesNothing
  by_cases hnot : NotAdded s route
  · simp [routing_table_addRoute_of_notAdded hnot, hnot]
  · rw [nets_addRoute hnot, Prefixes.Disjoint, List.pairwise_cons, or_iff_right hnot,
      List.forall_mem_map, and_comm]
    rfl

theorem newestFirst_run {s : MshData} (h : NewestFirst (s.routing_table.map MshRoute.net))
    (routes : List PrefixRoute) :
    NewestFirst ((run addRoute s routes).routing_table.map MshRoute.net) := by
  induction routes generalizing s with
  | nil => exact h
  | cons route routes ih => exact ih (newestFirst_addRoute h route)

theorem disjoint_run (s : MshData) (routes : List PrefixRoute) :
    Prefixes.Disjoint ((run addRoute s routes).routing_table.map MshRoute.net) ↔
      Prefixes.Disjoint (s.routing_table.map MshRoute.net) ∧
        StepsMeet addRoute HidesNothing s routes :=
  run_iff (I := fun _ => True)
    (P := fun t : MshData => Prefixes.Disjoint (t.routing_table.map MshRoute.net))
    (fun _ _ _ => trivial) (fun t route _ => disjoint_addRoute t route) trivial routes

/-- **Longest prefix matching.**  Whatever is added to an empty table: lookups return a most
    specific match, for every address, exactly if no added route covers an earlier one. -/
theorem longestPrefix_iff (s : MshData) (routes : List PrefixRoute) :
    (∀ a, LongestPrefix (run addRoute { s with routing_table := [] } routes).routing_table a) ↔
      StepsMeet addRoute HidesNothing { s with routing_table := [] } routes := by
  set s₀ : MshData := { s with routing_table := [] }
  have hnewest := newestFirst_run (s := s₀) List.Pairwise.nil routes
  calc (∀ a, LongestPrefix (run addRoute s₀ routes).routing_table a)
      ↔ ∀ a, MostSpecific ((run addRoute s₀ routes).routing_table.map MshRoute.net) a :=
        forall_congr' fun _ => longestPrefix_iff_mostSpecific
    _ ↔ Prefixes.Disjoint ((run addRoute s₀ routes).routing_table.map MshRoute.net) :=
        mostSpecific_iff hnewest
    _ ↔ StepsMeet addRoute HidesNothing s₀ routes := by
        rw [disjoint_run]
        exact and_iff_right List.Pairwise.nil

/-- A host route, and a route that covers it and is added later. -/
def hostAndWider : List PrefixRoute :=
  [⟨{ self := 0, dst_ip := 0x0a000001 }, by decide⟩,
    ⟨{ self := 1, dst_ip := 0x0a000002, prefix_sz := 8 }, by decide⟩]

/-- The lookup for 10.0.0.1 then returns the wider route. -/
theorem host_route_hidden :
    ¬ ∀ (s : MshData) (routes : List PrefixRoute) (a : InAddr),
      LongestPrefix (run addRoute { s with routing_table := [] } routes).routing_table a := by
  intro hall
  have h := hall (mshDataInit 1 2 3) hostAndWider 0x0a000001
  revert h
  decide +kernel

end Meshias
