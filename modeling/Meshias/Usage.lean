import Meshias.Expiry

/-!
# Lifetimes of the routes that are used

* `Use` — the three places that refresh entries because a route is used: a data packet, and the
  previous hop of a RREQ and of a RREP.
* `NeverShortens` — an entry that is refreshed expires no earlier than before.

Principal results: `Use.resets`, `neverShortens_iff`.
-/

set_option autoImplicit false

namespace Meshias

open Machine (run)

variable {s : MshData}

/-! ## The three uses of a route -/

/-- The entries that the source of a packet refreshes. -/
def refreshedOrig (table : List MshRoute) (orig_ip : InAddr) : List Nat :=
  if orig_ip = 0 then [] else refreshedFor table orig_ip

theorem resets_routingTableUpdateOrig (s : MshData) (orig_ip : InAddr) :
    Resets s (routingTableUpdateOrig s orig_ip) (refreshedOrig s.routing_table orig_ip) := by
  unfold routingTableUpdateOrig refreshedOrig
  split
  · exact .of_table rfl rfl
  · cases hr : routingTableFindByIp s.routing_table orig_ip with
    | none =>
      rw [refreshedFor, hr]
      exact .of_table rfl rfl
    | some r => exact resets_routingTableRefresh orig_ip hr

/-- A use of a route. -/
inductive Use where
  | dataPacket (dst_ip orig_ip : InAddr)
  | rreq (prev_hop : InAddr)
  | rrep (prev_hop : InAddr)

def Use.after (s : MshData) : Use → MshData
  | .dataPacket dst_ip orig_ip => (routingTableUpdateRoute s dst_ip orig_ip).1
  | .rreq prev_hop => (aodvRreqPrevHop s prev_hop).1
  | .rrep prev_hop => (aodvRrepPrevHop s prev_hop).1

/-- The objects whose lifetime the use sets.  A packet for which there is no valid route refreshes
    nothing; a previous hop without an entry gets a new one. -/
def Use.refreshed (s : MshData) : Use → List Nat
  | .dataPacket dst_ip orig_ip =>
    if dst_ip = s.ip_addr then refreshedOrig s.routing_table orig_ip
    else if (routingTableFindByIp s.routing_table dst_ip).any (·.hasFlag RTFLAG_VALID_ENTRY) then
      refreshedFor s.routing_table dst_ip ++ refreshedOrig s.routing_table orig_ip
    else []
  | .rreq prev_hop | .rrep prev_hop => (pointerTo s.routing_table prev_hop).toList

theorem resets_routingTableUpdateRoute (s : MshData) (dst_ip orig_ip : InAddr) :
    Resets s (routingTableUpdateRoute s dst_ip orig_ip).1
      ((Use.dataPacket dst_ip orig_ip).refreshed s) := by
  unfold routingTableUpdateRoute Use.refreshed
  dsimp only
  by_cases hown : dst_ip = s.ip_addr
  · rw [if_neg (not_not.2 hown), if_pos hown]
    exact resets_routingTableUpdateOrig s orig_ip
  · rw [if_pos hown, if_neg hown]
    cases hr : routingTableFindByIp s.routing_table dst_ip with
    | none => exact .of_table rfl rfl
    | some r =>
      dsimp only [Option.any_some]
      by_cases hvalid : r.hasFlag RTFLAG_VALID_ENTRY = true
      · rw [if_neg (not_not.2 hvalid), if_pos hvalid]
        have hfirst := resets_routingTableRefresh dst_ip hr
        have hsecond := resets_routingTableUpdateOrig (routingTableRefresh s r dst_ip) orig_ip
        have horig : refreshedOrig (routingTableRefresh s r dst_ip).routing_table orig_ip =
            refreshedOrig s.routing_table orig_ip := by
          unfold refreshedOrig
          rw [hfirst.refreshedFor_eq]
        rw [horig] at hsecond
        exact hfirst.trans hsecond
      · rw [if_pos hvalid, if_neg hvalid]
        exact .of_table rfl rfl

/-- The step that both handlers make with the previous hop. -/
theorem resets_aodvUpdatePrevHop {prev_hop : InAddr} {p : Nat}
    (hp : pointerTo s.routing_table prev_hop = some p) (init : MshRoute → MshRoute) :
    Resets s (aodvUpdatePrevHop s prev_hop init).1 [p] := by
  obtain ⟨r, hr, rfl⟩ := Option.map_eq_some_iff.1 hp
  rw [aodvUpdatePrevHop, hr]
  exact resets_routeSetLifetime s r.self

/-- **What a use does to the entries it refreshes**, if there are any. -/
theorem Use.resets (s : MshData) (use : Use) (hne : use.refreshed s ≠ []) :
    Resets s (use.after s) (use.refreshed s) := by
  have hprev : ∀ (prev_hop : InAddr) (init : MshRoute → MshRoute),
      (pointerTo s.routing_table prev_hop).toList ≠ [] →
        Resets s (aodvUpdatePrevHop s prev_hop init).1
          (pointerTo s.routing_table prev_hop).toList := by
    intro prev_hop init hsome
    cases hp : pointerTo s.routing_table prev_hop with
    | none => rw [hp] at hsome; exact absurd rfl hsome
    | some p => exact resets_aodvUpdatePrevHop hp init
  cases use with
  | dataPacket dst_ip orig_ip => exact resets_routingTableUpdateRoute s dst_ip orig_ip
  | rreq prev_hop => exact hprev prev_hop _ hne
  | rrep prev_hop => exact hprev prev_hop _ hne

/-! ## Expiry times -/

/-- The route is in use, and its alarm is set for `time`. -/
def MshRoute.ExpiresAt (r : MshRoute) (time : Nat) : Prop :=
  r.hasFlag RTFLAG_VALID_ENTRY = true ∧ r.alarm.pending = true ∧ r.alarm.tv = time

instance (r : MshRoute) (time : Nat) : Decidable (r.ExpiresAt time) :=
  inferInstanceAs (Decidable (_ ∧ _))

/-- Every entry that the use refreshes expires at the later of its expiry time before and
    `ACTIVE_ROUTE_TIMEOUT` from now.  An unmanaged route has no lifetime. -/
def NeverShortens (s : MshData) (use : Use) : Prop :=
  ∀ p ∈ use.refreshed s, List.Forall₂
    (fun r r' => r.self = p → r.hasFlag RTFLAG_UNMANAGED = false →
      r'.ExpiresAt (max r.expiry (activeTimeout s.os.now)))
    s.routing_table (use.after s).routing_table

/-- No entry that the use refreshes is set to expire later than `ACTIVE_ROUTE_TIMEOUT` from now. -/
def NoneLonger (s : MshData) (use : Use) : Prop :=
  ∀ p ∈ use.refreshed s, ∀ r ∈ s.routing_table, r.self = p →
    r.hasFlag RTFLAG_UNMANAGED = false → r.expiry ≤ activeTimeout s.os.now

instance (s : MshData) (use : Use) : Decidable (NoneLonger s use) := by
  unfold NoneLonger; infer_instance

theorem expiresAt_of_renewed {now : Nat} {r : MshRoute} {time : Nat}
    (h : r.timer.RenewedFor now ACTIVE_ROUTE_TIMEOUT) :
    r.ExpiresAt time ↔ activeTimeout now = time := by
  have htv : r.alarm.tv = activeTimeout now := h.tv
  rw [← htv]
  exact ⟨fun hexp => hexp.2.2, fun heq => ⟨h.valid, h.pending, heq⟩⟩

/-- **Use never shortens a route** of any table at any time exactly if no refreshed entry has more
    than `ACTIVE_ROUTE_TIMEOUT` left: the lifetime is reset, not raised. -/
theorem neverShortens_iff (s : MshData) (use : Use) :
    NeverShortens s use ↔ NoneLonger s use := by
  refine forall₂_congr fun p hp => ?_
  have hresets := use.resets s (List.ne_nil_of_mem hp)
  obtain ⟨f, hf, hreset⟩ := hresets.table
  rw [hf, List.forall₂_map_right_iff, List.forall₂_same]
  refine forall₂_congr fun r _ => forall₂_congr fun hself hmanaged => ?_
  have hrenewed := (hreset r).reset (by rw [hself]; exact hp) hmanaged
  rw [expiresAt_of_renewed hrenewed]
  omega

/-- 10.0.0.9 is a neighbour of 10.0.0.1, and replies with a lifetime of 60 s. -/
def longReply : List Input :=
  [⟨0, [], [], datagramFrom 0x0A000009 1 (aodvPktBuildRrep 0 0 0 0x0A000009 7 0x0A000001 60000)⟩]

/-- **A data packet cuts the minute down** to three seconds. -/
theorem use_shortens : ¬ ∀ (s : MshData) (use : Use), NeverShortens s use := by
  intro hall
  have hshort := hall (run step (mshDataInit 0x0A000001 0x0A0000FF 0) longReply)
    (.dataPacket 0x0A000009 0x0A000001)
  unfold NeverShortens at hshort
  revert hshort
  decide +kernel

end Meshias
