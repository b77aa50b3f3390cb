import Meshias.Lib.Liveness
import Meshias.Phases

/-!
# Discovery along a chain

Node 0 of a chain of nodes in their initial states captures a packet for node `k`.  The RREQs of
its tries have the TTLs `TTL_START`, `TTL_START + TTL_INCREMENT`, …; the TTL of the last one does
not exceed `TTL_THRESHOLD`, so that `expanding_ring_search_ttl` never comes to `NET_DIAMETER`.

* `FairRun` — an infinite run without losses or delays, in which time goes on.
* `Discovered` — all routes are obtained, and the packet is accepted and not dropped.

Principal results: `eventually_ended` — the packet is accepted, or the discovery is given up;
`discovered_iff` — the discovery succeeds if and only if the last TTL reaches node `k`;
`eight_links_too_many` — a chain that is longer.
-/

set_option autoImplicit false

namespace Meshias

open Liveness (states schedule follow states_schedule)

/-! ## Runs -/

/-- A message is heard, or the alarms of node 0 run at the time `t` or later. -/
def Serves (t : Nat) : ChainEvent → Prop
  | .hear _ _ => True
  | .ring m now _ => m = 0 ∧ t ≤ now

/-- Every event is undelayed; and unless messages are heard for ever, the alarms of node 0 run at
    later and later times. -/
structure FairRun (k : Nat) (c : ChainNet) (ω : Nat → ChainEvent) : Prop where
  undelayed : ∀ n, Undelayed k (states (chainStep k) c ω n) (ω n)
  served : ∀ t n, ∃ m, n ≤ m ∧ Serves t (ω m)

/-- What a discovery is to bring about in a run. -/
structure Discovered (k : Nat) (addr : Nat → InAddr) (pid : U32) (st : Nat → ChainNet) : Prop where
  origin : ∃ n, RouteVia ((st n).node 0) (addr k) (addr 1)
  forward : ∀ i, 0 < i → i < k → ∃ n, RouteVia ((st n).node i) (addr k) (addr (i + 1))
  reverse : ∀ i, 0 < i → i < k → ∃ n, RouteVia ((st n).node i) (addr 0) (addr (i - 1))
  accepted : ∃ n, (pid, Verdict.NF_ACCEPT) ∈ ((st n).node 0).os.verdicts
  kept : ∀ n, (pid, Verdict.NF_DROP) ∉ ((st n).node 0).os.verdicts

/-- The routes that some state of the run has. -/
def everObtained (k : Nat) (addr : Nat → InAddr) (st : Nat → ChainNet) : Goals where
  reverse i := ∃ n, RouteVia ((st n).node i) (addr 0) (addr (i - 1))
  forward i := ∃ n, RouteVia ((st n).node i) (addr k) (addr (i + 1))
  origin := ∃ n, RouteVia ((st n).node 0) (addr k) (addr 1)

section Run

variable {k : Nat} {addr : Nat → InAddr} {bcast : InAddr} {pid : U32} {c : ChainNet}
  {ω : Nat → ChainEvent}

variable (k addr) in
theorem everObtained_grows (st : Nat → ChainNet) (n : Nat) :
    (everObtained k addr st).Grows k addr (st n) (everObtained k addr st) where
  reverse _ h := h.elim id fun hroute => ⟨n, hroute⟩
  forward _ h := h.elim id fun hroute => ⟨n, hroute⟩
  origin h := h.elim id fun hroute => ⟨n, hroute⟩

/-- **Every state of the run is in a phase of the discovery.** -/
theorem phase_run (hline : Line k addr bcast)
    (hstart : ∀ g, Flooding k addr bcast pid g 0 0 c) (hfair : FairRun k c ω) (n : Nat) :
    ∃ a, Phase k addr bcast pid (everObtained k addr (states (chainStep k) c ω))
      (states (chainStep k) c ω n) a := by
  induction n with
  | zero => exact ⟨_, .flooding 0 0 (hstart _)⟩
  | succ n ih =>
    obtain ⟨a, ha⟩ := ih
    exact ha.steps hline (hfair.undelayed n) (everObtained_grows k addr _ (n + 1))

/-- Nothing changes until the alarm of the request runs. -/
theorem calm_ends (hline : Line k addr bcast) {g : Goals} (hfair : FairRun k c ω)
    (hgrows : ∀ n, g.Grows k addr (states (chainStep k) c ω n) g) {j n : Nat}
    (h : Calm k addr bcast pid g j (states (chainStep k) c ω n)) :
    ∃ m, Flooding k addr bcast pid g (j + 1) 0 (states (chainStep k) c ω m) ∨
      Ended k addr bcast pid g (states (chainStep k) c ω m) := by
  obtain ⟨e, hq, -⟩ := h.asking.entry
  have hstep : ∀ n, Calm k addr bcast pid g j (states (chainStep k) c ω n) ∧
        ((states (chainStep k) c ω n).node 0).rreq_queue = [e] →
      (Calm k addr bcast pid g j (states (chainStep k) c ω (n + 1)) ∧
        ((states (chainStep k) c ω (n + 1)).node 0).rreq_queue = [e] ∧
        ¬ Serves e.alarm.tv (ω n)) ∨
      Flooding k addr bcast pid g (j + 1) 0 (states (chainStep k) c ω (n + 1)) ∨
      Ended k addr bcast pid g (states (chainStep k) c ω (n + 1)) := by
    rintro n ⟨hcalm, hqueue⟩
    have hund := hfair.undelayed n
    have hgrows' := hgrows (n + 1)
    rw [states] at hgrows' ⊢
    cases hω : ω n with
    | hear x now =>
      rw [hω, Undelayed, hcalm.air] at hund
      cases hund
    | ring m now freed =>
      rw [hω] at hund hgrows'
      refine (hcalm.rings hline hund.1 hgrows').imp_left ?_
      rintro ⟨hcalm', hqueue', hdue⟩
      refine ⟨hcalm', hqueue'.trans hqueue, ?_⟩
      rintro ⟨h0, hnow⟩
      refine absurd (hdue h0 e ?_) (not_lt.2 hnow)
      rw [hqueue]
      exact List.mem_singleton_self e
  exact Liveness.leadsTo_of_helpful
    (P := fun c => Calm k addr bcast pid g j c ∧ (c.node 0).rreq_queue = [e])
    (Q := fun c => Flooding k addr bcast pid g (j + 1) 0 c ∨ Ended k addr bcast pid g c)
    (fun n hn => (hstep n hn).imp_left fun hnext => ⟨hnext.1, hnext.2.1⟩)
    (fun n hn hserves => (hstep n hn).resolve_left fun hnext => hnext.2.2 hserves)
    (hfair.served e.alarm.tv) ⟨h, hq⟩

/-- **The discovery comes to an end.** -/
theorem eventually_ended (hline : Line k addr bcast)
    (hstart : ∀ g, Flooding k addr bcast pid g 0 0 c) (hfair : FairRun k c ω) :
    ∃ n, Ended k addr bcast pid (everObtained k addr (states (chainStep k) c ω))
      (states (chainStep k) c ω n) := by
  have hgrows := everObtained_grows k addr (states (chainStep k) c ω)
  generalize everObtained k addr (states (chainStep k) c ω) = g at hgrows
  refine Liveness.eventually_of_decreasing wellFounded_lt
    (I := fun a c => Phase k addr bcast pid g c a) (fun a n h => ?_) (.flooding 0 0 (hstart g)) (n := 0)
  have hund := hfair.undelayed n
  by_cases hair : (states (chainStep k) c ω n).air = []
  · rcases h.quiet hair with ⟨j, hcalm, hle⟩ | hended
    · have hj : j ≤ 2 := hcalm.asking.tries
      obtain ⟨m, hnext | hended⟩ := calm_ends hline hfair hgrows hcalm
      · refine ⟨m, .inr ⟨_, ?_, .flooding _ _ hnext⟩⟩
        exact (Prod.Lex.toLex_lt_toLex.2 (.inl (by dsimp only; omega))).trans_le hle
      · exact ⟨m, .inl hended⟩
    · exact ⟨n, .inl hended⟩
  · cases hω : ω n with
    | hear x now =>
      rw [hω] at hund
      have hgrows' := hgrows (n + 1)
      rw [states, hω] at hgrows'
      obtain ⟨b, hb, hlt | hended⟩ := h.hears hline hund hgrows'
      · refine ⟨n + 1, .inr ⟨b, hlt, ?_⟩⟩
        rw [states, hω]
        exact hb
      · exact ⟨n, .inl hended⟩
    | ring m now freed =>
      rw [hω] at hund
      exact absurd hund.2 hair

/-- A packet that is accepted is one for a node that the last RREQ reaches. -/
theorem ringTtl_of_accepted (hline : Line k addr bcast)
    (hstart : ∀ g, Flooding k addr bcast pid g 0 0 c) (hfair : FairRun k c ω) {n : Nat}
    (hacc : (pid, Verdict.NF_ACCEPT) ∈ ((states (chainStep k) c ω n).node 0).os.verdicts) :
    k ≤ ringTtl RREQ_RETRIES.toNat := by
  obtain ⟨a, ha⟩ := phase_run hline hstart hfair n
  rcases ha.verdicts with hv | ⟨-, hle⟩ | ⟨hv, -⟩
  · rw [hv] at hacc
    cases hacc
  · exact hle
  · rw [hv] at hacc
    simp at hacc

/-- **The last RREQ reaches node `k`.** -/
theorem discovered_of_le (hline : Line k addr bcast)
    (hstart : ∀ g, Flooding k addr bcast pid g 0 0 c) (hfair : FairRun k c ω)
    (hk : k ≤ ringTtl RREQ_RETRIES.toNat) :
    Discovered k addr pid (states (chainStep k) c ω) := by
  obtain ⟨n, hended⟩ := eventually_ended hline hstart hfair
  cases hended with
  | released hrel =>
    refine ⟨hrel.origin, fun i h0 hi => (hrel.routes i h0 hi).2, fun i h0 hi => (hrel.routes i h0 hi).1,
      ⟨n, by rw [hrel.verdicts]; exact List.mem_singleton_self _⟩, fun m hdrop => ?_⟩
    obtain ⟨a, ha⟩ := phase_run hline hstart hfair m
    rcases ha.verdicts with hv | ⟨hv, -⟩ | ⟨-, hlt⟩
    · rw [hv] at hdrop
      cases hdrop
    · rw [hv] at hdrop
      simp at hdrop
    · exact absurd hk (not_le.2 hlt)
  | lost hlost => exact absurd hk (not_le.2 hlost.missed)

end Run

/-- **The discovery succeeds** if and only if the TTL of the last RREQ reaches node `k`. -/
theorem discovered_iff {k : Nat} {addr : Nat → InAddr} {bcast : InAddr} {iface : Nat → U32}
    {now : Nat} {nfa : NfqData} {ω : Nat → ChainEvent} (hline : Line k addr bcast)
    (hhook : nfqueuePacketGetHook nfa = NF_IP_LOCAL_OUT) (hdata : nfqueuePacketIsAodv nfa = false)
    (hdest : nfqueuePacketGetDest nfa = addr k)
    (hfair : FairRun k (chainAsked k addr bcast iface now nfa) ω) :
    Discovered k addr (nfqueuePacketGetId nfa)
        (states (chainStep k) (chainAsked k addr bcast iface now nfa) ω) ↔
      k ≤ TTL_START.toNat + RREQ_RETRIES.toNat * TTL_INCREMENT.toNat := by
  have hstart := Flooding.init iface now hline hhook hdata hdest
  constructor
  · intro hdisc
    obtain ⟨n, hacc⟩ := hdisc.accepted
    exact ringTtl_of_accepted hline hstart hfair hacc
  · exact discovered_of_le hline hstart hfair

/-! ## Chains of 10.0.0.1, 10.0.0.2, … -/

def chainAddr (i : Nat) : InAddr := 0x0A000001 + BitVec.ofNat 32 i

theorem toNat_chainAddr {i : Nat} (hi : i ≤ NET_DIAMETER.toNat) :
    (chainAddr i).toNat = 0x0A000001 + i := by
  have hi : i ≤ 35 := hi
  rw [chainAddr, BitVec.toNat_add, BitVec.toNat_ofNat]
  change (0x0A000001 + i % 2 ^ 32) % 2 ^ 32 = 0x0A000001 + i
  omega

theorem line_chainAddr {k : Nat} (h1 : 1 ≤ k) (hk : k ≤ NET_DIAMETER.toNat) :
    Line k chainAddr 0x0A0000FF := by
  refine ⟨h1, fun i hi j hj heq => ?_, fun i hi heq => ?_⟩
  · have hnat := congrArg BitVec.toNat heq
    rw [toNat_chainAddr (hi.trans hk), toNat_chainAddr (hj.trans hk)] at hnat
    omega
  · have hnat := congrArg BitVec.toNat heq
    have hle : i ≤ 35 := hi.trans hk
    rw [toNat_chainAddr (hi.trans hk)] at hnat
    change 0x0A000001 + i = 0x0A0000FF at hnat
    omega

/-- An UDP packet of node 0 for node `k`, at the OUTPUT hook. -/
def packetTo (k : Nat) : NfqData := capturedPacket 1 3 17 (chainAddr 0) (chainAddr k)

/-- What is under way is heard at once; otherwise the alarms of node 0 run. -/
def eager (c : ChainNet) (n : Nat) : ChainEvent :=
  match c.air with
  | x :: _ => .hear x n
  | [] => .ring 0 n []

theorem undelayed_eager (k : Nat) (c : ChainNet) (n : Nat) : Undelayed k c (eager c n) := by
  rw [eager]
  split
  · rename_i x l hair
    rw [Undelayed, hair]
    exact List.mem_cons_self
  · rename_i hair
    exact ⟨Nat.zero_le k, hair⟩

theorem serves_eager (c : ChainNet) {t n : Nat} (h : t ≤ n) : Serves t (eager c n) := by
  rw [eager]
  split
  · trivial
  · exact ⟨rfl, h⟩

theorem fairRun_eager (k : Nat) (c : ChainNet) :
    FairRun k c (schedule (chainStep k) eager c) where
  undelayed n := by
    rw [states_schedule]
    exact undelayed_eager k _ n
  served t n := ⟨max t n, le_max_right t n, serves_eager _ (le_max_left t n)⟩

/-- Node 0 has captured a packet for node `k`. -/
def chainStart (k : Nat) : ChainNet :=
  chainAsked k chainAddr 0x0A0000FF (fun _ => 0) 0 (packetTo k)

theorem discovered_seven_links : Discovered 7 chainAddr (nfqueuePacketGetId (packetTo 7))
    (states (chainStep 7) (chainStart 7) (schedule (chainStep 7) eager (chainStart 7))) := by
  have hhook : nfqueuePacketGetHook (packetTo 7) = NF_IP_LOCAL_OUT := by decide +kernel
  have hdata : nfqueuePacketIsAodv (packetTo 7) = false := by decide +kernel
  have hdest : nfqueuePacketGetDest (packetTo 7) = chainAddr 7 := by decide +kernel
  exact (discovered_iff (line_chainAddr (by decide) (by decide)) hhook hdata hdest
    (fairRun_eager 7 (chainStart 7))).2 (by decide)

/-- **A chain of eight links is too long**, far below `NET_DIAMETER`. -/
theorem eight_links_too_many :
    ¬ ∀ (k : Nat) (addr : Nat → InAddr) (bcast : InAddr) (iface : Nat → U32) (now : Nat)
      (nfa : NfqData) (ω : Nat → ChainEvent), k ≤ NET_DIAMETER.toNat → Line k addr bcast →
      nfqueuePacketGetHook nfa = NF_IP_LOCAL_OUT → nfqueuePacketIsAodv nfa = false →
      nfqueuePacketGetDest nfa = addr k → FairRun k (chainAsked k addr bcast iface now nfa) ω →
      Discovered k addr (nfqueuePacketGetId nfa)
        (states (chainStep k) (chainAsked k addr bcast iface now nfa) ω) := by
  intro hall
  have hline := line_chainAddr (k := 8) (by decide) (by decide)
  have hhook : nfqueuePacketGetHook (packetTo 8) = NF_IP_LOCAL_OUT := by decide +kernel
  have hdata : nfqueuePacketIsAodv (packetTo 8) = false := by decide +kernel
  have hdest : nfqueuePacketGetDest (packetTo 8) = chainAddr 8 := by decide +kernel
  have hfair := fairRun_eager 8 (chainStart 8)
  have hdisc := hall 8 chainAddr 0x0A0000FF (fun _ => 0) 0 (packetTo 8) _ (by decide) hline hhook hdata
    hdest hfair
  obtain ⟨n, hacc⟩ := hdisc.accepted
  have hle := ringTtl_of_accepted hline (Flooding.init _ _ hline hhook hdata hdest) hfair hacc
  exact absurd hle (by decide)

end Meshias
