import Meshias.RingSearch

/-!
# The phases of a discovery along the chain

A try starts with the RREQ at node 0.  While the RREQ goes on, every node that passes it on also
sends it back to the node it came from, which ignores it; so what is under way is the RREQ or RREP
at the front and any number of such copies.

* `Waiting` — the nodes, while the packet waits.
* `Flooding`, `Replying`, `Calm` — the RREQ goes on, the RREP comes back, nothing is under way and the
  alarms decide.
* `Released`, `Lost`, `Ended` — the packet is accepted, or the discovery is given up.
* `Phase` — these four, with the number of events that are still to come.

Principal results: `Flooding.hears`, `Replying.hears`, `Calm.rings`, `Ended.steps`, and from them
`Phase.steps`.
-/

set_option autoImplicit false

namespace Meshias

/-! ## The phases -/

section Phases

variable (k : Nat) (addr : Nat → InAddr) (bcast : InAddr) (pid : U32)

/-- A copy of the RREQ of try `j`, on its way to a node that has it in its buffer. -/
structure Echo (j f : Nat) (x : Flight) : Prop where
  request : Request k addr bcast j x.sender x.pkt
  sender : x.sender < k
  receiver : x.receiver ≤ f
  apart : x.receiver ≠ x.sender

/-- The RREQ beyond node `f`. -/
inductive Front (j f : Nat) : List Flight → Prop where
  | spent (h : f = ringTtl j) : Front j f []
  | underway (p : AodvPkt) (h : Request k addr bcast j f p) : Front j f [⟨f, f + 1, p⟩]

/-- Node 0 waits for the answer to try `i`; the others are as `NodeOk` says of try `j`. -/
structure Waiting (g : Goals) (i j f r : Nat) (c : ChainNet) : Prop where
  wf : NetWf addr bcast c.node
  asking : Asking k addr pid i (c.node 0)
  nodes : ∀ m, 1 ≤ m → m ≤ k → NodeOk k addr g j f r m (c.node m)

/-- The RREQ of try `j` has come to node `f`. -/
structure Flooding (g : Goals) (j f : Nat) (c : ChainNet) : Prop
    extends Waiting k addr bcast pid g j j f k c where
  before : f < k
  air : ∃ front l, c.air.Perm (front ++ l) ∧ Front k addr bcast j f front ∧
    ∀ x ∈ l, Echo k addr bcast j f x

/-- The RREP for try `j` has come to node `r`. -/
structure Replying (g : Goals) (j r : Nat) (c : ChainNet) : Prop
    extends Waiting k addr bcast pid g j j k r c where
  after : 1 ≤ r
  bound : r ≤ k
  reached : k ≤ ringTtl j
  air : ∃ p l, c.air.Perm (⟨r, r - 1, p⟩ :: l) ∧ Reply k addr r p ∧
    ∀ x ∈ l, Echo k addr bcast j k x

/-- The RREQ of try `j` has not come to node `k`. -/
structure Calm (g : Goals) (j : Nat) (c : ChainNet) : Prop
    extends Waiting k addr bcast pid g j (j + 1) 0 k c where
  missed : ringTtl j < k
  air : c.air = []

/-- The RREP has released the packet. -/
structure Released (g : Goals) (c : ChainNet) : Prop where
  wf : NetWf addr bcast c.node
  noOwn : NoOwn (c.node 0)
  packets_queue : (c.node 0).packets_queue = []
  verdicts : (c.node 0).os.verdicts = [(pid, .NF_ACCEPT)]
  reached : k ≤ ringTtl RREQ_RETRIES.toNat
  origin : g.origin
  routes : ∀ i, 0 < i → i < k → g.reverse i ∧ g.forward i

/-- Node 0 has given up the discovery, and dropped the packet or not. -/
structure Lost (c : ChainNet) : Prop where
  wf : NetWf addr bcast c.node
  noOwn : ∀ m ≤ k, NoOwn (c.node m)
  air : c.air = []
  verdicts : (c.node 0).os.verdicts = [(pid, .NF_DROP)] ∨ (c.node 0).os.verdicts = []
  missed : ringTtl RREQ_RETRIES.toNat < k

/-- Nothing is asked for any more. -/
inductive Ended (g : Goals) (c : ChainNet) : Prop where
  | released (h : Released k addr bcast pid g c)
  | lost (h : Lost k addr bcast pid c)

/-- The second index counts the tries still to come, and the messages of this one. -/
inductive Phase (g : Goals) (c : ChainNet) : Nat ×ₗ Nat → Prop where
  | flooding (j f : Nat) (h : Flooding k addr bcast pid g j f c) :
      Phase g c (toLex (3 - j, c.air.length + 2 * (k - f) + k + 1))
  | replying (j r : Nat) (h : Replying k addr bcast pid g j r c) :
      Phase g c (toLex (3 - j, c.air.length + r))
  | calm (j : Nat) (h : Calm k addr bcast pid g j c) : Phase g c (toLex (3 - j, 0))
  | ended (h : Ended k addr bcast pid g c) : Phase g c (toLex (0, 0))

end Phases

variable {k : Nat} {addr : Nat → InAddr} {bcast : InAddr} {pid : U32} {g g' : Goals} {c : ChainNet}
  {i j f r m : Nat} {x : Flight} {p : AodvPkt} {l l' : List Flight} {now : Nat} {e : ChainEvent}
  {freed : List (Nat × InAddr)}

/-! ## One event -/

theorem node_hear_same : (chainStep k c (.hear x now)).node x.receiver =
    step (c.node x.receiver) (heard now (c.node x.sender).ip_addr x.pkt) :=
  node_turn_same

theorem node_hear_other (h : m ≠ x.receiver) :
    (chainStep k c (.hear x now)).node m = c.node m :=
  node_turn_other h

theorem air_hear_silent (h : (step (c.node x.receiver)
    (heard now (c.node x.sender).ip_addr x.pkt)).os.sent = (c.node x.receiver).os.sent) :
    (chainStep k c (.hear x now)).air = c.air.erase x :=
  air_turn_silent (c := { c with air := c.air.erase x }) h

theorem air_hear_single (h : (step (c.node x.receiver)
    (heard now (c.node x.sender).ip_addr x.pkt)).os.sent = (c.node x.receiver).os.sent ++ [p]) :
    (chainStep k c (.hear x now)).air = c.air.erase x ++ flights k c.node x.receiver p :=
  air_turn_single (c := { c with air := c.air.erase x }) h

theorem wf_chainStep (h : NetWf addr bcast c.node) (e : ChainEvent) :
    NetWf addr bcast (chainStep k c e).node := by
  cases e with
  | hear x now => exact h.step ⟨x.receiver, heard now (c.node x.sender).ip_addr x.pkt⟩
  | ring m now freed => exact h.step ⟨m, now, [], freed, .alarms⟩

/-- What an event does to node 0. -/
theorem chainStep_zero (e : ChainEvent) : (chainStep k c e).node 0 = c.node 0 ∨
    ∃ i : Input, (∀ nfa, i.event ≠ .packet nfa) ∧ (chainStep k c e).node 0 = step (c.node 0) i := by
  cases e with
  | hear x now =>
    by_cases h0 : x.receiver = 0
    · exact .inr ⟨_, fun nfa hc => (by cases hc), h0 ▸ node_hear_same⟩
    · exact .inl (node_hear_other (Ne.symm h0))
  | ring m now freed =>
    by_cases h0 : m = 0
    · subst h0
      exact .inr ⟨⟨now, [], freed, .alarms⟩, fun nfa hc => (by cases hc), node_turn_same⟩
    · exact .inl (node_turn_other (Ne.symm h0))

/-! ## The end -/

/-- **The release is final.** -/
theorem Released.steps (h : Released k addr bcast pid g c)
    (hg : g.Grows k addr (chainStep k c e) g') : Released k addr bcast pid g' (chainStep k c e) := by
  have hwf := wf_chainStep (k := k) h.wf e
  have horigin := hg.origin (.inl h.origin)
  have hroutes : ∀ i, 0 < i → i < k → g'.reverse i ∧ g'.forward i := fun i h0 hi =>
    ⟨hg.reverse i (.inl (h.routes i h0 hi).1), hg.forward i (.inl (h.routes i h0 hi).2)⟩
  rcases chainStep_zero (k := k) (c := c) e with heq | ⟨i, hev, heq⟩
  · refine ⟨hwf, ?_, ?_, ?_, h.reached, horigin, hroutes⟩
    · rw [heq]; exact h.noOwn
    · rw [heq]; exact h.packets_queue
    · rw [heq]; exact h.verdicts
  · obtain ⟨hpackets, hverdicts⟩ := verdicts_step (h.wf.wf 0) h.noOwn h.packets_queue hev
    refine ⟨hwf, ?_, ?_, ?_, h.reached, horigin, hroutes⟩
    · rw [heq]; exact noOwn_step (h.wf.wf 0) h.noOwn hev
    · rw [heq]; exact hpackets
    · rw [heq, hverdicts]; exact h.verdicts

theorem node_ring_same :
    (chainStep k c (.ring m now freed)).node m = step (c.node m) ⟨now, [], freed, .alarms⟩ :=
  node_turn_same

theorem node_ring_other {n : Nat} (h : n ≠ m) :
    (chainStep k c (.ring m now freed)).node n = c.node n :=
  node_turn_other h

/-- **And so is giving up**: nobody asks, and nothing is under way. -/
theorem Lost.steps (h : Lost k addr bcast pid c) (he : Undelayed k c e) :
    Lost k addr bcast pid (chainStep k c e) := by
  have hwf := wf_chainStep (k := k) h.wf e
  cases e with
  | hear x now =>
    rw [Undelayed, h.air] at he
    cases he
  | ring m now freed =>
    obtain ⟨hmoved, hsub⟩ := unmoved_rings (h.wf.wf m) (h.noOwn m he.1) now freed
    refine ⟨hwf, fun n hn => ?_, (air_turn_silent hmoved.sent).trans h.air, ?_, h.missed⟩
    · by_cases hnm : n = m
      · subst hnm
        rw [node_ring_same]
        exact fun e he => h.noOwn n hn e (hsub e he)
      · rw [node_ring_other hnm]
        exact h.noOwn n hn
    · by_cases h0 : 0 = m
      · subst h0
        rw [node_ring_same, hmoved.verdicts]
        exact h.verdicts
      · rw [node_ring_other h0]
        exact h.verdicts

theorem Ended.steps (h : Ended k addr bcast pid g c) (he : Undelayed k c e)
    (hg : g.Grows k addr (chainStep k c e) g') : Ended k addr bcast pid g' (chainStep k c e) := by
  cases h with
  | released h => exact .released (h.steps hg)
  | lost h => exact .lost (h.steps he)

/-! ## Copies of the RREQ -/

theorem Waiting.mono (h : Waiting k addr bcast pid g i j f r c) (hg : g.Grows k addr c g') :
    Waiting k addr bcast pid g' i j f r c :=
  ⟨h.wf, h.asking, fun m h1 hm => (h.nodes m h1 hm).mono hg⟩

/-- **A node hears the RREQ again.** -/
theorem Waiting.echo (hline : Line k addr bcast) (h : Waiting k addr bcast pid g j j f r c)
    (hf : f ≤ k) (hx : Echo k addr bcast j f x)
    (hg : g.Grows k addr (chainStep k c (.hear x now)) g') :
    Waiting k addr bcast pid g' j j f r (chainStep k c (.hear x now)) ∧
      (chainStep k c (.hear x now)).air = c.air.erase x := by
  have hm : x.receiver ≤ k := hx.receiver.trans hf
  have hsender : (c.node x.sender).ip_addr = addr x.sender := h.wf.ip_addr _
  have ha : (c.node x.sender).ip_addr ≠ (c.node x.receiver).ip_addr := by
    rw [hsender, h.wf.ip_addr]
    exact hline.ne hx.sender.le hm hx.apart.symm
  have hak : addr k ≠ (c.node x.sender).ip_addr := by
    rw [hsender]
    exact hline.ne le_rfl hx.sender.le (Nat.ne_of_gt hx.sender)
  have hknown : rreqFifoContains (c.node x.receiver).rreq_queue x.pkt.rreq.rreq_id
      x.pkt.rreq.dest_ip_addr = true := by
    rw [hx.request.id, hx.request.dest]
    by_cases h0 : x.receiver = 0
    · rw [h0]
      exact h.asking.contains
    · exact ((h.nodes _ (Nat.one_le_iff_ne_zero.2 h0) hm).heard hx.receiver).1
  have hwf := h.wf.wf x.receiver
  have hagain := hearsAgain now hwf hx.request.isRreq ha hknown
  refine ⟨⟨wf_chainStep h.wf _, ?_, fun n h1 hn => ?_⟩, air_hear_silent hagain.sent⟩
  · by_cases h0 : 0 = x.receiver
    · have hasking := h.asking
      rw [h0] at hasking
      rw [h0, node_hear_same]
      exact hasking.hears hwf hak hagain
    · rw [node_hear_other h0]
      exact h.asking
  · refine NodeOk.mono ?_ hg
    by_cases hn' : n = x.receiver
    · subst hn'
      rw [node_hear_same]
      exact (h.nodes _ h1 hn).hears hx.receiver hak hagain
    · rw [node_hear_other hn']
      exact h.nodes n h1 hn

/-- One of the copies goes. -/
theorem air_erase (hperm : c.air.Perm (l' ++ l)) (hx : x ∈ l) :
    (c.air.erase x).Perm (l' ++ l.erase x) ∧ (c.air.erase x).length < c.air.length := by
  have hmem : x ∈ c.air := hperm.mem_iff.2 (List.mem_append_right _ hx)
  have hrest := (hperm.trans List.perm_append_comm).erase x
  rw [List.erase_append_left _ hx] at hrest
  refine ⟨hrest.trans List.perm_append_comm, ?_⟩
  rw [List.length_erase_of_mem hmem]
  exact Nat.sub_lt (List.length_pos_of_mem hmem) Nat.one_pos

theorem Flooding.echo (hline : Line k addr bcast) (h : Flooding k addr bcast pid g j f c)
    (hperm : c.air.Perm (l' ++ l)) (hfront : Front k addr bcast j f l')
    (hl : ∀ y ∈ l, Echo k addr bcast j f y) (hx : x ∈ l)
    (hg : g.Grows k addr (chainStep k c (.hear x now)) g') :
    Flooding k addr bcast pid g' j f (chainStep k c (.hear x now)) ∧
      (chainStep k c (.hear x now)).air.length < c.air.length := by
  obtain ⟨hwait, hair⟩ := h.toWaiting.echo hline h.before.le (hl x hx) hg
  obtain ⟨hrest, hlt⟩ := air_erase hperm hx
  rw [← hair] at hrest hlt
  exact ⟨⟨hwait, h.before, l', l.erase x, hrest, hfront, fun y hy => hl y (List.mem_of_mem_erase hy)⟩,
    hlt⟩

theorem Replying.echo (hline : Line k addr bcast) (h : Replying k addr bcast pid g j r c)
    (hperm : c.air.Perm (⟨r, r - 1, p⟩ :: l)) (hp : Reply k addr r p)
    (hl : ∀ y ∈ l, Echo k addr bcast j k y) (hx : x ∈ l)
    (hg : g.Grows k addr (chainStep k c (.hear x now)) g') :
    Replying k addr bcast pid g' j r (chainStep k c (.hear x now)) ∧
      (chainStep k c (.hear x now)).air.length < c.air.length := by
  obtain ⟨hwait, hair⟩ := h.toWaiting.echo hline le_rfl (hl x hx) hg
  have hcons : c.air.Perm ([⟨r, r - 1, p⟩] ++ l) := hperm
  obtain ⟨hrest, hlt⟩ := air_erase hcons hx
  rw [← hair] at hrest hlt
  exact ⟨⟨hwait, h.after, h.bound, h.reached, p, l.erase x, hrest, hp,
    fun y hy => hl y (List.mem_of_mem_erase hy)⟩, hlt⟩

/-! ## The RREQ goes on -/

/-- The next node has not heard it. -/
theorem Waiting.at_front (hline : Line k addr bcast) (h : Waiting k addr bcast pid g j j f k c)
    (hf : f < k) (hp : Request k addr bcast j f p) :
    (c.node f).ip_addr ≠ (c.node (f + 1)).ip_addr ∧
      rreqFifoContains (c.node (f + 1)).rreq_queue p.rreq.rreq_id p.rreq.dest_ip_addr = false := by
  constructor
  · rw [h.wf.ip_addr, h.wf.ip_addr]
    exact hline.ne hf.le hf (Nat.succ_ne_self f).symm
  · rw [hp.id, hp.dest]
    exact (h.nodes (f + 1) (Nat.le_add_left 1 f) hf).not_contains h.asking.tries (Nat.lt_succ_self f)

/-- What the network looks like once node `f + 1` has heard the RREQ. -/
theorem Waiting.goes_on (hline : Line k addr bcast) (h : Waiting k addr bcast pid g j j f k c)
    (hf : f < k) (hp : Request k addr bcast j f p)
    (hg : g.Grows k addr (chainStep k c (.hear ⟨f, f + 1, p⟩ now)) g') :
    Waiting k addr bcast pid g' j j (f + 1) k (chainStep k c (.hear ⟨f, f + 1, p⟩ now)) := by
  obtain ⟨ha, hnew⟩ := h.at_front hline hf hp
  have hsender : (c.node f).ip_addr = addr f := h.wf.ip_addr f
  have hhears := hearsNew now (h.wf.wf (f + 1)) hp.isRreq ha hnew
  rw [hsender] at hhears
  refine ⟨wf_chainStep h.wf _, ?_, fun n h1 hn => ?_⟩
  · rw [node_hear_other (Nat.succ_ne_zero f).symm]
    exact h.asking
  · by_cases hn' : n = f + 1
    · subst hn'
      have hstep : (chainStep k c (.hear ⟨f, f + 1, p⟩ now)).node (f + 1) =
          step (c.node (f + 1)) (heard now (addr f) p) := hsender ▸ node_hear_same
      rw [hstep]
      exact (h.nodes (f + 1) h1 hn).hears_new h.asking.tries hp (hline.ne le_rfl hf.le hf.ne')
        (hline.ne le_rfl (Nat.zero_le k) (Nat.ne_of_gt hline.links)) hhears hstep hg
    · rw [node_hear_other hn']
      exact ((h.nodes n h1 hn).elsewhere hn').mono hg

/-- The message at the front goes. -/
theorem air_front (hperm : c.air.Perm (x :: l)) : (c.air.erase x).Perm l := by
  have hrest := hperm.erase x
  rwa [List.erase_cons_head] at hrest

theorem Echo.mono (h : Echo k addr bcast j f x) (hf : f ≤ m) : Echo k addr bcast j m x :=
  { h with receiver := h.receiver.trans hf }

/-- **The RREQ passes a node between the ends**, unless its TTL is used up there. -/
theorem Flooding.passes (hline : Line k addr bcast) (h : Flooding k addr bcast pid g j f c)
    (hperm : c.air.Perm (⟨f, f + 1, p⟩ :: l)) (hp : Request k addr bcast j f p)
    (hl : ∀ y ∈ l, Echo k addr bcast j f y) (hf : f + 1 < k)
    (hg : g.Grows k addr (chainStep k c (.hear ⟨f, f + 1, p⟩ now)) g') :
    Flooding k addr bcast pid g' j (f + 1) (chainStep k c (.hear ⟨f, f + 1, p⟩ now)) ∧
      (chainStep k c (.hear ⟨f, f + 1, p⟩ now)).air.length ≤ c.air.length + 1 := by
  obtain ⟨ha, hnew⟩ := h.at_front hline h.before hp
  have hwait := h.goes_on hline h.before hp hg
  have hrest := air_front hperm
  have hlen : c.air.length = l.length + 1 := hperm.length_eq
  have hl' : ∀ y ∈ l, Echo k addr bcast j (f + 1) y := fun y hy => (hl y hy).mono (Nat.le_succ f)
  have hnode := h.nodes (f + 1) (Nat.le_add_left 1 f) hf.le
  have hsent := sent_other now (h.wf.wf (f + 1)) hp.isRreq ha hnew
    (by rw [hp.dest, h.wf.ip_addr]; exact hline.ne le_rfl hf.le hf.ne')
    (by rw [hp.dest, h.wf.ip_addr]; exact hline.ne le_rfl h.before.le h.before.ne')
    (by rw [hp.dest, hp.orig]; exact hline.ne le_rfl (Nat.zero_le k) (Nat.ne_of_gt hline.links))
    (by rw [hp.dest]; exact hnode.unknown hf hf)
  rw [h.wf.broadcast_addr] at hsent
  by_cases httl : 1 < p.ttl
  · rw [if_pos httl] at hsent
    have hnext := hp.next (a := (c.node f).ip_addr) httl
    have hair := air_hear_single (k := k) (x := ⟨f, f + 1, p⟩) hsent
    rw [flights_broadcast h.wf rfl, neighbours, if_pos (Nat.succ_pos f), if_pos hf] at hair
    generalize (⟨aodvPktPrepareRreq (rreqNext (p.heardFrom (c.node f).ip_addr)), bcast, p.ttl - 1⟩ :
      AodvPkt) = q at hnext hair
    have hback : Echo k addr bcast j (f + 1) ⟨f + 1, f, q⟩ :=
      ⟨hnext, hf, Nat.le_succ f, (Nat.succ_ne_self f).symm⟩
    have hperm' : (chainStep k c (.hear ⟨f, f + 1, p⟩ now)).air.Perm
        ([⟨f + 1, f + 1 + 1, q⟩] ++ ⟨f + 1, f, q⟩ :: l) := by
      rw [hair]
      exact (hrest.append_right _).trans (List.perm_append_comm.trans (.swap ..))
    refine ⟨⟨hwait, hf, _, _, hperm', .underway q hnext, List.forall_mem_cons.2 ⟨hback, hl'⟩⟩, ?_⟩
    rw [hperm'.length_eq, hlen]
    rfl
  · rw [if_neg httl, List.append_nil] at hsent
    have hair := air_hear_silent (k := k) (x := ⟨f, f + 1, p⟩) hsent
    have hspent : f + 1 = ringTtl j := by
      have hle : ¬ 1 < p.ttl.toNat := httl
      have hone := hp.ttl
      have halive := hp.alive
      omega
    refine ⟨⟨hwait, hf, [], l, hair ▸ hrest, .spent hspent, hl'⟩, ?_⟩
    rw [hair, hrest.length_eq]
    omega

/-- **The RREQ comes to node `k`**, which answers. -/
theorem Flooding.answered (hline : Line k addr bcast) (h : Flooding k addr bcast pid g j f c)
    (hperm : c.air.Perm (⟨f, f + 1, p⟩ :: l)) (hp : Request k addr bcast j f p)
    (hl : ∀ y ∈ l, Echo k addr bcast j f y) (hf : f + 1 = k)
    (hg : g.Grows k addr (chainStep k c (.hear ⟨f, f + 1, p⟩ now)) g') :
    Replying k addr bcast pid g' j k (chainStep k c (.hear ⟨f, f + 1, p⟩ now)) ∧
      (chainStep k c (.hear ⟨f, f + 1, p⟩ now)).air.length ≤ c.air.length := by
  obtain ⟨ha, hnew⟩ := h.at_front hline h.before hp
  have hwait := h.goes_on hline h.before hp hg
  have hrest := air_front hperm
  have hlen : c.air.length = l.length + 1 := hperm.length_eq
  have hreached : k ≤ ringTtl j := by
    have hone := hp.ttl
    have halive := hp.alive
    omega
  obtain ⟨seq_num, hsent⟩ := sent_own now (h.wf.wf (f + 1)) hp.isRreq ha hnew
    (by rw [hp.dest, h.wf.ip_addr, hf])
  rw [h.wf.ip_addr, h.wf.ip_addr, hp.orig] at hsent
  have hair : (chainStep k c (.hear ⟨f, f + 1, p⟩ now)).air = _ := air_hear_single
    (by dsimp only; rw [h.wf.ip_addr]; exact hsent)
  have hreply := reply_own k addr seq_num
  subst hf
  rw [Nat.add_sub_cancel] at hreply
  rw [flights_unicast h.wf hline.distinct hline.broadcast (Nat.le_add_left 1 f) rfl] at hair
  refine ⟨⟨hwait, Nat.succ_pos f, le_rfl, hreached, _, l, ?_, hreply,
    fun y hy => (hl y hy).mono (Nat.le_succ f)⟩, ?_⟩
  · rw [hair]
    exact (hrest.append_right _).trans List.perm_append_comm
  · rw [hair, List.length_append, hrest.length_eq, hlen]
    rfl

/-- **The RREQ goes on.** -/
theorem Flooding.hears (hline : Line k addr bcast) (h : Flooding k addr bcast pid g j f c)
    (hx : x ∈ c.air) (hg : g.Grows k addr (chainStep k c (.hear x now)) g') :
    Flooding k addr bcast pid g' j f (chainStep k c (.hear x now)) ∧
        (chainStep k c (.hear x now)).air.length < c.air.length ∨
      Flooding k addr bcast pid g' j (f + 1) (chainStep k c (.hear x now)) ∧
        (chainStep k c (.hear x now)).air.length ≤ c.air.length + 1 ∨
      Replying k addr bcast pid g' j k (chainStep k c (.hear x now)) ∧
        (chainStep k c (.hear x now)).air.length ≤ c.air.length := by
  obtain ⟨front, l, hperm, hfront, hl⟩ := h.air
  rcases List.mem_append.1 (hperm.mem_iff.1 hx) with hmem | hmem
  · cases hfront with
    | spent => cases hmem
    | underway p hp =>
      obtain rfl := List.mem_singleton.1 hmem
      rcases Nat.lt_or_eq_of_le (Nat.succ_le_of_lt h.before) with hlt | heq
      · exact .inr (.inl (h.passes hline hperm hp hl hlt hg))
      · exact .inr (.inr (h.answered hline hperm hp hl heq hg))
  · exact .inl (h.echo hline hperm hfront hl hmem hg)

/-! ## The RREP comes back -/

/-- **The RREP passes a node between the ends.** -/
theorem Replying.passes (hline : Line k addr bcast)
    (h : Replying k addr bcast pid g j (r + 1) c) (hperm : c.air.Perm (⟨r + 1, r, p⟩ :: l))
    (hp : Reply k addr (r + 1) p) (hl : ∀ y ∈ l, Echo k addr bcast j k y) (hr : 1 ≤ r)
    (hg : g.Grows k addr (chainStep k c (.hear ⟨r + 1, r, p⟩ now)) g') :
    Replying k addr bcast pid g' j r (chainStep k c (.hear ⟨r + 1, r, p⟩ now)) ∧
      (chainStep k c (.hear ⟨r + 1, r, p⟩ now)).air.length ≤ c.air.length := by
  have hrk : r < k := h.bound
  have hsender : (c.node (r + 1)).ip_addr = addr (r + 1) := h.wf.ip_addr _
  have hself : (c.node r).ip_addr = addr r := h.wf.ip_addr _
  have ha : addr (r + 1) ≠ (c.node r).ip_addr := by
    rw [hself]
    exact hline.ne h.bound hrk.le (Nat.succ_ne_self r)
  have hk0 : addr 0 ≠ addr k := hline.ne (Nat.zero_le k) le_rfl (Nat.ne_of_lt hline.links)
  have hnode := h.nodes r hr hrk.le
  have hnone : (c.node r).info p.rrep.dest_ip_addr = none := by
    rw [hp.dest]
    exact hnode.unknown (Nat.lt_succ_self r) hrk
  obtain ⟨-, y, hy, hnext⟩ := hnode.heard hrk.le
  have hhears := hearsReply now (h.wf.wf r) hp.isRrep ha hnone
  obtain ⟨hqueue, hsent⟩ := reply_passed now (h.wf.wf r) hp.isRrep ha hnone
    (by rw [hself, hp.orig]; exact hline.ne hrk.le (Nat.zero_le k) (Nat.ne_of_gt hr))
    (by rw [hp.orig, hp.dest]; exact hk0) (by rw [hp.orig]; exact hy)
  rw [hnext] at hsent
  have hback := hp.next (a := addr (r + 1)) ((c.node r).os.setIpTtl (p.ttl - 1))
  have hstep : (chainStep k c (.hear ⟨r + 1, r, p⟩ now)).node r =
      step (c.node r) (heard now (addr (r + 1)) p) := hsender ▸ node_hear_same
  have hair : (chainStep k c (.hear ⟨r + 1, r, p⟩ now)).air = _ := air_hear_single
    (by dsimp only; rw [hsender]; exact hsent)
  rw [flights_unicast h.wf hline.distinct hline.broadcast hr rfl] at hair
  have hrest := air_front hperm
  have hlen : c.air.length = l.length + 1 := hperm.length_eq
  refine ⟨⟨⟨wf_chainStep h.wf _, ?_, fun n h1 hn => ?_⟩, hr, hrk.le, h.reached, _, l, ?_,
    hback, hl⟩, ?_⟩
  · rw [node_hear_other (Nat.ne_of_lt hr)]
    exact h.asking
  · by_cases hn' : n = r
    · subst hn'
      rw [hstep]
      exact hnode.hears_reply hn hp (hline.ne (Nat.zero_le k) h.bound (Nat.succ_ne_zero n).symm) hk0
        hhears hqueue hstep hg
    · rw [node_hear_other hn']
      exact ((h.nodes n h1 hn).elsewhere_reply hn').mono hg
  · rw [hair]
    exact (hrest.append_right _).trans List.perm_append_comm
  · rw [hair, List.length_append, hrest.length_eq, hlen]
    rfl

/-- **The RREP comes to node 0**, where the packet is waiting. -/
theorem Replying.ends (hline : Line k addr bcast) (h : Replying k addr bcast pid g j 1 c)
    (hp : Reply k addr 1 p) (hg : g.Grows k addr (chainStep k c (.hear ⟨1, 0, p⟩ now)) g') :
    Ended k addr bcast pid g' (chainStep k c (.hear ⟨1, 0, p⟩ now)) := by
  have hsender : (c.node 1).ip_addr = addr 1 := h.wf.ip_addr _
  have hself : (c.node 0).ip_addr = addr 0 := h.wf.ip_addr _
  have ha : addr 1 ≠ (c.node 0).ip_addr := by
    rw [hself]
    exact hline.ne h.bound (Nat.zero_le k) Nat.one_ne_zero
  have hnone : (c.node 0).info p.rrep.dest_ip_addr = none := by
    rw [hp.dest]
    exact h.asking.info
  have hhears := hearsReply now (h.wf.wf 0) hp.isRrep ha hnone
  have hended := reply_ended now (h.wf.wf 0) hp.isRrep ha hnone (hself.trans hp.orig.symm)
  obtain ⟨hqueue, hpackets, hverdicts⟩ := h.asking.answered (h.wf.wf 0) hp.dest hhears hended.1
  have hstep : (chainStep k c (.hear ⟨1, 0, p⟩ now)).node 0 =
      step (c.node 0) (heard now (addr 1) p) := hsender ▸ node_hear_same
  have hroute : RouteVia ((chainStep k c (.hear ⟨1, 0, p⟩ now)).node 0) (addr k) (addr 1) := by
    rw [hstep, ← hp.dest]
    exact ⟨hhears.active, hhears.forward⟩
  have hlast : k ≤ ringTtl RREQ_RETRIES.toNat :=
    h.reached.trans (Nat.add_le_add_left (Nat.mul_le_mul_right _ h.asking.tries) _)
  refine .released ⟨wf_chainStep h.wf _, ?_, ?_, ?_, hlast, hg.origin (.inr hroute),
    fun i h0 hi => ⟨?_, ?_⟩⟩
  · intro e he
    rw [hstep, hqueue] at he
    cases he
  · rw [hstep, hpackets]
  · rw [hstep, hverdicts]
  · exact hg.reverse i (.inl ((h.nodes i h0 hi.le).reverse (.inl hi.le)))
  · exact hg.forward i (.inl ((h.nodes i h0 hi.le).forward h0 hi))

/-- **The RREP comes back.** -/
theorem Replying.hears (hline : Line k addr bcast) (h : Replying k addr bcast pid g j r c)
    (hx : x ∈ c.air) (hg : g.Grows k addr (chainStep k c (.hear x now)) g') :
    Replying k addr bcast pid g' j r (chainStep k c (.hear x now)) ∧
        (chainStep k c (.hear x now)).air.length < c.air.length ∨
      Replying k addr bcast pid g' j (r - 1) (chainStep k c (.hear x now)) ∧
        (chainStep k c (.hear x now)).air.length ≤ c.air.length ∨
      Ended k addr bcast pid g' (chainStep k c (.hear x now)) := by
  obtain ⟨p, l, hperm, hp, hl⟩ := h.air
  rcases List.mem_cons.1 (hperm.mem_iff.1 hx) with rfl | hmem
  · obtain ⟨r, rfl⟩ := Nat.exists_eq_add_of_le' h.after
    rcases Nat.eq_zero_or_pos r with rfl | hr
    · exact .inr (.inr (h.ends hline hp hg))
    · exact .inr (.inl (h.passes hline hperm hp hl hr hg))
  · exact .inl (h.echo hline hperm hp hl hmem hg)

/-! ## The alarms -/

/-- When nothing is under way, the RREQ has stopped short of node `k`. -/
theorem Flooding.calm (h : Flooding k addr bcast pid g j f c) (hair : c.air = []) :
    Calm k addr bcast pid g j c := by
  obtain ⟨front, l, hperm, hfront, -⟩ := h.air
  rw [hair] at hperm
  obtain ⟨hnil, -⟩ := List.append_eq_nil_iff.1 hperm.symm.eq_nil
  have hspent : f = ringTtl j := by
    cases hfront with
    | spent heq => exact heq
    | underway => cases hnil
  have hnodes : ∀ m, 1 ≤ m → m ≤ k → NodeOk k addr g (j + 1) 0 k m (c.node m) := fun m h1 hm =>
    { h.nodes m h1 hm with
      ids := fun e he hdst => ((h.nodes m h1 hm).ids e he hdst).trans (Nat.le_succ _)
      unheard := fun _ => (h.nodes m h1 hm).ids
      heard := fun hle => absurd h1 (by omega)
      reverse := fun hor => (h.nodes m h1 hm).reverse (hor.imp_left fun hle => by omega) }
  exact ⟨⟨h.wf, h.asking, hnodes⟩, hspent ▸ h.before, hair⟩

/-- The alarms of another node. -/
theorem Calm.rings_other (h : Calm k addr bcast pid g j c) (h1 : 1 ≤ m) (hm : m ≤ k)
    (hg : g.Grows k addr (chainStep k c (.ring m now freed)) g') :
    Calm k addr bcast pid g' j (chainStep k c (.ring m now freed)) := by
  have hnode := h.nodes m h1 hm
  obtain ⟨hmoved, hsub⟩ := unmoved_rings (h.wf.wf m) hnode.noOwn now freed
  refine ⟨⟨wf_chainStep h.wf _, ?_, fun n hn1 hn => ?_⟩, h.missed,
    (air_turn_silent hmoved.sent).trans h.air⟩
  · rw [node_ring_other (Nat.ne_of_lt h1)]
    exact h.asking
  · refine NodeOk.mono ?_ hg
    by_cases hn' : n = m
    · subst hn'
      rw [node_ring_same]
      exact hnode.rings h1 hmoved hsub
    · rw [node_ring_other hn']
      exact h.nodes n hn1 hn

/-- **Alarms run while nothing is under way**: those of node 0 may start the next try or give up, and
    do so when the alarm of the request is due. -/
theorem Calm.rings (hline : Line k addr bcast) (h : Calm k addr bcast pid g j c) (hm : m ≤ k)
    (hg : g.Grows k addr (chainStep k c (.ring m now freed)) g') :
    Calm k addr bcast pid g' j (chainStep k c (.ring m now freed)) ∧
        ((chainStep k c (.ring m now freed)).node 0).rreq_queue = (c.node 0).rreq_queue ∧
        (m = 0 → ∀ e ∈ (c.node 0).rreq_queue, now < e.alarm.tv) ∨
      Flooding k addr bcast pid g' (j + 1) 0 (chainStep k c (.ring m now freed)) ∨
      Ended k addr bcast pid g' (chainStep k c (.ring m now freed)) := by
  rcases Nat.eq_zero_or_pos m with rfl | h1
  · have hwf := wf_chainStep (k := k) h.wf (.ring 0 now freed)
    have hnodes : ∀ m, 1 ≤ m → m ≤ k →
        NodeOk k addr g' (j + 1) 0 k m ((chainStep k c (.ring 0 now freed)).node m) := by
      intro m h1 hm
      rw [node_ring_other (Nat.ne_of_gt h1)]
      exact (h.nodes m h1 hm).mono hg
    have hrung := h.asking.rings now freed (h.wf.wf 0) (h.wf.ip_addr 0) (h.wf.broadcast_addr 0)
    rw [← node_ring_same (k := k)] at hrung
    cases hrung with
    | idle hasking hsent hqueue hdue =>
      rw [node_ring_same] at hsent
      exact .inl ⟨⟨⟨hwf, hasking, hnodes⟩, h.missed, (air_turn_silent hsent).trans h.air⟩, hqueue,
        fun _ => hdue⟩
    | retried hasking q hq hsent =>
      rw [node_ring_same] at hsent
      have hair : (chainStep k c (.ring 0 now freed)).air = [⟨0, 1, q⟩] := by
        refine (air_turn_single hsent).trans ?_
        rw [h.air, flights_broadcast h.wf hq.address, neighbours, if_neg (Nat.lt_irrefl 0),
          if_pos (show 0 < k from hline.links)]
        rfl
      exact .inr (.inl ⟨⟨hwf, hasking, hnodes⟩, hline.links, [⟨0, 1, q⟩], [], by rw [hair]; rfl,
        .underway q hq, fun y hy => by cases hy⟩)
    | gaveUp hlast hqueue hend hsent =>
      rw [node_ring_same] at hsent
      refine .inr (.inr (.lost ⟨hwf, fun n hn => ?_, (air_turn_silent hsent).trans h.air,
        hend.imp And.right And.right, hlast ▸ h.missed⟩))
      rcases Nat.eq_zero_or_pos n with rfl | hn1
      · intro e he
        rw [hqueue] at he
        cases he
      · exact (hnodes n hn1 hn).noOwn
  · refine .inl ⟨h.rings_other h1 hm hg, ?_, fun h0 => absurd h0 (by omega)⟩
    rw [node_ring_other (Nat.ne_of_lt h1)]

/-! ## One event, whatever the phase -/

/-- A node in its initial state. -/
theorem NodeOk.init (g : Goals) (a : InAddr) (iface : U32) (hm : 1 ≤ m) :
    NodeOk k addr g 0 0 k m (mshDataInit a bcast iface) where
  noOwn := fun e he => by cases he
  ids := fun e he => by cases he
  unheard := fun _ e he => by cases he
  heard := fun hle => absurd hm (by omega)
  reverse := fun hor => absurd hor (not_or.2 ⟨by omega, fun hsome => hsome rfl⟩)
  unknown := fun _ _ => rfl
  forward := fun hle hlt => absurd hlt (by omega)

/-- **The first try.** -/
theorem Flooding.init (iface : Nat → U32) (now : Nat) {nfa : NfqData} (hline : Line k addr bcast)
    (hhook : nfqueuePacketGetHook nfa = NF_IP_LOCAL_OUT) (hdata : nfqueuePacketIsAodv nfa = false)
    (hdest : nfqueuePacketGetDest nfa = addr k) (g : Goals) :
    Flooding k addr bcast (nfqueuePacketGetId nfa) g 0 0
      (chainAsked k addr bcast iface now nfa) := by
  obtain ⟨hasking, q, hsent, hq⟩ := Asking.init (iface 0) now hline hhook hdata hdest
  have hinit := NetWf.init addr bcast iface
  have hair : (chainAsked k addr bcast iface now nfa).air = [⟨0, 1, q⟩] := by
    refine (air_turn_single (c := ⟨netInit addr bcast iface, []⟩) hsent).trans ?_
    rw [flights_broadcast hinit hq.address, neighbours, if_neg (Nat.lt_irrefl 0),
      if_pos (show 0 < k from hline.links)]
    rfl
  refine ⟨⟨hinit.step ⟨0, now, [], [], .packet nfa⟩, ?_, fun m h1 hm => ?_⟩, hline.links,
    [⟨0, 1, q⟩], [], by rw [hair]; rfl, .underway q hq, fun y hy => by cases hy⟩
  · rw [chainAsked, node_turn_same]
    exact hasking
  · rw [chainAsked, node_turn_other (Nat.ne_of_gt h1)]
    exact .init g _ _ h1

variable {a : Nat ×ₗ Nat}

/-- **A message is heard.** -/
theorem Phase.hears (hline : Line k addr bcast) (h : Phase k addr bcast pid g c a) (hx : x ∈ c.air)
    (hg : g.Grows k addr (chainStep k c (.hear x now)) g') :
    ∃ b, Phase k addr bcast pid g' (chainStep k c (.hear x now)) b ∧
      (b < a ∨ Ended k addr bcast pid g c) := by
  cases h with
  | flooding j f h =>
    have hf := h.before
    rcases h.hears hline hx hg with ⟨hnext, hlen⟩ | ⟨hnext, hlen⟩ | ⟨hnext, hlen⟩
    · exact ⟨_, .flooding j f hnext, .inl (Prod.Lex.toLex_lt_toLex.2 (.inr ⟨rfl, by omega⟩))⟩
    · exact ⟨_, .flooding j _ hnext, .inl (Prod.Lex.toLex_lt_toLex.2 (.inr ⟨rfl, by omega⟩))⟩
    · exact ⟨_, .replying j k hnext, .inl (Prod.Lex.toLex_lt_toLex.2 (.inr ⟨rfl, by omega⟩))⟩
  | replying j r h =>
    have hr := h.after
    have hj : j ≤ 2 := h.asking.tries
    rcases h.hears hline hx hg with ⟨hnext, hlen⟩ | ⟨hnext, hlen⟩ | hnext
    · exact ⟨_, .replying j r hnext, .inl (Prod.Lex.toLex_lt_toLex.2 (.inr ⟨rfl, by omega⟩))⟩
    · exact ⟨_, .replying j _ hnext, .inl (Prod.Lex.toLex_lt_toLex.2 (.inr ⟨rfl, by omega⟩))⟩
    · exact ⟨_, .ended hnext, .inl (Prod.Lex.toLex_lt_toLex.2 (.inl (by omega)))⟩
  | calm j h => rw [h.air] at hx; cases hx
  | ended h => exact ⟨_, .ended (h.steps hx hg), .inr h⟩

/-- The phase when nothing is under way. -/
theorem Phase.quiet (h : Phase k addr bcast pid g c a) (hair : c.air = []) :
    (∃ j, Calm k addr bcast pid g j c ∧ toLex (3 - j, 0) ≤ a) ∨ Ended k addr bcast pid g c := by
  cases h with
  | flooding j f h =>
    exact .inl ⟨j, h.calm hair, Prod.Lex.toLex_le_toLex.2 (.inr ⟨rfl, Nat.zero_le _⟩)⟩
  | replying j r h =>
    obtain ⟨p, l, hperm, -⟩ := h.air
    rw [hair] at hperm
    cases hperm.symm.eq_nil
  | calm j h => exact .inl ⟨j, h, le_rfl⟩
  | ended h => exact .inr h

/-- **Every event leads to a phase.** -/
theorem Phase.steps (hline : Line k addr bcast) (h : Phase k addr bcast pid g c a)
    (he : Undelayed k c e) (hg : g.Grows k addr (chainStep k c e) g') :
    ∃ b, Phase k addr bcast pid g' (chainStep k c e) b := by
  cases e with
  | hear x now =>
    obtain ⟨b, hb, -⟩ := h.hears hline he hg
    exact ⟨b, hb⟩
  | ring m now freed =>
    rcases h.quiet he.2 with ⟨j, hcalm, -⟩ | hended
    · rcases hcalm.rings hline he.1 hg with ⟨hnext, -⟩ | hnext | hnext
      · exact ⟨_, .calm j hnext⟩
      · exact ⟨_, .flooding _ _ hnext⟩
      · exact ⟨_, .ended hnext⟩
    · exact ⟨_, .ended (hended.steps he hg)⟩

/-- The verdicts so far. -/
theorem Phase.verdicts (h : Phase k addr bcast pid g c a) : (c.node 0).os.verdicts = [] ∨
    (c.node 0).os.verdicts = [(pid, .NF_ACCEPT)] ∧ k ≤ ringTtl RREQ_RETRIES.toNat ∨
    (c.node 0).os.verdicts = [(pid, .NF_DROP)] ∧ ringTtl RREQ_RETRIES.toNat < k := by
  cases h with
  | flooding j f h => exact .inl h.asking.verdicts
  | replying j r h => exact .inl h.asking.verdicts
  | calm j h => exact .inl h.asking.verdicts
  | ended h =>
    cases h with
    | released h => exact .inr (.inl ⟨h.verdicts, h.reached⟩)
    | lost h => exact h.verdicts.elim (fun hv => .inr (.inr ⟨hv, h.missed⟩)) .inl

end Meshias
