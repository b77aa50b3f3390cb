import Meshias.CommInterface
import Meshias.Daemon
import Meshias.Lib.Machine

/-!
# Commands

The rest of `communication_interface.c`: a client sends a command over a connection of its own, and the
daemon answers.

* `Control` — what a command can see and change: the daemon, `data.end` and all the statistics.
* `ControlRequest`, `requestOf`, `serve` — what a command asks for, and what it gets.
* `controlRun` — turns of the daemon and commands in any order.

Principal results: `routes_listing_faithful` — two tables are listed alike exactly if they agree entry
by entry in what is listed; `controlRun_refines` — commands keep the daemon in its runs — and
`controlRun_isSome_iff` — none of them writes outside a buffer exactly if none overruns one in the
state it meets; what `send_msg` reads is no part of it.
-/

set_option autoImplicit false

namespace Meshias

open CString (ascii line)

/-! ## What is listed -/

/-- `struct route` of `communication_interface.h`. -/
structure ListedRoute where
  dst_ip : InAddr
  prefix_sz : U8
  dest_seq_num : U32
  flags : U16
  hop_count : U8
  next_hop : InAddr
  net_iface : U32
  deriving DecidableEq, Repr

def MshRoute.listed (route : MshRoute) : ListedRoute :=
  ⟨route.dst_ip, route.prefix_sz, route.dest_seq_num, route.flags, route.hop_count, route.next_hop,
    route.net_iface⟩

/-- The arguments of `snprintf` in `add_route`. -/
def ListedRoute.numbers (r : ListedRoute) : List Int :=
  [r.dst_ip.toInt, r.prefix_sz.toNat, r.dest_seq_num.toInt, r.flags.toNat, r.hop_count.toNat,
    r.next_hop.toInt, r.net_iface.toInt]

theorem ListedRoute.numbers_ne_nil (r : ListedRoute) : r.numbers ≠ [] := List.cons_ne_nil _ _

theorem ListedRoute.numbers_inj {r r' : ListedRoute} (h : r.numbers = r'.numbers) : r = r' := by
  obtain ⟨dst, psz, seq, flags, hops, next, iface⟩ := r
  obtain ⟨dst', psz', seq', flags', hops', next', iface'⟩ := r'
  simp only [numbers, List.cons.injEq, Int.natCast_inj, BitVec.toInt_inj, BitVec.toNat_inj,
    and_true] at h
  obtain ⟨rfl, rfl, rfl, rfl, rfl, rfl, rfl⟩ := h
  rfl

theorem routeText_eq_line (route : MshRoute) :
    routeText route = line (ascii '#') (ascii '\n') route.listed.numbers := by
  simp [routeText, line, MshRoute.listed, ListedRoute.numbers, List.intercalate_cons_cons]

theorem routesText_eq_lines (table : List MshRoute) : routesText table =
    (table.map fun r => r.listed.numbers).flatMap (line (ascii '#') (ascii '\n')) := by
  rw [routesText, List.flatMap_map]
  exact congrArg (table.flatMap ·) (funext routeText_eq_line)

/-- The numbers of a list of routes are read back. -/
theorem readLines_routesText (table : List MshRoute) :
    CString.readLines (ascii '#') (ascii '\n') (routesText table) =
      table.map fun r => r.listed.numbers := by
  rw [routesText_eq_lines]
  refine CString.readLines_flatMap (by decide) (by decide) (by decide) fun ns hns => ?_
  obtain ⟨r, -, rfl⟩ := List.mem_map.1 hns
  exact r.listed.numbers_ne_nil

/-- **The list tells the table**: two tables are listed by the same text exactly if they agree, entry
    by entry and in the same order, in everything that is listed. -/
theorem routes_listing_faithful (table table' : List MshRoute) :
    routesText table = routesText table' ↔
      table.map MshRoute.listed = table'.map MshRoute.listed := by
  constructor
  · intro htext
    have hnumbers := congrArg (CString.readLines (ascii '#') (ascii '\n')) htext
    rw [readLines_routesText, readLines_routesText] at hnumbers
    have hinj : Function.Injective ListedRoute.numbers := fun _ _ h => ListedRoute.numbers_inj h
    apply List.map_injective_iff.2 hinj
    rw [List.map_map, List.map_map]
    exact hnumbers
  · intro hlisted
    have hmap := congrArg (List.map ListedRoute.numbers) hlisted
    rw [List.map_map, List.map_map] at hmap
    rw [routesText_eq_lines, routesText_eq_lines]
    exact congrArg (List.flatMap (line (ascii '#') (ascii '\n'))) hmap

/-! ## The daemon -/

def text (s : String) : List U8 := s.toList.map ascii

def MSG_HELP : List U8 := text "help"
def MSG_QUIT : List U8 := text "quit"
def MSG_KILL : List U8 := text "kill"
def MSG_RESTART : List U8 := text "restart"
def MSG_SHOW_ROUTES : List U8 := text "showroutes"
def MSG_SHOW_STATISTICS : List U8 := text "showstatistics"
def MSG_CLEAN_STATISTICS : List U8 := text "cleanstatistics"

/-- `strncmp(command, msg, strlen(msg)) == 0`. -/
def startsWith (command msg : List U8) : Bool := msg.isPrefixOf command

/-- The counters of `struct statistics_t` that only the sockets write. -/
structure OtherStatistics where
  no_payload_received : U32 := 0
  send_aodv_errors : U32 := 0
  send_aodv_incomplete : U32 := 0
  error_aodv_recv : U32 := 0
  error_nfq_recv : U32 := 0
  error_unix_recv : U32 := 0
  deriving DecidableEq, Repr

/-- The daemon, `data.end` and the other counters. -/
structure Control where
  data : MshData
  ended : Bool := false
  others : OtherStatistics := {}

def stats_size : Nat := 5000

/-- `stats_buf`, after `memset`. -/
def statsBuf : List U8 := List.replicate stats_size 0

def ack : List U8 := text "ACK" ++ [0]

namespace Control

/-- The arguments of `snprintf` in `get_statistics`. -/
def counters (c : Control) : List U32 :=
  [c.data.stats.packets_dropped, c.data.stats.no_address_received, c.others.no_payload_received,
    c.others.send_aodv_errors, c.others.send_aodv_incomplete, c.data.stats.rreq_incorrect_size,
    c.data.stats.rrep_incorrect_size, c.data.stats.rerr_incorrect_size,
    c.data.stats.rerr_dest_cont_zero, c.data.stats.rrep_ack_incorrect_size,
    c.data.stats.aodv_incorrect_type, c.data.stats.no_ttl_received, c.others.error_aodv_recv,
    c.others.error_nfq_recv, c.others.error_unix_recv, c.data.stats.invalid_route]

/-- `"%d#%d#…#%d\n"`. -/
def statisticsText (c : Control) : List U8 :=
  line (ascii '#') (ascii '\n') (c.counters.map BitVec.toInt)

def getStatistics (c : Control) (buf : List U8) (bufsize : Nat) : Option (List U8) :=
  CString.snprintf buf 0 bufsize c.statisticsText

def statsReset (c : Control) : Control :=
  { c with data := { c.data with stats := {} }, others := {} }

/-- `none` if something is written outside of `stats_buf`; else what is sent, if anything: `tosend`
    with its size. -/
def commInterfaceProcessCommand (c : Control) (command : List U8) :
    Option (Control × Option (List U8)) :=
  if startsWith command MSG_KILL then some ({ c with ended := true }, some ack)
  else if startsWith command MSG_RESTART then some (c, some ack)
  else if startsWith command MSG_SHOW_ROUTES then do
    let stats_buf ← getRoutes c.data.routing_table statsBuf stats_size
    let tosend ← CString.string stats_buf
    return (c, some tosend)
  else if startsWith command MSG_SHOW_STATISTICS then do
    let stats_buf ← c.getStatistics statsBuf stats_size
    let tosend ← CString.string stats_buf
    return (c, some tosend)
  else if startsWith command MSG_CLEAN_STATISTICS then do
    let c := c.statsReset
    let stats_buf ← c.getStatistics statsBuf stats_size
    let tosend ← CString.string stats_buf
    return (c, some tosend)
  else some (c, none)

/-- `recv` returned these bytes, or failed.  `buffer[ret] = 0` is inside `buffer` only after a message
    of less than 128 bytes. -/
def commInterfaceReceivePackets (c : Control) (recv : Option (List U8)) :
    Option (Control × Option (List U8)) := do
  let bytes ← recv
  if bytes.length < 128 then c.commInterfaceProcessCommand (bytes.takeWhile (· ≠ 0))
  else none

end Control

/-! ## What a command gets -/

inductive ControlRequest where
  | kill
  | restart
  | showRoutes
  | showStatistics
  | cleanStatistics
  deriving DecidableEq, Repr

def ControlRequest.message : ControlRequest → List U8
  | .kill => MSG_KILL
  | .restart => MSG_RESTART
  | .showRoutes => MSG_SHOW_ROUTES
  | .showStatistics => MSG_SHOW_STATISTICS
  | .cleanStatistics => MSG_CLEAN_STATISTICS

/-- What a command asks for: what stands behind the name does not count. -/
def requestOf (command : List U8) : Option ControlRequest :=
  [.kill, .restart, .showRoutes, .showStatistics, .cleanStatistics].find?
    (fun r => startsWith command r.message)

/-- What a request gets, if the buffer has room for it. -/
def Control.serve (c : Control) : ControlRequest → Option (Control × List U8)
  | .kill => some ({ c with ended := true }, ack)
  | .restart => some (c, ack)
  | .showRoutes =>
    if (routesText c.data.routing_table).length < stats_size then
      some (c, routesText c.data.routing_table)
    else none
  | .showStatistics => some (c, c.statisticsText)
  | .cleanStatistics => some (c.statsReset, c.statsReset.statisticsText)

theorem length_statsBuf : statsBuf.length = stats_size := List.length_replicate

theorem statsBuf_ne_nil : statsBuf ≠ [] := by
  rw [← List.length_pos_iff, length_statsBuf]
  decide

theorem string_statsBuf : CString.string statsBuf = some [] := by
  rw [CString.string_eq_nil_iff, statsBuf, List.head?_replicate]
  rfl

/-- A list of at most one route always fits. -/
theorem length_routeText_lt (route : MshRoute) : (routeText route).length < stats_size := by
  have hbound : ∀ n ∈ route.listed.numbers, n.natAbs < 10 ^ 10 := by
    intro n hn
    have hword : ∀ w : U32, w.toInt.natAbs < 10 ^ 10 := fun w => by
      have hlo := BitVec.le_toInt w
      have hhi := BitVec.toInt_lt (x := w)
      omega
    have hsmall : ∀ {k : Nat} (w : BitVec k), k ≤ 16 → (w.toNat : Int).natAbs < 10 ^ 10 :=
      fun w hk => by
        have hlt := Nat.lt_of_lt_of_le w.isLt (Nat.pow_le_pow_right (by decide) hk)
        omega
    simp only [ListedRoute.numbers, List.mem_cons, List.not_mem_nil, or_false] at hn
    rcases hn with rfl | rfl | rfl | rfl | rfl | rfl | rfl
    · exact hword _
    · exact hsmall _ (by decide)
    · exact hword _
    · exact hsmall _ (by decide)
    · exact hsmall _ (by decide)
    · exact hword _
    · exact hword _
  have hline : (line (ascii '#') (ascii '\n') route.listed.numbers).length ≤
      (10 + 2) * 7 + 1 := CString.length_line_le (by decide) hbound
  rw [routeText_eq_line]
  exact Nat.lt_of_le_of_lt hline (by decide)

/-- A list that fits into a buffer is the string there. -/
theorem getRoutes_room {table : List MshRoute} {buf : List U8} (htable : table ≠ [])
    (hfit : (routesText table).length < buf.length) :
    (getRoutes table buf buf.length).bind CString.string = some (routesText table) := by
  have hholds : Holds ⟨0, buf.length, buf⟩ [] := ⟨rfl, rfl, List.nil_prefix⟩
  have hlength : ([] : List U8).length + (routesText table).length < buf.length := by
    rwa [List.length_nil, Nat.zero_add]
  obtain ⟨rd, hrun, hwritten⟩ := foreach_fits hholds hlength
  rw [getRoutes, hrun]
  exact CString.string_of_prefix (zero_notMem_routesText table) (hwritten htable)

/-- **The list of the routes**, cut off nowhere, or written over the end of the buffer. -/
theorem getRoutes_statsBuf (table : List MshRoute) :
    (getRoutes table statsBuf stats_size).bind CString.string =
      if (routesText table).length < stats_size then some (routesText table) else none := by
  have hsize := length_statsBuf
  have hempty := string_statsBuf
  have hne := statsBuf_ne_nil
  generalize statsBuf = buf at hsize hempty hne
  rw [← hsize]
  split
  · rename_i hfit
    cases table with
    | nil =>
      rw [getRoutes_nil]
      exact hempty
    | cons first rest => exact getRoutes_room (List.cons_ne_nil first rest) hfit
  · rename_i hover
    have hlong := Nat.not_lt.1 hover
    rcases table with _ | ⟨first, _ | ⟨second, rest⟩⟩
    · rw [routesText, List.flatMap_nil, List.length_nil, hsize, stats_size] at hlong
      omega
    · have hshort := length_routeText_lt first
      rw [hsize, routesText, List.flatMap_singleton] at hlong
      omega
    · rw [getRoutes_overruns hne hlong]
      rfl

theorem length_statisticsText (c : Control) : c.statisticsText.length < stats_size := by
  have hbound : ∀ n ∈ c.counters.map BitVec.toInt, n.natAbs < 10 ^ 10 := by
    intro n hn
    obtain ⟨w, -, rfl⟩ := List.mem_map.1 hn
    have hlo := BitVec.le_toInt w
    have hhi := BitVec.toInt_lt (x := w)
    omega
  have hline : c.statisticsText.length ≤ (10 + 2) * 16 + 1 :=
    CString.length_line_le (by decide) hbound
  exact Nat.lt_of_le_of_lt hline (by decide)

/-- **The statistics** always fit. -/
theorem getStatistics_statsBuf (c : Control) :
    (c.getStatistics statsBuf stats_size).bind CString.string = some c.statisticsText := by
  have hfit : ([] : List U8).length + c.statisticsText.length < statsBuf.length := by
    rw [length_statsBuf, List.length_nil, Nat.zero_add]
    exact length_statisticsText c
  obtain ⟨out, hwrite, hprefix⟩ := CString.snprintf_fits (m := statsBuf) List.nil_prefix hfit
  rw [length_statsBuf] at hwrite
  rw [Control.getStatistics]
  have hfree : (0 : U8) ∉ c.statisticsText :=
    CString.notMem_line (by decide) (by decide) (by decide) _
  rw [show CString.snprintf statsBuf 0 stats_size c.statisticsText = some out from hwrite]
  exact CString.string_of_prefix hfree hprefix

/-- **What a command gets.** -/
theorem commInterfaceProcessCommand_eq (c : Control) (command : List U8) :
    c.commInterfaceProcessCommand command =
      match requestOf command with
      | some r => (c.serve r).map fun x => (x.1, some x.2)
      | none => some (c, none) := by
  have hroutes : (do
      let stats_buf ← getRoutes c.data.routing_table statsBuf stats_size
      let tosend ← CString.string stats_buf
      return (c, some tosend) : Option (Control × Option (List U8))) =
      (c.serve .showRoutes).map fun x => (x.1, some x.2) := by
    have hlist := getRoutes_statsBuf c.data.routing_table
    cases hget : getRoutes c.data.routing_table statsBuf stats_size with
    | none =>
      rw [hget] at hlist
      rw [Control.serve]
      split
      · rename_i hfit
        rw [if_pos hfit] at hlist
        cases hlist
      · rfl
    | some buf =>
      rw [hget, Option.bind_some] at hlist
      simp only [Option.bind_eq_bind, Option.bind_some, hlist, Control.serve]
      split <;> rfl
  have hstatistics : ∀ c : Control, (do
      let stats_buf ← c.getStatistics statsBuf stats_size
      let tosend ← CString.string stats_buf
      return (c, some tosend) : Option (Control × Option (List U8))) =
      some (c, some c.statisticsText) := by
    intro c
    have htext := getStatistics_statsBuf c
    obtain ⟨buf, hget, hstring⟩ := Option.bind_eq_some_iff.1 htext
    rw [hget]
    simp only [Option.bind_eq_bind, Option.bind_some, hstring]
    rfl
  unfold Control.commInterfaceProcessCommand requestOf
  simp only [hroutes, hstatistics, List.find?_cons, List.find?_nil, ControlRequest.message]
  cases startsWith command MSG_KILL
  · cases startsWith command MSG_RESTART
    · cases startsWith command MSG_SHOW_ROUTES
      · cases startsWith command MSG_SHOW_STATISTICS
        · cases startsWith command MSG_CLEAN_STATISTICS <;> rfl
        · rfl
      · rfl
    · rfl
  · rfl

/-! ## Turns and commands -/

/-- A turn of the daemon, after which the other counters are what the sockets have made of them, or
    a connection. -/
inductive ControlEvent where
  | turn (i : Input) (others : OtherStatistics)
  | command (recv : Option (List U8))
  deriving DecidableEq, Repr

def Control.step (c : Control) : ControlEvent → Option (Control × Option (List U8))
  | .turn i others => some ({ c with data := Meshias.step c.data i, others }, none)
  | .command recv => c.commInterfaceReceivePackets recv

/-- The state at the end and the replies on the way. -/
def controlRun (c : Control) : List ControlEvent → Option (Control × List (List U8))
  | [] => some (c, [])
  | e :: es => do
    let (c, reply) ← c.step e
    let (c, replies) ← controlRun c es
    return (c, reply.toList ++ replies)

namespace ControlEvent

def asks : ControlEvent → Option ControlRequest
  | .turn _ _ => none
  | .command recv => recv.bind fun bytes => requestOf (bytes.takeWhile (· ≠ 0))

/-- Something is written outside of `buffer` or of `stats_buf`: the message fills `buffer`, or is not
    there at all, or the routes do not fit. -/
def Overruns (c : Control) : ControlEvent → Prop
  | .turn _ _ => False
  | .command none => True
  | .command (some bytes) => 128 ≤ bytes.length ∨
    requestOf (bytes.takeWhile (· ≠ 0)) = some .showRoutes ∧
      stats_size ≤ (routesText c.data.routing_table).length

/-- The inputs that the daemon gets from turns, without those that clean the statistics. -/
def turnInput : ControlEvent → Option Input
  | .turn i _ => if i.event = .cleanStatistics then none else some i
  | .command _ => none

end ControlEvent

variable {c c' : Control} {e : ControlEvent} {es : List ControlEvent}
  {reply : Option (List U8)} {replies : List (List U8)}

theorem Control.serve_eq_none_iff (c : Control) (r : ControlRequest) :
    c.serve r = none ↔ r = .showRoutes ∧ stats_size ≤ (routesText c.data.routing_table).length := by
  cases r with
  | kill => simp [serve]
  | restart => simp [serve]
  | showStatistics => simp [serve]
  | cleanStatistics => simp [serve]
  | showRoutes =>
    rw [serve]
    split
    · rename_i hfit
      simp [Nat.not_le.2 hfit]
    · rename_i hover
      simp [Nat.not_lt.1 hover]

theorem Control.step_eq_none_iff (c : Control) (e : ControlEvent) :
    c.step e = none ↔ e.Overruns c := by
  cases e with
  | turn i others => simp [Control.step, ControlEvent.Overruns]
  | command recv =>
    cases recv with
    | none => simp [Control.step, Control.commInterfaceReceivePackets, ControlEvent.Overruns]
    | some bytes =>
      change (if bytes.length < 128 then
        c.commInterfaceProcessCommand (bytes.takeWhile (· ≠ 0)) else none) = none ↔ _
      rw [ControlEvent.Overruns, commInterfaceProcessCommand_eq]
      by_cases hlong : bytes.length < 128
      · rw [if_pos hlong, or_iff_right (Nat.not_le.2 hlong)]
        cases requestOf (bytes.takeWhile (· ≠ 0)) with
        | none => simp
        | some r => simp [Control.serve_eq_none_iff]
      · rw [if_neg hlong]
        exact iff_of_true rfl (.inl (Nat.not_lt.1 hlong))

/-- A request changes `data.end` or the statistics. -/
theorem Control.serve_some {r : ControlRequest} {out : List U8} (h : c.serve r = some (c', out)) :
    (c'.ended = true ↔ c.ended = true ∨ r = .kill) ∧
      c'.data = if r = .cleanStatistics then { c.data with stats := {} } else c.data := by
  cases r with
  | kill =>
    cases h
    simp
  | restart =>
    cases h
    simp
  | showRoutes =>
    rw [serve] at h
    split at h
    · cases h
      simp
    · cases h
  | showStatistics =>
    cases h
    simp
  | cleanStatistics =>
    cases h
    simp [statsReset]

/-- **One event**: the daemon takes its turn, or its statistics are cleaned, or nothing happens to
    it. -/
theorem Control.step_some (h : c.step e = some (c', reply)) :
    (c'.ended = true ↔ c.ended = true ∨ e.asks = some .kill) ∧
      ((∃ i, c'.data = Meshias.step c.data i ∧
          (if i.event = .cleanStatistics then none else some i) = e.turnInput) ∨
        c'.data = c.data ∧ e.turnInput = none) := by
  cases e with
  | turn i others =>
    cases h
    exact ⟨by simp [ControlEvent.asks], .inl ⟨i, rfl, rfl⟩⟩
  | command recv =>
    cases recv with
    | none => cases h
    | some bytes =>
      change (if bytes.length < 128 then
        c.commInterfaceProcessCommand (bytes.takeWhile (· ≠ 0)) else none) = some (c', reply) at h
      split at h
      · rw [commInterfaceProcessCommand_eq] at h
        rw [ControlEvent.asks, Option.bind_some]
        cases hreq : requestOf (bytes.takeWhile (· ≠ 0)) with
        | none =>
          rw [hreq] at h
          cases h
          exact ⟨by simp, .inr ⟨rfl, rfl⟩⟩
        | some r =>
          rw [hreq] at h
          obtain ⟨x, hserve, hx⟩ := Option.map_eq_some_iff.1 h
          cases hx
          obtain ⟨hended, hdata⟩ := Control.serve_some hserve
          refine ⟨by rw [hended, Option.some.injEq], ?_⟩
          by_cases hclean : r = .cleanStatistics
          · -- the daemon does it at the time it is
            rw [if_pos hclean] at hdata
            exact .inl ⟨⟨c.data.os.now, c.data.os.refusals, c.data.os.freed, .cleanStatistics⟩, hdata, rfl⟩
          · rw [if_neg hclean] at hdata
            exact .inr ⟨hdata, rfl⟩
      · cases h

/-- **Commands keep the daemon in its runs.**  Where turns and connections in any order lead without
    a write outside of a buffer, the turns alone lead, up to moments at which the statistics are
    cleaned; and `data.end` is set exactly by a command that begins with `kill`. -/
theorem controlRun_refines (h : controlRun c es = some (c', replies)) :
    (∃ is, c'.data = Machine.run step c.data is ∧
      is.filter (fun i => i.event ≠ .cleanStatistics) = es.filterMap ControlEvent.turnInput) ∧
    (c'.ended = true ↔ c.ended = true ∨ ∃ e ∈ es, e.asks = some .kill) := by
  induction es generalizing c replies with
  | nil =>
    cases h
    exact ⟨⟨[], rfl, rfl⟩, by simp⟩
  | cons e es ih =>
    obtain ⟨⟨c₁, reply⟩, hstep, hrest⟩ := Option.bind_eq_some_iff.1 h
    obtain ⟨⟨c₂, replies'⟩, hrun, hout⟩ := Option.bind_eq_some_iff.1 hrest
    cases hout
    obtain ⟨hended, hdata⟩ := Control.step_some hstep
    obtain ⟨⟨is, hdata', hturns⟩, hended'⟩ := ih hrun
    refine ⟨?_, ?_⟩
    · rcases hdata with ⟨i, hi, hturn⟩ | ⟨hsame, hturn⟩
      · refine ⟨i :: is, by rw [Machine.run_cons, ← hi, hdata'], ?_⟩
        rw [List.filter_cons, List.filterMap_cons, ← hturn, hturns]
        by_cases hclean : i.event = .cleanStatistics
        · simp [hclean]
        · simp [hclean]
      · exact ⟨is, by rw [hdata', hsame], by rw [List.filterMap_cons, hturn, hturns]⟩
    · rw [hended', hended, List.exists_mem_cons_iff, or_assoc]

/-- A turn, and then `kill` from a client. -/
def killed : List ControlEvent := [.turn ⟨0, [], [], .alarms⟩ {}, .command (some (text "kill"))]

theorem controlRun_refines_killed :
    ∃ x ∈ controlRun ⟨mshDataInit 1 255 0, false, {}⟩ killed, x.1.ended = true ∧
      ∃ is, x.1.data = Machine.run step (mshDataInit 1 255 0) is := by
  have hsome : (controlRun ⟨mshDataInit 1 255 0, false, {}⟩ killed).isSome = true := by
    decide +kernel
  obtain ⟨x, hx⟩ := Option.isSome_iff_exists.1 hsome
  obtain ⟨⟨is, hdata, -⟩, hended⟩ := controlRun_refines hx
  have hkill : ∃ e ∈ killed, e.asks = some .kill := by decide
  exact ⟨x, hx, hended.2 (.inr hkill), is, hdata⟩

/-- **When no connection writes outside a buffer**: exactly if none overruns one in the state that it
    meets. -/
theorem controlRun_isSome_iff (c : Control) (es : List ControlEvent) :
    (controlRun c es).isSome = true ↔
      ∀ pre e post, es = pre ++ e :: post → ∀ x ∈ controlRun c pre, ¬ e.Overruns x.1 := by
  induction es generalizing c with
  | nil =>
    refine iff_of_true rfl fun pre e post hes => ?_
    cases pre <;> cases hes
  | cons e es ih =>
    cases hstep : c.step e with
    | none =>
      have hover := (Control.step_eq_none_iff c e).1 hstep
      rw [controlRun, hstep]
      refine iff_of_false (by simp) fun hall => ?_
      exact hall [] e es rfl (c, []) rfl hover
    | some x =>
      have hsome : ∀ es', controlRun c (e :: es') =
          (controlRun x.1 es').map fun y => (y.1, x.2.toList ++ y.2) := by
        intro es'
        obtain ⟨c₁, reply⟩ := x
        rw [controlRun, hstep, Option.bind_eq_bind, Option.bind_some]
        dsimp only
        cases controlRun c₁ es' with
        | none => rfl
        | some y => rfl
      rw [hsome, Option.isSome_map, ih]
      constructor
      · intro hall pre e' post hes y hy
        cases pre with
        | nil =>
          obtain ⟨rfl, -⟩ := List.cons.inj hes
          cases hy
          rw [← Control.step_eq_none_iff, hstep]
          exact Option.some_ne_none x
        | cons e'' pre =>
          obtain ⟨rfl, htail⟩ := List.cons.inj hes
          rw [hsome] at hy
          obtain ⟨z, hz, rfl⟩ := Option.map_eq_some_iff.1 hy
          exact hall pre e' post htail z hz
      · intro hall pre e' post hes y hy
        refine hall (e :: pre) e' post (by rw [hes]; rfl) (y.1, x.2.toList ++ y.2) ?_
        rw [hsome, Option.mem_def.1 hy]
        rfl

end Meshias
