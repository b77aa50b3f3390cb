import Meshias.Route
import Meshias.Lib.CString

/-!
# The control socket

`communication_interface.c`: the list of the routes, and how a reply is sent.

* `getRoutes` — `routing_table_foreach` with `add_route_cb`, on the memory of the buffer.
* `ListsInside`, `Fits` — a string is left that begins the list, and when.
* `sendMsg` — the calls of `send`, with what the socket takes of each.
* `SentExactly`, `WholeChunks` — the reply goes out once and alone, and when.

Principal results: `listsInside_iff`, `sentExactly_iff`.
-/

set_option autoImplicit false

namespace Meshias

open CString (ascii decimal snprintf)

/-! ## The list of the routes -/

/-- `"%d#%d#%d#%d#%d#%d#%d\n"`; the conversion takes an `uint32_t` for an `int`. -/
def routeText (route : MshRoute) : List U8 :=
  decimal route.dst_ip.toInt ++ [ascii '#'] ++
  decimal route.prefix_sz.toNat ++ [ascii '#'] ++
  decimal route.dest_seq_num.toInt ++ [ascii '#'] ++
  decimal route.flags.toNat ++ [ascii '#'] ++
  decimal route.hop_count.toNat ++ [ascii '#'] ++
  decimal route.next_hop.toInt ++ [ascii '#'] ++
  decimal route.net_iface.toInt ++ [ascii '\n']

/-- The memory after `snprintf`, and the length of the text, whether it was cut off or not. -/
def CommInterface.addRoute (route : MshRoute) (buf : List U8) (off bufsize : Nat) :
    Option (List U8 × Nat) :=
  (snprintf buf off bufsize (routeText route)).map (fun buf => (buf, (routeText route).length))

/-- `struct route_data`, with the memory that `buf` points to. -/
structure RouteData where
  number : Nat
  size : Nat
  buf : List U8
  deriving DecidableEq, Repr

def addRouteCb (rd : RouteData) (msh_r : MshRoute) : Option RouteData := do
  let (buf, ret) ← CommInterface.addRoute msh_r rd.buf rd.number rd.size
  return { rd with number := rd.number + ret, buf }

/-- `routing_table_foreach`; `none` as soon as the callback leaves its memory. -/
def routingTableForeach {σ : Type} (table : List MshRoute) (callback : σ → MshRoute → Option σ)
    (data : σ) : Option σ := table.foldlM callback data

def getRoutes (table : List MshRoute) (buf : List U8) (bufsize : Nat) : Option (List U8) :=
  (routingTableForeach table addRouteCb ⟨0, bufsize, buf⟩).map (·.buf)

/-- The formatted entries of a table. -/
def routesText (table : List MshRoute) : List U8 := table.flatMap routeText

/-- Nothing is written outside the buffer, and its string is a prefix of the list. -/
def ListsInside (table : List MshRoute) (buf : List U8) : Prop :=
  ∃ out ∈ getRoutes table buf buf.length, ∃ text ∈ CString.string out, text <+: routesText table

/-- There is a byte for the NUL, which stands there already if the table is empty, and a list of
    two entries or more is shorter than the buffer. -/
structure Fits (table : List MshRoute) (buf : List U8) : Prop where
  nonempty : buf ≠ []
  terminated : table = [] → buf.head? = some 0
  room : table.length ≤ 1 ∨ (routesText table).length < buf.length

/-! ## One entry -/

theorem length_routeText (route : MshRoute) : 14 ≤ (routeText route).length := by
  have hpos := fun n : Int => CString.length_decimal_pos n
  have h1 := hpos route.dst_ip.toInt
  have h2 := hpos route.prefix_sz.toNat
  have h3 := hpos route.dest_seq_num.toInt
  have h4 := hpos route.flags.toNat
  have h5 := hpos route.hop_count.toNat
  have h6 := hpos route.next_hop.toInt
  have h7 := hpos route.net_iface.toInt
  simp only [routeText, List.length_append, List.length_singleton]
  omega

theorem zero_notMem_routeText (route : MshRoute) : 0 ∉ routeText route := by
  have hhash : (0 : U8) ∉ [ascii '#'] := by decide
  have hline : (0 : U8) ∉ [ascii '\n'] := by decide
  simp only [routeText, List.mem_append, CString.zero_notMem_decimal, hhash, hline, or_self,
    not_false_eq_true]

theorem zero_notMem_routesText (table : List MshRoute) : 0 ∉ routesText table := by
  intro h0
  obtain ⟨route, -, hmem⟩ := List.mem_flatMap.1 h0
  exact zero_notMem_routeText route hmem

/-- The text written so far is at the start of the buffer, and `number` stands behind it. -/
structure Holds (rd : RouteData) (text : List U8) : Prop where
  size_eq : rd.size = rd.buf.length
  number_eq : rd.number = text.length
  written : text <+: rd.buf

theorem addRouteCb_eq (rd : RouteData) (route : MshRoute) :
    addRouteCb rd route = (snprintf rd.buf rd.number rd.size (routeText route)).map
      (fun buf => { rd with number := rd.number + (routeText route).length, buf }) := by
  unfold addRouteCb CommInterface.addRoute
  cases snprintf rd.buf rd.number rd.size (routeText route) <;> rfl

/-- What every call keeps. -/
theorem addRouteCb_some {rd rd' : RouteData} {route : MshRoute}
    (h : addRouteCb rd route = some rd') :
    rd'.number = rd.number + (routeText route).length ∧ rd'.size = rd.size ∧
      rd'.buf.length = rd.buf.length := by
  rw [addRouteCb_eq, Option.map_eq_some_iff] at h
  obtain ⟨buf, hwrite, rfl⟩ := h
  exact ⟨rfl, rfl, CString.length_snprintf hwrite⟩

/-- **An entry that fits** goes behind the text, with a NUL behind it. -/
theorem addRouteCb_fits {rd : RouteData} {text : List U8} (h : Holds rd text) {route : MshRoute}
    (hfit : text.length + (routeText route).length < rd.buf.length) :
    ∃ rd', addRouteCb rd route = some rd' ∧ Holds rd' (text ++ routeText route) ∧
      text ++ routeText route ++ [0] <+: rd'.buf := by
  obtain ⟨buf, hwrite, hprefix⟩ := CString.snprintf_fits h.written hfit
  rw [addRouteCb_eq, h.number_eq, h.size_eq, hwrite]
  refine ⟨_, rfl, ⟨(CString.length_snprintf hwrite).symm, ?_, ?_⟩, hprefix⟩
  · rw [List.length_append]
  · exact (List.prefix_append _ _).trans hprefix

/-- **An entry behind another one** that does not fit is written outside. -/
theorem addRouteCb_overruns {rd : RouteData} (hsize : rd.size = rd.buf.length)
    (hbuf : rd.buf ≠ []) (hpos : 0 < rd.number) {route : MshRoute}
    (hover : rd.buf.length ≤ rd.number + (routeText route).length) :
    addRouteCb rd route = none := by
  rw [addRouteCb_eq, hsize, CString.snprintf_overruns hbuf hpos hover]
  rfl

/-! ## The whole table -/

theorem routesText_cons (route : MshRoute) (table : List MshRoute) :
    routesText (route :: table) = routeText route ++ routesText table := List.flatMap_cons

theorem foreach_length {table : List MshRoute} {rd rd' : RouteData}
    (h : routingTableForeach table addRouteCb rd = some rd') : rd'.buf.length = rd.buf.length := by
  induction table generalizing rd with
  | nil => cases h; rfl
  | cons route table ih =>
    rw [routingTableForeach, List.foldlM_cons] at h
    obtain ⟨rd₁, hfirst, hrest⟩ := Option.bind_eq_some_iff.1 h
    exact (ih hrest).trans (addRouteCb_some hfirst).2.2

theorem foreach_fits {table : List MshRoute} {rd : RouteData} {text : List U8} (h : Holds rd text)
    (hfit : text.length + (routesText table).length < rd.buf.length) :
    ∃ rd', routingTableForeach table addRouteCb rd = some rd' ∧
      (table ≠ [] → text ++ routesText table ++ [0] <+: rd'.buf) := by
  induction table generalizing rd text with
  | nil => exact ⟨rd, rfl, fun hne => absurd rfl hne⟩
  | cons route table ih =>
    rw [routesText_cons, List.length_append] at hfit
    have hfirstfit : text.length + (routeText route).length < rd.buf.length := by omega
    obtain ⟨rd₁, hfirst, hholds, hnul⟩ := addRouteCb_fits h hfirstfit
    obtain ⟨-, -, hlength⟩ := addRouteCb_some hfirst
    obtain ⟨rd', hrest, hwritten⟩ := ih hholds (by rw [List.length_append]; omega)
    refine ⟨rd', ?_, fun _ => ?_⟩
    · rw [routingTableForeach, List.foldlM_cons, hfirst]
      exact hrest
    · rw [routesText_cons, ← List.append_assoc]
      cases table with
      | nil =>
        -- the last entry: its NUL stays
        cases hrest
        rwa [routesText, List.flatMap_nil, List.append_nil]
      | cons next table => exact hwritten (List.cons_ne_nil _ _)

/-- The size is never reduced: a list that is too long for the buffer runs over its end. -/
theorem foreach_overruns {table : List MshRoute} {rd : RouteData} (hsize : rd.size = rd.buf.length)
    (hbuf : rd.buf ≠ []) (hpos : 0 < rd.number) (htable : table ≠ [])
    (hover : rd.buf.length ≤ rd.number + (routesText table).length) :
    routingTableForeach table addRouteCb rd = none := by
  induction table generalizing rd with
  | nil => exact absurd rfl htable
  | cons route table ih =>
    rw [routesText_cons, List.length_append] at hover
    rw [routingTableForeach, List.foldlM_cons]
    cases hfirst : addRouteCb rd route with
    | none => rfl
    | some rd₁ =>
      obtain ⟨hnumber, hsize₁, hlength⟩ := addRouteCb_some hfirst
      have hstill : rd.number + (routeText route).length < rd.buf.length := by
        by_contra hge
        rw [addRouteCb_overruns hsize hbuf hpos (Nat.not_lt.1 hge)] at hfirst
        cases hfirst
      have hrest : table ≠ [] := by
        rintro rfl
        rw [routesText, List.flatMap_nil, List.length_nil] at hover
        omega
      have hbuf₁ : rd₁.buf ≠ [] := by
        rw [← List.length_pos_iff, hlength]
        exact List.length_pos_iff.2 hbuf
      exact ih (by omega) hbuf₁ (by omega) hrest (by omega)

theorem getRoutes_nil (buf : List U8) (bufsize : Nat) : getRoutes [] buf bufsize = some buf := rfl

theorem listsInside_nil_iff (buf : List U8) : ListsInside [] buf ↔ buf.head? = some 0 := by
  rw [← CString.string_eq_nil_iff]
  constructor
  · rintro ⟨out, hout, text, htext, hprefix⟩
    rw [Option.mem_def, getRoutes_nil, Option.some.injEq] at hout
    rw [hout, Option.mem_def.1 htext, List.prefix_nil.1 hprefix]
  · intro hstring
    exact ⟨buf, rfl, [], hstring, List.nil_prefix⟩

/-- One entry is cut off at the end of the buffer. -/
theorem listsInside_singleton (route : MshRoute) {buf : List U8} (hbuf : buf ≠ []) :
    ListsInside [route] buf := by
  obtain ⟨out, hwrite, hprefix⟩ := CString.snprintf_cut hbuf (routeText route)
  have htext : routesText [route] = routeText route := List.flatMap_singleton _ _
  have hkept : (routeText route).take (buf.length - 1) <+: routeText route := List.take_prefix _ _
  have hfree : 0 ∉ (routeText route).take (buf.length - 1) :=
    fun h0 => zero_notMem_routeText route (hkept.subset h0)
  have hcb : addRouteCb ⟨0, buf.length, buf⟩ route =
      some ⟨0 + (routeText route).length, buf.length, out⟩ := by
    rw [addRouteCb_eq]
    exact congrArg (Option.map _) hwrite
  refine ⟨out, ?_, _, CString.string_of_prefix hfree hprefix,
    htext.symm ▸ hkept⟩
  rw [Option.mem_def, getRoutes, routingTableForeach, List.foldlM_cons, hcb]
  rfl

theorem listsInside_of_room {table : List MshRoute} {buf : List U8} (htable : table ≠ [])
    (hfit : (routesText table).length < buf.length) : ListsInside table buf := by
  have hholds : Holds ⟨0, buf.length, buf⟩ [] := ⟨rfl, rfl, List.nil_prefix⟩
  have hlength : ([] : List U8).length + (routesText table).length < buf.length := by
    rwa [List.length_nil, Nat.zero_add]
  obtain ⟨rd, hrun, hwritten⟩ := foreach_fits hholds hlength
  refine ⟨rd.buf, by rw [getRoutes, hrun]; rfl, routesText table, ?_, List.prefix_refl _⟩
  exact CString.string_of_prefix (zero_notMem_routesText table) (hwritten htable)

/-- Two entries or more. -/
theorem getRoutes_overruns {first second : MshRoute} {rest : List MshRoute} {buf : List U8}
    (hbuf : buf ≠ []) (hover : buf.length ≤ (routesText (first :: second :: rest)).length) :
    getRoutes (first :: second :: rest) buf buf.length = none := by
  have hfirst := length_routeText first
  rw [routesText_cons, List.length_append] at hover
  rw [getRoutes, routingTableForeach, List.foldlM_cons]
  cases hwrite : addRouteCb ⟨0, buf.length, buf⟩ first with
  | none => rfl
  | some rd =>
    obtain ⟨hnumber, hsize, hlength⟩ := addRouteCb_some hwrite
    dsimp only at hnumber hsize hlength
    have hrd : rd.buf ≠ [] := by
      rw [← List.length_pos_iff, hlength]
      exact List.length_pos_iff.2 hbuf
    have hrest := foreach_overruns (by omega) hrd (by omega) (List.cons_ne_nil second rest)
      (by omega)
    exact congrArg (Option.map (·.buf)) hrest

theorem not_listsInside_empty (table : List MshRoute) : ¬ ListsInside table [] := by
  rintro ⟨out, hout, text, htext, -⟩
  obtain ⟨rd, hrun, rfl⟩ := Option.map_eq_some_iff.1 (Option.mem_def.1 hout)
  rw [List.eq_nil_of_length_eq_zero (foreach_length hrun), CString.string_nil] at htext
  cases htext

/-- **The list stays inside the buffer**, and is a string there, exactly if it fits. -/
theorem listsInside_iff (table : List MshRoute) (buf : List U8) :
    ListsInside table buf ↔ Fits table buf := by
  constructor
  · intro hinside
    have hbuf : buf ≠ [] := fun hnil => not_listsInside_empty table (hnil ▸ hinside)
    refine ⟨hbuf, fun hnil => (listsInside_nil_iff buf).1 (hnil ▸ hinside), ?_⟩
    match table with
    | [] => exact .inl (Nat.zero_le 1)
    | [route] => exact .inl (Nat.le_refl 1)
    | first :: second :: rest =>
      refine .inr (Nat.not_le.1 fun hover => ?_)
      obtain ⟨out, hout, -⟩ := hinside
      rw [getRoutes_overruns hbuf hover] at hout
      cases hout
  · rintro ⟨hbuf, hterminated, hroom⟩
    match table with
    | [] => exact (listsInside_nil_iff buf).2 (hterminated rfl)
    | [route] => exact listsInside_singleton route hbuf
    | first :: second :: rest =>
      have hlength : ¬ (first :: second :: rest).length ≤ 1 := by
        rw [List.length_cons, List.length_cons]
        omega
      exact listsInside_of_room (List.cons_ne_nil _ _) (hroom.resolve_left hlength)

theorem length_routesText (table : List MshRoute) :
    14 * table.length ≤ (routesText table).length := by
  induction table with
  | nil => exact Nat.le_refl 0
  | cons route table ih =>
    have hfirst := length_routeText route
    rw [routesText_cons, List.length_append, List.length_cons]
    omega

/-- Routes to 358 hosts; `stats_buf` has 5000 bytes. -/
def manyRoutes : List MshRoute :=
  (List.range 358).map (fun k => { self := k, dst_ip := BitVec.ofNat 32 (0x0A000100 + k) })

/-- **A list of 358 routes is written over the end of the buffer.** -/
theorem many_routes_overrun :
    ¬ ∀ (table : List MshRoute) (buf : List U8), ListsInside table buf := by
  intro hall
  obtain ⟨first, second, rest, hmany⟩ :
      ∃ first second rest, manyRoutes = first :: second :: rest := ⟨_, _, _, rfl⟩
  have hlong := length_routesText manyRoutes
  have hcount : manyRoutes.length = 358 := by rw [manyRoutes, List.length_map, List.length_range]
  have hsize : (List.replicate 5000 (0 : U8)).length = 5000 := List.length_replicate
  have hbuf : List.replicate 5000 (0 : U8) ≠ [] := by
    rw [← List.length_pos_iff, hsize]
    decide
  obtain ⟨out, hout, -⟩ := hall manyRoutes (List.replicate 5000 0)
  rw [hmany] at hlong hout hcount
  rw [getRoutes_overruns hbuf (by omega)] at hout
  cases hout

/-! ## Sending a reply -/

/-- A socket: of the calls of `send`, in order, how much it takes of what is offered. -/
structure Socket where
  took : Nat → Nat → Nat
  took_pos : ∀ k offered, 0 < offered → 0 < took k offered
  took_le : ∀ k offered, took k offered ≤ offered

/-- `send(sock, buf + offset, count, 0)`, which returned `taken`. -/
structure SendCall where
  offset : Nat
  count : Nat
  taken : Nat
  deriving DecidableEq, Repr

/-- The loop of `send_msg` from its call number `k` on.  The last call has the count of the others,
    and what a call returns is not looked at. -/
def sendMsgFrom (sock : Socket) (size sended k : Nat) : List SendCall :=
  if sended < size then
    ⟨sended, 1024, sock.took k 1024⟩ :: sendMsgFrom sock size (sended + 1024) (k + 1)
  else []
termination_by size - sended
decreasing_by exact Nat.sub_lt_sub_left ‹_› (Nat.lt_add_of_pos_right (Nat.zero_lt_succ _))

def sendMsg (sock : Socket) (size : Nat) : List SendCall := sendMsgFrom sock size 0 0

/-- What the socket took of a call, from the memory behind `buf`. -/
def SendCall.bytes (mem : Nat → U8) (call : SendCall) : List U8 :=
  (List.range call.taken).map (fun i => mem (call.offset + i))

/-- Only bytes of the reply are offered, and the socket takes the reply. -/
structure SentExactly (mem : Nat → U8) (size : Nat) (sock : Socket) : Prop where
  inside : ∀ call ∈ sendMsg sock size, call.offset + call.count ≤ size
  taken_eq : (sendMsg sock size).flatMap (SendCall.bytes mem) = (List.range size).map mem

/-- The reply is a number of whole chunks, and the socket takes each of them at once. -/
structure WholeChunks (size : Nat) (sock : Socket) : Prop where
  whole : size % 1024 = 0
  taken : ∀ k < size / 1024, sock.took k 1024 = 1024

/-- **The loop**: call after call, 1024 bytes further. -/
theorem sendMsgFrom_eq (sock : Socket) (n : Nat) {size k : Nat} (hk : 1024 * (k + n) < size + 1024)
    (hn : size ≤ 1024 * (k + n)) :
    sendMsgFrom sock size (1024 * k) k =
      (List.range' k n).map (fun k => ⟨1024 * k, 1024, sock.took k 1024⟩) := by
  induction n generalizing k with
  | zero =>
    rw [sendMsgFrom, if_neg (by omega)]
    rfl
  | succ n ih =>
    rw [sendMsgFrom, if_pos (by omega), List.range'_succ, List.map_cons,
      show 1024 * k + 1024 = 1024 * (k + 1) by omega, ih (by omega) (by omega)]

theorem sendMsg_eq (sock : Socket) (size : Nat) :
    sendMsg sock size = (List.range ((size + 1023) / 1024)).map
      (fun k => ⟨1024 * k, 1024, sock.took k 1024⟩) := by
  have hlast : 1024 * (0 + (size + 1023) / 1024) < size + 1024 := by omega
  have hcover : size ≤ 1024 * (0 + (size + 1023) / 1024) := by omega
  rw [List.range_eq_range']
  exact sendMsgFrom_eq sock _ hlast hcover

theorem length_bytes (mem : Nat → U8) (call : SendCall) :
    (call.bytes mem).length = call.taken := by
  rw [SendCall.bytes, List.length_map, List.length_range]

/-- **Whole chunks put together.** -/
theorem flatMap_chunks (mem : Nat → U8) (n : Nat) :
    (List.range n).flatMap (fun k => SendCall.bytes mem ⟨1024 * k, 1024, 1024⟩) =
      (List.range (1024 * n)).map mem := by
  induction n with
  | zero => rfl
  | succ n ih =>
    rw [List.range_succ, List.flatMap_append, ih, List.flatMap_singleton, Nat.mul_succ,
      List.range_add, List.map_append, List.map_map]
    rfl

/-- Calls that take 1024 bytes each on the average take 1024 bytes each. -/
theorem full_of_sum {l : List Nat} {c : Nat} (hle : ∀ x ∈ l, x ≤ c) (hsum : l.sum = c * l.length) :
    ∀ x ∈ l, x = c := by
  induction l with
  | nil => exact fun x hx => absurd hx List.not_mem_nil
  | cons y l ih =>
    have hrest : l.sum ≤ l.length • c :=
      List.sum_le_card_nsmul l c (fun x hx => hle x (List.mem_cons_of_mem _ hx))
    have hy := hle y List.mem_cons_self
    rw [List.sum_cons, List.length_cons, Nat.mul_succ] at hsum
    rw [smul_eq_mul, Nat.mul_comm] at hrest
    intro x hx
    rcases List.mem_cons.1 hx with rfl | hx
    · omega
    · exact ih (fun x hx => hle x (List.mem_cons_of_mem _ hx)) (by omega) x hx

/-- The number of bytes that the socket takes. -/
theorem length_sent (mem : Nat → U8) (size : Nat) (sock : Socket) :
    ((sendMsg sock size).flatMap (SendCall.bytes mem)).length =
      ((List.range ((size + 1023) / 1024)).map (fun k => sock.took k 1024)).sum := by
  rw [List.length_flatMap, sendMsg_eq, List.map_map]
  simp only [Function.comp_def, length_bytes]

/-- **A reply is sent exactly** if it is made of whole chunks that the socket takes at once, and in
    no other case. -/
theorem sentExactly_iff (mem : Nat → U8) (size : Nat) (sock : Socket) :
    SentExactly mem size sock ↔ WholeChunks size sock := by
  constructor
  · rintro ⟨hinside, hexact⟩
    -- the last call stays inside, so the chunks end where the reply ends
    have hsize : size = 1024 * ((size + 1023) / 1024) := by
      by_contra hne
      have hcall : (⟨1024 * (size / 1024), 1024, sock.took (size / 1024) 1024⟩ : SendCall) ∈
          sendMsg sock size := by
        rw [sendMsg_eq]
        exact List.mem_map.2 ⟨size / 1024, List.mem_range.2 (by omega), rfl⟩
      have hend := hinside _ hcall
      dsimp only at hend
      omega
    have htook := congrArg List.length hexact
    rw [length_sent, List.length_map, List.length_range] at htook
    have hfull := full_of_sum (c := 1024)
      (fun x hx => by
        obtain ⟨k, -, rfl⟩ := List.mem_map.1 hx
        exact sock.took_le k 1024)
      (htook.trans (by rw [List.length_map, List.length_range]; exact hsize))
    refine ⟨by omega, fun k hk => hfull _ (List.mem_map.2 ⟨k, List.mem_range.2 (by omega), rfl⟩)⟩
  · rintro ⟨hwhole, htaken⟩
    have hcount : (size + 1023) / 1024 = size / 1024 := by omega
    have hcalls : sendMsg sock size =
        (List.range (size / 1024)).map (fun k => ⟨1024 * k, 1024, 1024⟩) := by
      rw [sendMsg_eq, hcount]
      exact List.map_congr_left fun k hk => by rw [htaken k (List.mem_range.1 hk)]
    constructor
    · intro call hcall
      rw [hcalls] at hcall
      obtain ⟨k, hk, rfl⟩ := List.mem_map.1 hcall
      have hlt := List.mem_range.1 hk
      dsimp only
      omega
    · rw [hcalls, List.flatMap_map, flatMap_chunks,
        Nat.mul_div_cancel' (Nat.dvd_of_mod_eq_zero hwhole)]

/-- A socket that takes all it is offered. -/
def willing : Socket := ⟨fun _ offered => offered, fun _ _ h => h, fun _ _ => Nat.le_refl _⟩

/-- **The acknowledgement of a command**, `"ACK"` with its NUL, is sent with 1020 bytes from behind
    it. -/
theorem ack_leaks :
    ¬ ∀ (mem : Nat → U8) (size : Nat) (sock : Socket), SentExactly mem size sock := by
  intro hall
  have hlength := congrArg List.length (hall (fun _ => 0) 4 willing).taken_eq
  rw [length_sent, List.length_map, List.length_range] at hlength
  revert hlength
  decide

end Meshias
