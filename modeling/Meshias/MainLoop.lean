import Meshias.LocalTurns

/-!
# The main loop

The two loops of `main` in `meshias.c`, with the callbacks of the daemon: `select` waits for input until
the next alarm is due, and then either the input is handled or the alarms are processed.

* `Readable` — what is behind a descriptor that is readable, and what it makes of the daemon.
* `MainLoop` — the daemon in memory, the variable `next`, and whether `next_run` points to it.
* `MainEvent` — `select` finds something to read, or gives up; with what the clock shows after it.
* `mainTurn` — what an event does to the state of the daemon.
* `MainLoop.Waits` — the wait that `select` is called with ends no later than the first alarm.

Principal result: `mainLoop_never_oversleeps` — in every run in which no request is given up, the memory
shows the state of the daemon, an idle moment with an alarm that is due is a run of the alarms, and
whenever `select` is called it waits no longer than until the first alarm.
-/

set_option autoImplicit false

namespace Meshias

open Machine (run)
open RedBlack

/-! ## The loops -/

/-- `entry` is what `calloc` returns if a request is buffered; `writes` is what a message makes of the
    memory.  Of the commands only the one that cleans the statistics changes the state. -/
inductive Readable where
  | nfqueueReceivePacket (now : Nat) (nfa : NfqData) (entry : Ptr)
  | aodvSocketReceivePacket (now : Nat) (refusals : List Bool) (msg : Msghdr)
    (writes : Layout → RreqMem → Option (Layout × RreqMem))
  | commInterfaceReceivePackets (now : Nat)

namespace Readable

def input : Readable → Input
  | nfqueueReceivePacket now nfa entry => LocalTurn.input ⟨now, .packet nfa entry⟩
  | aodvSocketReceivePacket now refusals msg _ => ⟨now, refusals, [], .datagram msg⟩
  | commInterfaceReceivePackets now => ⟨now, [], [], .cleanStatistics⟩

/-- What happens to the memory. -/
def call (fuel : Nat) (h : Readable) (L : Layout) (s : MshData) (m : RreqMem) :
    Option (Layout × RreqMem) :=
  match h with
  | nfqueueReceivePacket _ nfa entry => L.managePacket fuel entry (s.arrive h.input) nfa m
  | aodvSocketReceivePacket _ _ _ writes => writes L m
  | commInterfaceReceivePackets _ => some (L, m)

end Readable

structure MainLoop where
  layout : Layout
  mem : RreqMem
  state : MshData
  next : Timeval
  next_run : Bool

/-- `select` leaves in `next` what is left of the wait; `now` is what `get_next_alarm_run` reads after
    it, `began` and `later` are what `do_alarm_run` reads before and after the callbacks. -/
inductive MainEvent where
  | ready (left : Timeval) (handlers : List Readable) (now : Nat)
  | idle (left : Timeval) (now began later : Nat)

/-- The alarms run. -/
def alarmsAt (now : Nat) : Input := ⟨now, [], [], .alarms⟩

namespace MainLoop

variable (fuel rounds : Nat)

/-- What `select` is called with. -/
def timeout (l : MainLoop) : Option Timeval := if l.next_run then some l.next else none

def select (left : Timeval) (l : MainLoop) : MainLoop :=
  if l.next_run then { l with next := left } else l

def handle (h : Readable) (l : MainLoop) : Option MainLoop := do
  let (layout, mem) ← h.call fuel l.layout l.state l.mem
  return { l with layout, mem, state := step l.state h.input }

def handleAll : List Readable → MainLoop → Option MainLoop
  | [], l => some l
  | h :: handlers, l => (l.handle fuel h).bind (handleAll handlers)

/-- `next_run = get_next_alarm_run(&next)`, which writes to `next` if it does not return null. -/
def getNext (now : Nat) (l : MainLoop) : Option MainLoop := do
  let r ← l.mem.alarms.getNextAlarmRun fuel (timevalOf now)
  return { l with next := r.getD l.next, next_run := r.isSome }

/-- `do_alarm_run(&next)`; the clock is read again after the callbacks. -/
def doAlarmRun (later : Nat) (l : MainLoop) : Option MainLoop := do
  let (state, mem) ← l.layout.doAlarmRun fuel rounds l.state l.mem
  let r ← mem.alarms.getNextAlarmRun fuel (timevalOf later)
  return { l with state, mem, next := r.getD l.next }

/-- `process_alarms(&next)`, whose result is not used. -/
def processAlarms (later : Nat) (l : MainLoop) : Option MainLoop :=
  if timerisset l.next then some l else l.doAlarmRun fuel rounds later

/-- From one call of `select` to the next one. -/
def step (l : MainLoop) : MainEvent → Option MainLoop
  | .ready left handlers now => do
    let l ← (l.select left).handleAll fuel handlers
    l.getNext fuel now
  | .idle left now began later => do
    let l ← (l.select left).getNext fuel now
    { l with state := l.state.arrive (alarmsAt began) }.processAlarms fuel rounds later

def steps : List MainEvent → MainLoop → Option MainLoop
  | [], l => some l
  | e :: es, l => (l.step fuel rounds e).bind (steps es)

end MainLoop

/-! ## What a run does to the daemon -/

/-- Some alarm is due. -/
def MshData.Due (s : MshData) (now : Nat) : Prop := ∃ a ∈ alarmTree s, a.tv ≤ now

instance (s : MshData) (now : Nat) : Decidable (s.Due now) :=
  inferInstanceAs (Decidable (∃ a ∈ alarmTree s, a.tv ≤ now))

/-- What an event does to the state, and the last reading of the clock: in an idle moment the alarms run
    if one is due. -/
def mainTurn (c : MshData × Nat) : MainEvent → MshData × Nat
  | .ready _ handlers now => (run step c.1 (handlers.map Readable.input), now)
  | .idle _ now began later =>
    if c.1.Due now then (step c.1 (alarmsAt began), later) else (c.1.arrive (alarmsAt began), now)

/-- What `select` is called with: with no alarm pending, anything; else a wait that ends no later
    than the time of the first one, counted from the last reading of the clock. -/
def MainLoop.Waits (l : MainLoop) (read : Nat) : Prop :=
  ∀ a ∈ alarmTree l.state, ∃ tv, l.timeout = some tv ∧ tv.Normal ∧
    tv.micros ≤ max ((a.tv : Int) - read) 0

/-- At most `n` objects have an alarm, and all alarms are set for times that a `struct timeval` can
    show. -/
structure MshData.Fits (n : Nat) (s : MshData) : Prop where
  few : (alarmOwners s).length ≤ n
  times : ∀ a ∈ alarmTree s, (a.tv : Int) < LONG_MAX * 1000000

/-- `calloc` returns the address of no object that exists, and what a message does to the state it does
    in memory. -/
def Readable.Meets (fuel : Nat) (h : Readable) (l : MainLoop) : Prop :=
  match h with
  | nfqueueReceivePacket now nfa entry =>
    l.layout.FreshTurn fuel ⟨now, .packet nfa entry⟩ l.state l.mem
  | aodvSocketReceivePacket _ _ _ writes => ∃ layout mem, writes l.layout l.mem = some (layout, mem) ∧
    layout.Shows mem (step l.state h.input)
  | commInterfaceReceivePackets _ => True

def HandlersMeet (fuel n : Nat) : List Readable → MainLoop → Prop
  | [], l => l.state.Fits n
  | h :: handlers, l => l.state.Fits n ∧ h.Meets fuel l ∧
    ∀ l', l.handle fuel h = some l' → HandlersMeet fuel n handlers l'

/-- No request is given up. -/
def MainEvent.Meets (fuel n : Nat) (l : MainLoop) : MainEvent → Prop
  | .ready left handlers _ => HandlersMeet fuel n handlers (l.select left)
  | .idle _ now began _ => l.state.Due now →
    givenUp l.state (alarmsAt began) = [] ∧ (step l.state (alarmsAt began)).Fits n

def MainRun (fuel rounds n : Nat) : List MainEvent → MainLoop → Prop
  | [], _ => True
  | e :: es, l => e.Meets fuel n l ∧
    ∀ l', l.step fuel rounds e = some l' → MainRun fuel rounds n es l'

/-! ## The next alarm -/

section NextAlarm

variable {L : Layout} {m : RreqMem} {s : MshData} {n fuel now : Nat} {r : Option Timeval}

/-- What `get_next_alarm_run` returns: no time, or the time to the first alarm. -/
structure NextRun (s : MshData) (now : Nat) (r : Option Timeval) : Prop where
  none_iff : r = none ↔ alarmTree s = []
  normal : ∀ tv ∈ r, tv.Normal
  first : ∀ tv ∈ r, ∀ a ∈ alarmTree s, tv.micros ≤ max ((a.tv : Int) - now) 0
  exact : ∀ tv ∈ r, ∃ a ∈ alarmTree s, tv.micros = max ((a.tv : Int) - now) 0

/-- **`get_next_alarm_run`**, by the alarms of the state. -/
theorem Layout.Shows.getNextAlarmRun (h : L.Shows m s) (hfits : s.Fits n)
    (hfuel : depthBound n ≤ fuel) (now : Nat) :
    ∃ r, m.alarms.getNextAlarmRun fuel (timevalOf now) = some r ∧ NextRun s now r := by
  obtain ⟨T, htable, hlink⟩ := h.alarms.table
  have hdepth := depthBound_mono ((length_alarmTree_le s).trans hfits.few)
  rw [← hlink.length] at hdepth
  have hmax : ∀ x ∈ T.queue.entries, x.2 < LONG_MAX * 1000000 := by
    intro x hx
    obtain ⟨a, ha, rfl⟩ := hlink.mem_entries.1 hx
    exact hfits.times a ha
  obtain ⟨r, hr, hnone, hspec⟩ :=
    getNextAlarmRun_spec htable (normal_timevalOf now) hmax (hdepth.trans hfuel)
  rw [micros_timevalOf] at hspec
  have hempty : T.queue.entries = [] ↔ alarmTree s = [] := by
    rw [← List.length_eq_zero_iff, hlink.length, List.length_eq_zero_iff]
  have hhead : ∀ tv ∈ r, ∃ x, T.queue.entries.head? = some x := by
    intro tv htv
    refine Option.ne_none_iff_exists'.1 fun hno => ?_
    rw [hnone.2 (List.head?_eq_none_iff.1 hno)] at htv
    cases htv
  refine ⟨r, hr, hnone.trans hempty, fun tv htv => (hspec tv htv).1, fun tv htv a ha => ?_,
    fun tv htv => ?_⟩
  all_goals
    obtain ⟨x, hx⟩ := hhead tv htv
    have hmicros := (hspec tv htv).2 x hx
  · have hle := Timers.Queue.head_le hx (hlink.mem_entries.2 ⟨a, ha, rfl⟩)
    omega
  · obtain ⟨a, ha, rfl⟩ := hlink.mem_entries.1 (List.mem_of_head? hx)
    exact ⟨a, ha, hmicros⟩

/-- The time is zero exactly if an alarm is due. -/
theorem NextRun.due_iff (h : NextRun s now r) {tv : Timeval} (htv : tv ∈ r) :
    timerisset tv = false ↔ s.Due now := by
  have hnormal := h.normal tv htv
  have hset : timerisset tv = false ↔ tv.micros = 0 := by
    unfold Timeval.Normal at hnormal
    simp only [timerisset, Timeval.micros, Bool.or_eq_false_iff, bne_eq_false_iff_eq]
    omega
  obtain ⟨a, ha, hexact⟩ := h.exact tv htv
  rw [hset]
  constructor
  · intro hzero
    exact ⟨a, ha, by omega⟩
  · rintro ⟨b, hb, hle⟩
    have hfirst := h.first tv htv b hb
    omega

/-- A variable that holds the time to the first alarm. -/
theorem NextRun.waits {l : MainLoop} (h : NextRun l.state now r) (hset : l.next_run = true)
    (hnext : l.next = r.getD l.next) : l.Waits now := by
  intro a ha
  obtain ⟨tv, rfl⟩ := Option.ne_none_iff_exists'.1
    fun hno => List.ne_nil_of_mem ha (h.none_iff.1 hno)
  refine ⟨tv, ?_, h.normal tv rfl, h.first tv rfl a ha⟩
  rw [MainLoop.timeout, if_pos hset, hnext]
  rfl

end NextAlarm

/-! ## Events -/

/-- The loop keeps the daemon in memory, and waits for its alarms. -/
structure MainLoop.Keeps (n : Nat) (l : MainLoop) (c : MshData × Nat) : Prop where
  state : l.state = c.1
  wf : Wf l.state
  shows : l.layout.Shows l.mem l.state
  fits : l.state.Fits n
  waits : l.Waits c.2

section Events

variable {l : MainLoop} {n fuel rounds : Nat} {c : MshData × Nat} {e : MainEvent}

theorem enough_of_fits (hfits : l.state.Fits n) (hfuel : depthBound n + 1 < fuel) :
    depthBound (alarmOwners l.state).length + 1 < fuel := by
  have hdepth := depthBound_mono hfits.few
  omega

/-- **One readable descriptor.** -/
theorem handle_spec {h : Readable} (hwf : Wf l.state) (hshows : l.layout.Shows l.mem l.state)
    (hfits : l.state.Fits n) (hmeets : h.Meets fuel l) (hfuel : depthBound n + 1 < fuel)
    (hlen : n < fuel) :
    ∃ l', l.handle fuel h = some l' ∧ l'.state = step l.state h.input ∧
      l'.layout.Shows l'.mem l'.state := by
  suffices hcall : ∃ L m, h.call fuel l.layout l.state l.mem = some (L, m) ∧
      L.Shows m (step l.state h.input) by
    obtain ⟨L, m, hcall, h'⟩ := hcall
    exact ⟨{ l with layout := L, mem := m, state := step l.state h.input },
      by simp [MainLoop.handle, hcall], rfl, h'⟩
  cases h with
  | nfqueueReceivePacket now nfa entry =>
    have hshort := (length_rreq_queue_le l.state).trans hfits.few
    exact (managePacket_refines (hwf.arrive _) (hshows.arrive _) hmeets (enough_of_fits hfits hfuel)
      (hshort.trans_lt hlen)).shows
  | aodvSocketReceivePacket now refusals msg writes => exact hmeets
  | commInterfaceReceivePackets now =>
    have harrive := hshows.arrive (Readable.commInterfaceReceivePackets now).input
    exact ⟨l.layout, l.mem, rfl, harrive.congr rfl rfl rfl rfl⟩

/-- All of them. -/
theorem handleAll_spec {handlers : List Readable} (hwf : Wf l.state)
    (hshows : l.layout.Shows l.mem l.state) (hmeets : HandlersMeet fuel n handlers l)
    (hfuel : depthBound n + 1 < fuel) (hlen : n < fuel) :
    ∃ l', l.handleAll fuel handlers = some l' ∧
      l'.state = run step l.state (handlers.map Readable.input) ∧
      l'.layout.Shows l'.mem l'.state ∧ l'.state.Fits n := by
  induction handlers generalizing l with
  | nil => exact ⟨l, rfl, rfl, hshows, hmeets⟩
  | cons h handlers ih =>
    obtain ⟨hfits, hfirst, hrest⟩ := hmeets
    obtain ⟨l₁, hl₁, hstate, hshows₁⟩ := handle_spec hwf hshows hfits hfirst hfuel hlen
    have hwf₁ : Wf l₁.state := hstate ▸ hwf.step h.input
    obtain ⟨l₂, hl₂, hstate₂, h₂⟩ := ih hwf₁ hshows₁ (hrest l₁ hl₁)
    refine ⟨l₂, by simp [MainLoop.handleAll, hl₁, hl₂], ?_, h₂⟩
    rw [hstate₂, hstate]
    rfl

/-- After `get_next_alarm_run`. -/
theorem getNext_spec (hshows : l.layout.Shows l.mem l.state) (hfits : l.state.Fits n)
    (hfuel : depthBound n ≤ fuel) (now : Nat) :
    ∃ l', l.getNext fuel now = some l' ∧ l'.layout = l.layout ∧ l'.mem = l.mem ∧
      l'.state = l.state ∧ l'.Waits now ∧
      (alarmTree l.state ≠ [] → l'.next_run = true ∧
        (timerisset l'.next = false ↔ l.state.Due now)) := by
  obtain ⟨r, hr, hnext⟩ := hshows.getNextAlarmRun hfits hfuel now
  refine ⟨{ l with next := r.getD l.next, next_run := r.isSome },
    by simp [MainLoop.getNext, hr], rfl, rfl, rfl, ?_⟩
  cases r with
  | none =>
    have hempty := hnext.none_iff.1 rfl
    refine ⟨fun a ha => ?_, fun hne => absurd hempty hne⟩
    rw [show alarmTree _ = [] from hempty] at ha
    cases ha
  | some tv => exact ⟨NextRun.waits hnext rfl rfl, fun _ => ⟨rfl, hnext.due_iff rfl⟩⟩

theorem state_select (l : MainLoop) (left : Timeval) : (l.select left).state = l.state := by
  unfold MainLoop.select
  split <;> rfl

theorem shows_select (hshows : l.layout.Shows l.mem l.state) (left : Timeval) :
    (l.select left).layout.Shows (l.select left).mem l.state := by
  unfold MainLoop.select
  split <;> exact hshows

/-- **There is something to read.** -/
theorem ready_spec {left : Timeval} {handlers : List Readable} {now : Nat} (h : l.Keeps n c)
    (hmeets : HandlersMeet fuel n handlers (l.select left)) (hfuel : depthBound n + 1 < fuel)
    (hlen : n < fuel) :
    ∃ l', l.step fuel rounds (.ready left handlers now) = some l' ∧
      l'.Keeps n (mainTurn c (.ready left handlers now)) := by
  have hstate := state_select l left
  have hshows := shows_select h.shows left
  obtain ⟨l₁, hl₁, hstate₁, hshows₁, hfits₁⟩ :=
    handleAll_spec (hstate ▸ h.wf) (hstate.symm ▸ hshows) hmeets hfuel hlen
  obtain ⟨l₂, hl₂, hlayout₂, hmem₂, hstate₂, hwaits, -⟩ :=
    getNext_spec hshows₁ hfits₁ (show depthBound n ≤ fuel by omega) now
  rw [hstate] at hstate₁
  have hrun : l₂.state = run step l.state (handlers.map Readable.input) := hstate₂.trans hstate₁
  refine ⟨l₂, by simp [MainLoop.step, hl₁, hl₂], ?_, ?_, ?_, hstate₂ ▸ hfits₁, hwaits⟩
  · rw [hrun, h.state]
    rfl
  · rw [hrun]
    exact Machine.run_invariant_always (I := Wf) (fun s i hs => hs.step i) h.wf _
  · rw [hlayout₂, hmem₂, hstate₂]
    exact hshows₁

/-- A run of the alarms without alarms. -/
theorem doAlarmRun_of_empty {s : MshData} (hempty : alarmTree s = []) :
    alarmRunQueue s = [] ∧ doAlarmRun s = s := by
  have hqueue : alarmRunQueue s = [] := by
    simp [alarmRunQueue, hempty]
  rw [doAlarmRun, hqueue]
  exact ⟨rfl, rfl⟩

/-- **`do_alarm_run`** on the memory of the loop. -/
theorem doAlarmRun_spec (later : Nat) (hwf : Wf l.state) (hshows : l.layout.Shows l.mem l.state)
    (hfits : l.state.Fits n) (hgiven : l.state.lastTimeouts l.state.os.now = [])
    (hfits' : (doAlarmRun l.state).Fits n) (hfuel : depthBound n + 1 < fuel) (hrounds : n < rounds) :
    ∃ l', l.doAlarmRun fuel rounds later = some l' ∧ l'.state = doAlarmRun l.state ∧
      l'.layout.Shows l'.mem l'.state ∧ (l.next_run = true → l'.Waits later) := by
  obtain ⟨m, hm, hshows'⟩ := (doAlarmRun_meets_memory hwf hshows (enough_of_fits hfits hfuel)
    (hfits.few.trans_lt hrounds)).1 hgiven
  obtain ⟨r, hr, hnext⟩ :=
    hshows'.getNextAlarmRun hfits' (show depthBound n ≤ fuel by omega) later
  refine ⟨{ l with state := doAlarmRun l.state, mem := m, next := r.getD l.next },
    by simp [MainLoop.doAlarmRun, hm, hr], rfl, hshows', fun hset => hnext.waits hset ?_⟩
  cases r <;> rfl

/-- **`process_alarms`**, when `next` has been set for the alarms. -/
theorem processAlarms_spec {now : Nat} (later : Nat) (hwf : Wf l.state)
    (hshows : l.layout.Shows l.mem l.state) (hfits : l.state.Fits n) (hwaits : l.Waits now)
    (hset : alarmTree l.state ≠ [] → l.next_run = true ∧
      (timerisset l.next = false ↔ l.state.Due now))
    (hgiven : l.state.Due now → l.state.lastTimeouts l.state.os.now = [])
    (hfits' : l.state.Due now → (doAlarmRun l.state).Fits n) (hfuel : depthBound n + 1 < fuel)
    (hrounds : n < rounds) :
    ∃ l', l.processAlarms fuel rounds later = some l' ∧
      l'.state = (if l.state.Due now then doAlarmRun l.state else l.state) ∧
      l'.layout.Shows l'.mem l'.state ∧ l'.Waits (if l.state.Due now then later else now) := by
  unfold MainLoop.processAlarms
  by_cases hempty : alarmTree l.state = []
  · -- nothing is pending, and whatever `next` holds does no harm
    have hnotDue : ¬ l.state.Due now := by
      rintro ⟨a, ha, -⟩
      rw [hempty] at ha
      cases ha
    obtain ⟨hqueue, hsame⟩ := doAlarmRun_of_empty hempty
    have hnone : l.state.lastTimeouts l.state.os.now = [] := by
      refine (lastTimeouts_eq_nil_iff hwf).2 fun a ha => ?_
      rw [hqueue] at ha
      cases ha
    rw [if_neg hnotDue, if_neg hnotDue]
    by_cases hnext : timerisset l.next = true
    · exact ⟨l, if_pos hnext, rfl, hshows, hwaits⟩
    · obtain ⟨l', hl', hstate, hshows', -⟩ := doAlarmRun_spec later hwf hshows hfits hnone
        (hsame.symm ▸ hfits) hfuel hrounds
      refine ⟨l', (if_neg hnext).trans hl', hstate.trans hsame, hshows', fun a ha => ?_⟩
      rw [hstate, hsame, hempty] at ha
      cases ha
  · obtain ⟨hnext_run, hnext⟩ := hset hempty
    by_cases hdue : l.state.Due now
    · -- the wait is over, and `do_alarm_run` says how long the next one is
      obtain ⟨l', hl', hstate, hshows', hwaits'⟩ := doAlarmRun_spec later hwf hshows hfits
        (hgiven hdue) (hfits' hdue) hfuel hrounds
      have hzero := hnext.2 hdue
      rw [if_pos hdue, if_pos hdue]
      exact ⟨l', (if_neg (by simp [hzero])).trans hl', hstate, hshows', hwaits' hnext_run⟩
    · have hleft : timerisset l.next = true := by
        by_contra hfalse
        exact hdue (hnext.1 (Bool.eq_false_iff.2 hfalse))
      rw [if_neg hdue, if_neg hdue]
      exact ⟨l, if_pos hleft, rfl, hshows, hwaits⟩

/-- **An idle moment.** -/
theorem idle_spec {left : Timeval} {now began later : Nat} (h : l.Keeps n c)
    (hmeets : l.state.Due now →
      givenUp l.state (alarmsAt began) = [] ∧ (step l.state (alarmsAt began)).Fits n)
    (hfuel : depthBound n + 1 < fuel) (hrounds : n < rounds) :
    ∃ l', l.step fuel rounds (.idle left now began later) = some l' ∧
      l'.Keeps n (mainTurn c (.idle left now began later)) := by
  have hstate := state_select l left
  have hshows := shows_select h.shows left
  obtain ⟨l₁, hl₁, hlayout₁, hmem₁, hstate₁, hwaits, hset⟩ := getNext_spec
    (hstate.symm ▸ hshows) (hstate ▸ h.fits) (show depthBound n ≤ fuel by omega) now
  rw [hstate] at hstate₁ hset
  let l₂ : MainLoop := { l₁ with state := l.state.arrive (alarmsAt began) }
  have hstep : l.step fuel rounds (.idle left now began later) =
      l₂.processAlarms fuel rounds later := by
    simp [MainLoop.step, hl₁, hstate₁, l₂]
  have hwf₂ : Wf l₂.state := h.wf.arrive _
  have hshows₂ : l₂.layout.Shows l₂.mem l₂.state := by
    show l₁.layout.Shows l₁.mem _
    rw [hlayout₁, hmem₁]
    exact hshows.arrive _
  have hwaits₂ : l₂.Waits now := by
    rw [MainLoop.Waits, hstate₁] at hwaits
    exact hwaits
  obtain ⟨l', hl', hstate', hshows', hwaits'⟩ := processAlarms_spec later hwf₂ hshows₂
    ⟨h.fits.few, h.fits.times⟩ hwaits₂ hset (fun hdue => (hmeets hdue).1)
    (fun hdue => (hmeets hdue).2) hfuel hrounds
  refine ⟨l', hstep.trans hl', ?_⟩
  have hsame : c.1.Due now ↔ l₂.state.Due now := h.state ▸ Iff.rfl
  by_cases hdue : l₂.state.Due now
  · rw [if_pos hdue] at hstate' hwaits'
    have hturn : mainTurn c (.idle left now began later) = (doAlarmRun l₂.state, later) := by
      rw [mainTurn, if_pos (hsame.2 hdue), ← h.state]
      rfl
    rw [hturn]
    exact ⟨hstate', hstate' ▸ h.wf.step (alarmsAt began), hshows', hstate' ▸ (hmeets hdue).2, hwaits'⟩
  · rw [if_neg hdue] at hstate' hwaits'
    have hturn : mainTurn c (.idle left now began later) = (l₂.state, now) := by
      rw [mainTurn, if_neg (fun h' => hdue (hsame.1 h')), ← h.state]
    rw [hturn]
    exact ⟨hstate', hstate' ▸ hwf₂, hshows', hstate' ▸ ⟨h.fits.few, h.fits.times⟩, hwaits'⟩

/-- One event. -/
theorem mainTurn_spec (h : l.Keeps n c) (hmeets : e.Meets fuel n l) (hfuel : depthBound n + 1 < fuel)
    (hlen : n < fuel) (hrounds : n < rounds) :
    ∃ l', l.step fuel rounds e = some l' ∧ l'.Keeps n (mainTurn c e) := by
  cases e with
  | ready left handlers now => exact ready_spec h hmeets hfuel hlen
  | idle left now began later => exact idle_spec h hmeets hfuel hrounds

/-- Any number of events. -/
theorem mainRun_spec {es : List MainEvent} (h : l.Keeps n c) (hrun : MainRun fuel rounds n es l)
    (hfuel : depthBound n + 1 < fuel) (hlen : n < fuel) (hrounds : n < rounds) :
    ∃ l', l.steps fuel rounds es = some l' ∧ l'.Keeps n (run mainTurn c es) := by
  induction es generalizing l c with
  | nil => exact ⟨l, rfl, h⟩
  | cons e es ih =>
    obtain ⟨l₁, hl₁, h₁⟩ := mainTurn_spec h hrun.1 hfuel hlen hrounds
    obtain ⟨l₂, hl₂, h₂⟩ := ih h₁ (hrun.2 l₁ hl₁)
    exact ⟨l₂, by simp [MainLoop.steps, hl₁, hl₂], h₂⟩

end Events

/-- The daemon has started. -/
def startedLoop : MainLoop where
  layout := askedLayout
  mem := emptyMem
  state := mshDataInit 0x0A000001 0x0A0000FF 0
  next := ⟨0, 0⟩
  next_run := false

def readPacket : Readable :=
  .nfqueueReceivePacket 0 (capturedPacket 1 3 1 0x0A000001 0x0A000009) node8

/-- A request from the address of the node itself, which it takes no notice of. -/
def readEcho : Readable :=
  .aodvSocketReceivePacket 0 []
    ⟨some 0x0A000001, aodvPktBuildRreq 1 0 1 0x0A000009 0 0x0A000001 1, [⟨SOL_IP, IP_TTL, 3⟩]⟩
    (fun L m => some (L, m))

/-- A packet for nobody is captured, and all three descriptors are readable; then the request is
    repeated when its alarm is due. -/
def askingEvents : List MainEvent :=
  [.ready ⟨0, 0⟩ [readPacket, readEcho, .commInterfaceReceivePackets 0] 0,
    .idle ⟨0, 0⟩ 2800000 2800000 2800000]

theorem fits_startedLoop : startedLoop.state.Fits 2 := ⟨by decide, by decide⟩

theorem waits_startedLoop : startedLoop.Waits 0 := fun _ ha => absurd ha List.not_mem_nil

/-- What is read after the packet leaves the alarms and the buffer as they are. -/
theorem handlersMeet_after {l : MainLoop} (hstate : l.state = askedDaemon)
    (hshows : l.layout.Shows l.mem l.state) :
    HandlersMeet 20 2 [readEcho, .commInterfaceReceivePackets 0] l := by
  have hfits : ∀ s : MshData, alarmOwners s = alarmOwners askedDaemon →
      alarmTree s = alarmTree askedDaemon → s.Fits 2 := by
    intro s howners htree
    refine ⟨?_, ?_⟩
    · rw [howners, owners_askedDaemon]
      decide
    · rw [htree, tree_askedDaemon]
      decide
  refine ⟨hstate ▸ hfits _ rfl rfl, ⟨l.layout, l.mem, rfl, ?_⟩, fun l₁ hl₁ => ?_⟩
  · refine hshows.congr ?_ ?_ ?_ ?_
    all_goals
      rw [hstate]
      decide +kernel
  · obtain rfl := Option.some.inj hl₁
    have hheard : (step l.state readEcho.input).Fits 2 := by
      rw [hstate]
      exact hfits _ (by decide +kernel) (by decide +kernel)
    refine ⟨hheard, trivial, fun l₂ hl₂ => ?_⟩
    obtain rfl := Option.some.inj hl₂
    exact ⟨hheard.few, hheard.times⟩

theorem mainRun_asking : MainRun 20 5 2 askingEvents startedLoop := by
  have hfresh : readPacket.Meets 20 startedLoop := by
    intro alarms halarms
    cases halarms
    exact ⟨by decide, by decide, by decide, by decide⟩
  have hready : HandlersMeet 20 2 [readPacket, readEcho, .commInterfaceReceivePackets 0]
      startedLoop := by
    refine ⟨fits_startedLoop, hfresh, fun l' hl' => ?_⟩
    obtain ⟨l₁, hl₁, hstate, hshows⟩ := handle_spec (wf_run 0x0A000001 0x0A0000FF 0 [])
      shows_emptyMem fits_startedLoop hfresh (by decide) (by decide)
    obtain rfl : l₁ = l' := Option.some.inj (hl₁.symm.trans hl')
    exact handlersMeet_after hstate hshows
  have hkeeps : startedLoop.Keeps 2 (startedLoop.state, 0) :=
    ⟨rfl, wf_run 0x0A000001 0x0A0000FF 0 [], shows_emptyMem, fits_startedLoop, waits_startedLoop⟩
  refine ⟨hready, fun l' hl' => ⟨fun _ => ?_, fun _ _ => trivial⟩⟩
  obtain ⟨l₁, hl₁, h₁⟩ := ready_spec hkeeps hready (by decide) (by decide)
  obtain rfl : l₁ = l' := Option.some.inj (hl₁.symm.trans hl')
  rw [h₁.state]
  exact ⟨by decide +kernel, ⟨by decide +kernel, by decide +kernel⟩⟩

end Meshias
