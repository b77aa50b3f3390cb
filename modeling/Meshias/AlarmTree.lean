import Meshias.Lib.TimerQueue
import Meshias.RbWalk

/-!
# Alarms in memory

`libmeshias/alarm/alarm.c`: the alarm blocks, chained into a red-black tree by the time at which
they expire.

* `Timeval` — `struct timeval` with the macros of `sys/time.h`.
* `AlarmMem` — the blocks, field by field, and `alarm_root`.
* `AlarmMem.addAlarm`, `AlarmMem.delAlarm`, `AlarmMem.getNextAlarmRun`, `AlarmMem.collectExpired`.
-/

set_option autoImplicit false

namespace Meshias

open RedBlack

/-! ## Points in time -/

/-- `struct timeval`. -/
structure Timeval where
  tv_sec : Int
  tv_usec : Int
  deriving DecidableEq, Repr

def LONG_MAX : Int := 2 ^ 63 - 1

/-- `timercmp (a, b, <)`. -/
def timerLt (a b : Timeval) : Bool :=
  if a.tv_sec = b.tv_sec then a.tv_usec < b.tv_usec else a.tv_sec < b.tv_sec

def timeradd (a b : Timeval) : Timeval :=
  let sec := a.tv_sec + b.tv_sec
  let usec := a.tv_usec + b.tv_usec
  if usec ≥ 1000000 then ⟨sec + 1, usec - 1000000⟩ else ⟨sec, usec⟩

def timersub (a b : Timeval) : Timeval :=
  let sec := a.tv_sec - b.tv_sec
  let usec := a.tv_usec - b.tv_usec
  if usec < 0 then ⟨sec - 1, usec + 1000000⟩ else ⟨sec, usec⟩

def timerisset (a : Timeval) : Bool := a.tv_sec != 0 || a.tv_usec != 0

namespace Timeval

/-- Less than a second in `tv_usec`. -/
def Normal (a : Timeval) : Prop := 0 ≤ a.tv_usec ∧ a.tv_usec < 1000000

def micros (a : Timeval) : Int := a.tv_sec * 1000000 + a.tv_usec

end Timeval

section Time

variable {a b : Timeval}

theorem timerLt_iff (ha : a.Normal) (hb : b.Normal) :
    timerLt a b = true ↔ a.micros < b.micros := by
  unfold Timeval.Normal at ha hb
  unfold timerLt Timeval.micros
  split <;> simp only [decide_eq_true_eq] <;> omega

theorem micros_timeradd (a b : Timeval) : (timeradd a b).micros = a.micros + b.micros := by
  unfold timeradd Timeval.micros
  dsimp only
  split <;> simp only <;> omega

theorem normal_timeradd (ha : a.Normal) (hb : b.Normal) : (timeradd a b).Normal := by
  unfold Timeval.Normal at ha hb ⊢
  unfold timeradd
  dsimp only
  split <;> simp only <;> omega

theorem micros_timersub (a b : Timeval) : (timersub a b).micros = a.micros - b.micros := by
  unfold timersub Timeval.micros
  dsimp only
  split <;> simp only <;> omega

theorem normal_timersub (ha : a.Normal) (hb : b.Normal) : (timersub a b).Normal := by
  unfold Timeval.Normal at ha hb ⊢
  unfold timersub
  dsimp only
  split <;> simp only <;> omega

end Time

/-! ## The alarm blocks -/

/-- `struct alarm_block` begins with its node, so the address of the one is that of the other. -/
structure AlarmMem where
  rb : RbMem
  tv : Ptr → Timeval
  data : Ptr → Ptr
  function : Ptr → Ptr

namespace AlarmMem

def initAlarm (m : AlarmMem) (t data function : Ptr) : Option AlarmMem := do
  let rb ← m.rb.clearNode t
  return {
    rb
    tv := Function.update m.tv t ⟨0, 0⟩
    data := Function.update m.data t data
    function := Function.update m.function t function }

/-- The loop of `__add_alarm`: where the new node goes, and below which parent. -/
def findPlace (m : AlarmMem) (tv : Timeval) : Nat → RbLink → Ptr → Option (RbLink × Ptr)
  | 0, _, _ => none
  | fuel + 1, new, parent => do
    let this ← m.rb.deref new
    if this ≠ NULL then
      if timerLt tv (m.tv this) then findPlace m tv fuel (.child this .left) this
      else findPlace m tv fuel (.child this .right) this
    else return (new, parent)

/-- `__add_alarm`. -/
def insertAlarm (fuel : Nat) (m : AlarmMem) (alarm : Ptr) : Option AlarmMem := do
  let (new, parent) ← findPlace m (m.tv alarm) fuel .root NULL
  let rb ← rbLinkNode m.rb alarm parent new
  let rb ← rbInsertColor fuel rb alarm
  return { m with rb }

/-- A node that is not in the tree is not removed. -/
def delAlarm (fuel : Nat) (m : AlarmMem) (alarm : Ptr) : Option AlarmMem := do
  if ¬ (← m.rb.emptyNode alarm) then
    let rb ← rbErase fuel m.rb alarm
    let rb ← rb.clearNode alarm
    return { m with rb }
  else return m

def addAlarm (fuel : Nat) (now : Timeval) (m : AlarmMem) (alarm : Ptr) (sc usc : Nat) :
    Option AlarmMem := do
  let m ← delAlarm fuel m alarm
  insertAlarm fuel { m with tv := Function.update m.tv alarm (timeradd ⟨sc, usc⟩ now) } alarm

def alarmPending (m : AlarmMem) (alarm : Ptr) : Option Bool := do
  return !(← m.rb.emptyNode alarm)

end AlarmMem

def calculateNextRun (cand tv : Timeval) : Option Timeval :=
  if cand.tv_sec ≠ LONG_MAX then
    if timerLt tv cand then some (timersub cand tv) else some ⟨0, 0⟩
  else none

namespace AlarmMem

def getNextAlarmRun (fuel : Nat) (now : Timeval) (m : AlarmMem) : Option (Option Timeval) := do
  let node ← rbFirst fuel m.rb
  if node ≠ NULL then return calculateNextRun (m.tv node) now else return none

/-- The first loop of `do_alarm_run`: what has expired goes to the front of `alarm_run_queue`. -/
def collectExpired (fuel : Nat) (now : Timeval) (m : AlarmMem) :
    Nat → Ptr → List Ptr → Option (List Ptr)
  | 0, _, _ => none
  | rounds + 1, node, alarm_run_queue =>
    if node ≠ NULL then
      if timerLt now (m.tv node) then some alarm_run_queue
      else do collectExpired fuel now m rounds (← rbNext fuel m.rb node) (node :: alarm_run_queue)
    else some alarm_run_queue

end AlarmMem

end Meshias
