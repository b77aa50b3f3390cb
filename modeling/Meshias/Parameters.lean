import Mathlib.Tactic

/-!
# Machine words, time and the AODV parameters

* `U8`, `U16`, `U32`, `InAddr` — the fixed-width integers of the daemon; a `struct in_addr` is
  the 32-bit address in host order, as every module but `packet.c` holds it.
* `setAlarmTime`, `getAlarmTime` — `libmeshias/utils.c`.  A `struct timeval` read from the clock
  is one natural number of microseconds; `tvSec` and `tvUsec` split it again.
* `ACTIVE_ROUTE_TIMEOUT` … `minimalLifetime` — `aodv/configuration_parameters.c`.
-/

set_option autoImplicit false

namespace Meshias

abbrev U8 := BitVec 8
abbrev U16 := BitVec 16
abbrev U32 := BitVec 32

/-- `struct in_addr`, in host byte order. -/
abbrev InAddr := BitVec 32

/-! ## Time -/

def tvSec (tv : Int) : Int := tv / 1000000
def tvUsec (tv : Int) : Int := tv % 1000000

/-- Milliseconds as seconds and microseconds. -/
def setAlarmTime (miliseconds : U32) : Nat × Nat :=
  (miliseconds.toNat / 1000, miliseconds.toNat % 1000 * 1000)

/-- Seconds and microseconds as milliseconds, cut to 32 bits by the return type. -/
def getAlarmTime (sc usc : Int) : U32 := BitVec.ofInt 32 (usc / 1000 + sc * 1000)

theorem setAlarmTime_usec (ms : U32) :
    (setAlarmTime ms).1 * 1000000 + (setAlarmTime ms).2 = ms.toNat * 1000 := by
  simp only [setAlarmTime]; omega

/-! ## Parameters -/

def ACTIVE_ROUTE_TIMEOUT : U32 := 3000
def ALLOWED_HELLO_LOSS : U32 := 2
def RREQ_RETRIES : U32 := 2
def HELLO_INTERVAL : U32 := 1000
def NET_DIAMETER : U32 := 35
def TTL_START : U32 := 3
def TTL_INCREMENT : U32 := 2
def TTL_THRESHOLD : U32 := 7
def NODE_TRAVERSAL_TIME : U32 := 40
def MY_ROUTE_TIMEOUT : U32 := 2 * ACTIVE_ROUTE_TIMEOUT
def NET_TRAVERSAL_TIME : U32 := 2 * NODE_TRAVERSAL_TIME * NET_DIAMETER
def PATH_DISCOVERY_TIME : U32 := 2 * NET_TRAVERSAL_TIME
def DELETE_PERIOD : U32 := ALLOWED_HELLO_LOSS * HELLO_INTERVAL

/-- `AODV_UDP_PORT`. -/
def AODV_UDP_PORT : U16 := 654

/-- `prev_tries` is an `int8_t` that only ever holds `-1 … 3`. -/
def binaryExponentialBackoffTime (prev_tries : Int) : U32 :=
  (1 <<< prev_tries.toNat) * NET_TRAVERSAL_TIME

def expandingRingSearchTtl (hop_count : U8) (prev_tries : Int) : U32 :=
  if prev_tries = 0 then hop_count.setWidth 32 + TTL_START else
  let ret := hop_count.setWidth 32 + TTL_START + BitVec.ofInt 32 prev_tries * TTL_INCREMENT
  if ret > TTL_THRESHOLD then NET_DIAMETER else ret

/-- The sum is taken from the absolute clock, in 32 bits. -/
def minimalLifetime (now : Nat) (hop_count : U8) : U32 :=
  let current_time := getAlarmTime (tvSec now) (tvUsec now)
  current_time + 2 * NET_TRAVERSAL_TIME - 2 * hop_count.setWidth 32 * NODE_TRAVERSAL_TIME

end Meshias
