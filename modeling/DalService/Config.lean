import DalService.Types

/-!
# Bounds of the cluster configuration

The bounds `config.rs` sets on a cluster record: the least replication factor, the least number of
meta voters, and the size the routing snapshot of a shape of the cluster may reach
(`validateRoutingShape`). Sizes are those of a 64-bit machine, and the sums are checked as the
source checks them. `Timeouts` has the two timeouts the failure detector reads.
-/

set_option autoImplicit false

namespace DalService

def MIN_REPLICATION : UInt8 := 3

def MIN_META_VOTERS : ℕ := 3

/-- The `usize` values of a 64-bit machine lie below this bound. -/
def USIZE_BOUND : ℕ := 2 ^ 64

/-- `usize::checked_mul`. -/
def checkedMul (first second : ℕ) : Option ℕ :=
  if first * second < USIZE_BOUND then some (first * second) else none

/-- `usize::checked_add`. -/
def checkedAdd (first second : ℕ) : Option ℕ :=
  if first + second < USIZE_BOUND then some (first + second) else none

def ROUTING_FIXED_HEADROOM : ℕ := 64 * 1024

def DIRECTORY_ENTRY_BUDGET : ℕ := 64 + 2 * MAX_ENDPOINT_BYTES

def PLACEMENT_FIXED_BUDGET : ℕ := 64

/-- Reject a shape whose largest routing snapshot would not fit one frame. -/
def validateRoutingShape (p : UInt16) (r : UInt8) : Result Unit := do
  if MAX_CLUSTER_NODES < r.toNat then
    throw (.config ("R must be <= " ++ toString MAX_CLUSTER_NODES))
  let some directory := checkedMul MAX_CLUSTER_NODES DIRECTORY_ENTRY_BUDGET
    | throw (.config "routing directory size overflow")
  let some placement := checkedMul p.toNat (PLACEMENT_FIXED_BUDGET + 2 * r.toNat * 8)
    | throw (.config "routing placement size overflow")
  let some estimate := (checkedAdd ROUTING_FIXED_HEADROOM directory).bind (checkedAdd · placement)
    | throw (.config "routing snapshot size overflow")
  if MAX_ROUTING_PAYLOAD_BYTES < estimate then
    throw (.config ("P=" ++ toString p.toNat ++ " and R=" ++ toString r.toNat ++
      " can produce a routing snapshot larger than " ++ toString MAX_ROUTING_PAYLOAD_BYTES ++
      " bytes"))

/-- The timeouts of the failure detector. A duration is a number of nanoseconds. -/
structure Timeouts where
  suspect : ℕ
  down : ℕ
  deriving DecidableEq, Repr

/-- `Duration::from_millis`. -/
def fromMillis (millis : ℕ) : ℕ := millis * 1000000

/-- `Duration::as_millis`. -/
def asMillis (duration : ℕ) : ℕ := duration / 1000000

end DalService
