/-
`metrics.hpp`: the counters and gauges.

Counters are `atomic<uint64_t>` and wrap at `2^64`; gauges are `atomic<int>` and are
only ever stored to. The per-backend vectors are functions of the index.
-/
import AegisProxy.CircuitBreaker
import Mathlib.Logic.Function.Basic

set_option autoImplicit false

namespace AegisProxy

/-- `static_cast<int>(state)`. -/
def BreakerState.toInt : BreakerState → ℤ
  | .CLOSED => 0
  | .OPEN => 1
  | .HALF_OPEN => 2

/-- The fields of `MetricsRegistry`. -/
structure MetricsRegistry where
  total_requests_ : ℕ
  rate_limited_ : ℕ
  fallback_503_ : ℕ
  backend_success_ : ℕ → ℕ
  backend_failure_ : ℕ → ℕ
  breaker_state_ : ℕ → ℤ
  pool_active_ : ℕ → ℤ
  pool_idle_ : ℕ → ℤ

namespace MetricsRegistry

/-- The constructor: everything zero. -/
def new : MetricsRegistry where
  total_requests_ := 0
  rate_limited_ := 0
  fallback_503_ := 0
  backend_success_ := fun _ => 0
  backend_failure_ := fun _ => 0
  breaker_state_ := fun _ => 0
  pool_active_ := fun _ => 0
  pool_idle_ := fun _ => 0

/-- `fetch_add(1)` on a `uint64_t`. -/
def fetch_add (n : ℕ) : ℕ := (n + 1) % 2 ^ 64

def record_request_received (m : MetricsRegistry) : MetricsRegistry :=
  { m with total_requests_ := fetch_add m.total_requests_ }

def record_rate_limited (m : MetricsRegistry) : MetricsRegistry :=
  { m with rate_limited_ := fetch_add m.rate_limited_ }

def record_fallback_503 (m : MetricsRegistry) : MetricsRegistry :=
  { m with fallback_503_ := fetch_add m.fallback_503_ }

def record_backend_success (m : MetricsRegistry) (b : ℕ) : MetricsRegistry :=
  { m with backend_success_ :=
      Function.update m.backend_success_ b (fetch_add (m.backend_success_ b)) }

def record_backend_failure (m : MetricsRegistry) (b : ℕ) : MetricsRegistry :=
  { m with backend_failure_ :=
      Function.update m.backend_failure_ b (fetch_add (m.backend_failure_ b)) }

def set_breaker_state (m : MetricsRegistry) (b : ℕ) (state : ℤ) : MetricsRegistry :=
  { m with breaker_state_ := Function.update m.breaker_state_ b state }

def set_pool_active (m : MetricsRegistry) (b : ℕ) (count : ℤ) : MetricsRegistry :=
  { m with pool_active_ := Function.update m.pool_active_ b count }

def set_pool_idle (m : MetricsRegistry) (b : ℕ) (count : ℤ) : MetricsRegistry :=
  { m with pool_idle_ := Function.update m.pool_idle_ b count }

end MetricsRegistry

end AegisProxy
