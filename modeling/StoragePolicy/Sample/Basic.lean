import StoragePolicy.Time.Instant

/-!
# Metric samples

A sample is one observation of a metric of a tenant.

## Main definitions

* `Timestamp`: When a sample was taken.
* `Sample`: The sample.
-/

namespace StoragePolicy

/-- When a sample was taken: at a given instant, or when it arrived. -/
inductive Timestamp where
  | onArrival
  | at (instant : Time.Instant)
  deriving Repr, DecidableEq

/-- One observation of a metric of a tenant. -/
structure Sample where
  tenantId : String
  metric : String
  timestamp : Timestamp := .onArrival
  value : Float
  deriving Repr, DecidableEq

end StoragePolicy
