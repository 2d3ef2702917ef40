import RateDesk.Cache.Basic

/-!
# Sweeping the cache

A sweep evicts at regular times. Evicting at every one of them leaves what evicting at the last one
alone leaves, so `Sweep.advance` evicts once.
-/

namespace RateDesk

/-- A periodic eviction: how many milliseconds lie between two of them, and when the next one is
due. -/
structure Sweep where
  period : Nat
  period_pos : 0 < period
  next : Instant

namespace Sweep

/-- A sweep that evicts now and then every `period` milliseconds; none without a period. -/
def start? (period : Nat) (now : Instant) : Option Sweep :=
  if h : 0 < period then some ⟨period, h, now⟩ else none

/-- The cache and the sweep after everything that is due up to a reading. -/
def advance (s : Sweep) (c : Cache) (now : Instant) : Sweep × Cache :=
  if now < s.next then (s, c)
  else
    let last := s.next + (now - s.next) / s.period * s.period
    ({ s with next := last + s.period }, c.evict last)

end Sweep

end RateDesk
