import RateDesk.Quote
import RateDesk.Time.Clock

/-!
# The rate cache

Rates under keys, each with a deadline. An entry is live strictly before its deadline; reads take an
entry that is not live for absent, and `Cache.evict` drops such entries. Main definitions:
`CacheKey`, `CachedRate`, `Cache`, `Cache.put`, `Cache.get?`, `Cache.scan`, `Cache.evict`.
-/

namespace RateDesk

/-- What a rate is stored under: raw rates by platform and instrument, calculated ones by instrument
alone. -/
inductive CacheKey where
  | raw (platform instrument : String)
  | calculated (instrument : String)
deriving DecidableEq, Repr

inductive CachedRate where
  | raw (rate : Rate)
  | calculated (rate : CalculatedRate)
deriving DecidableEq

/-- A stored rate and the reading of the clock from which on it counts as absent. -/
structure CacheEntry where
  rate : CachedRate
  expiresAt : Instant
deriving DecidableEq

def CacheEntry.isLive (e : CacheEntry) (now : Instant) : Bool := decide (now < e.expiresAt)

/-- Entries under pairwise different keys, in the order in which scans meet them, and the life span
that rates get unless they are given another one. -/
structure Cache where
  /-- The usual life span in seconds. -/
  ttl : Nat
  entries : List (CacheKey × CacheEntry)
  nodup : (entries.map Prod.fst).Nodup

namespace Cache

/-- The life span that is used when none is configured: thirty minutes. -/
abbrev defaultTtl : Nat := 1800

def empty (ttl : Nat) : Cache := ⟨ttl, [], List.nodup_nil⟩

def size (c : Cache) : Nat := c.entries.length

/-! ## Writing -/

/-- Stores an entry in place of the one under its key, if there is one. -/
def insert (c : Cache) (k : CacheKey) (e : CacheEntry) : Cache where
  ttl := c.ttl
  entries := (k, e) :: c.entries.filter (fun p => p.1 ≠ k)
  nodup := by
    rw [List.map_cons, List.nodup_cons]
    refine ⟨?_, (c.nodup.sublist (List.filter_sublist.map _))⟩
    intro h
    obtain ⟨p, hp, rfl⟩ := List.mem_map.1 h
    simpa using (List.mem_filter.1 hp).2

/-- Stores a rate for `ttl` milliseconds. -/
def put (c : Cache) (k : CacheKey) (r : CachedRate) (ttl : Nat) (now : Instant) : Except Fault Cache := do
  return c.insert k ⟨r, ← now.after ttl⟩

def putRaw (c : Cache) (platform instrument : String) (r : Rate) (now : Instant) : Except Fault Cache :=
  c.put (.raw platform instrument) (.raw r) (c.ttl * 1000) now

/-- Stores a calculated rate under its instrument for the usual life span. -/
def putCalculated (c : Cache) (r : CalculatedRate) (now : Instant) : Except Fault Cache :=
  c.put (.calculated r.instrument) (.calculated r) (c.ttl * 1000) now

def evict (c : Cache) (now : Instant) : Cache where
  ttl := c.ttl
  entries := c.entries.filter (fun p => p.2.isLive now)
  nodup := c.nodup.sublist (List.filter_sublist.map _)

/-! ## Reading -/

/-- The entry under a key, live or not. -/
def find? (c : Cache) (k : CacheKey) : Option CacheEntry := c.entries.lookup k

def get? (c : Cache) (k : CacheKey) (now : Instant) : Option CachedRate := do
  let e ← c.find? k
  if e.isLive now then some e.rate else none

def getRaw? (c : Cache) (platform instrument : String) (now : Instant) : Option Rate :=
  match c.get? (.raw platform instrument) now with
  | some (.raw r) => some r
  | _ => none

def getCalculated? (c : Cache) (instrument : String) (now : Instant) : Option CalculatedRate :=
  match c.get? (.calculated instrument) now with
  | some (.calculated r) => some r
  | _ => none

def scanned? (instrument : String) (now : Instant) : CacheKey × CacheEntry → Option Rate
  | (.raw _ i, ⟨.raw r, expiresAt⟩) => if i = instrument ∧ now < expiresAt then some r else none
  | _ => none

def scan (c : Cache) (instrument : String) (now : Instant) : List Rate :=
  c.entries.filterMap (scanned? instrument now)

end Cache

end RateDesk
