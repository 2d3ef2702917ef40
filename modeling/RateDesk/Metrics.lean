import RateDesk.Failure
import RateDesk.Number.Binary64

/-!
# Metrics

Counters and gauges with labels, and their exposition as text: per family a help line, a type line
and one line a sample, families by name and samples by their label values. Main definitions:
`Series`, `Metrics`, `Metrics.count`, `Metrics.set`, `Metrics.text`.
-/

namespace RateDesk

/-- The families of samples. -/
inductive Family where
  | calculated
  | attempts
  | state
  | received
  | rejected
deriving DecidableEq, Repr

namespace Family

def name : Family → String
  | calculated => "fx_calculated_rates_total"
  | attempts => "fx_connection_attempts_total"
  | state => "fx_platform_state"
  | received => "fx_rates_received_total"
  | rejected => "fx_rates_rejected_total"

def help : Family → String
  | calculated => "Calculated rates published"
  | attempts => "Venue connection attempts"
  | state => "Platform state (0 disconnected, 1 connecting, 2 connected, 3 subscribed, 4 failed)"
  | received => "Quotes received from venues"
  | rejected => "Quotes rejected by cross-platform validation"

def type : Family → String
  | state => "gauge"
  | _ => "counter"

def all : List Family := [calculated, attempts, state, received, rejected]

end Family

/-- One counter or gauge. -/
inductive Series where
  /-- Quotes received from a platform: the first one of an instrument, or a later one. -/
  | received (platform : String) (first : Bool)
  /-- Quotes of a platform for an instrument that failed validation. -/
  | rejected (platform instrument : String)
  /-- Calculated rates published for an instrument. -/
  | calculated (instrument : String)
  /-- Connections begun to a platform. -/
  | attempts (platform : String)
  /-- The state code of a platform. -/
  | state (platform : String)
deriving DecidableEq, Repr

namespace Series

def family : Series → Family
  | received .. => .received
  | rejected .. => .rejected
  | calculated _ => .calculated
  | attempts _ => .attempts
  | state _ => .state

def labels : Series → List (String × String)
  | received platform first => [("kind", if first then "first" else "update"), ("platform", platform)]
  | rejected platform instrument => [("instrument", instrument), ("platform", platform)]
  | calculated instrument => [("instrument", instrument)]
  | attempts platform => [("platform", platform)]
  | state platform => [("platform", platform)]

/-- Whether one list of texts comes before another or is the same, text by text. -/
def lexLe : List String → List String → Bool
  | [], _ => true
  | _ :: _, [] => false
  | a :: r, b :: s => a < b || (a == b && lexLe r s)

/-- Whether the label values of one series come before those of another of its family, or are the
same. -/
def le (a b : Series) : Bool := lexLe (a.labels.map Prod.snd) (b.labels.map Prod.snd)

end Series

/-- The series that were touched, each with its value. -/
structure Metrics where
  samples : List (Series × Int)
deriving DecidableEq

namespace Metrics

def empty : Metrics := ⟨[]⟩

/-- The value of a series, zero before it is touched. -/
def value (m : Metrics) (s : Series) : Int := (m.samples.lookup s).getD 0

def set (m : Metrics) (s : Series) (v : Int) : Metrics :=
  ⟨(s, v) :: m.samples.filter (fun p => p.1 ≠ s)⟩

def count (m : Metrics) (s : Series) : Metrics := m.set s (m.value s + 1)

/-! ## Exposition -/

/-- A label value between its quotes: backslash, quote and line feed are escaped. -/
def escape (s : String) : List Char :=
  s.toList.flatMap fun c =>
    if c = '\\' then ['\\', '\\'] else if c = '"' then ['\\', '"'] else if c = '\n' then ['\\', 'n'] else [c]

def label (p : String × String) : List Char := p.1.toList ++ '=' :: '"' :: escape p.2 ++ ['"']

def sampleLine (p : Series × Int) : List Char :=
  p.1.family.name.toList ++ '\x7b' :: List.intercalate [','] (p.1.labels.map label) ++ '\x7d' :: ' ' ::
    (Binary64.ofInt p.2).print

def samplesOf (m : Metrics) (f : Family) : List (Series × Int) :=
  (m.samples.filter fun p => p.1.family = f).mergeSort fun p q => p.1.le q.1

def sampleLines (m : Metrics) : List (List Char) :=
  Family.all.flatMap fun f => (m.samplesOf f).map sampleLine

/-- The lines of a family; none without samples. -/
def familyLines (m : Metrics) (f : Family) : List (List Char) :=
  match m.samplesOf f with
  | [] => []
  | samples =>
    ("# HELP " ++ f.name ++ " " ++ f.help).toList :: ("# TYPE " ++ f.name ++ " " ++ f.type).toList ::
      samples.map sampleLine

def text (m : Metrics) : List Char := (Family.all.flatMap m.familyLines).flatMap (· ++ ['\n'])

/-! ## Registration -/

def register (registered : List Family) : (families : List Family) → Except Failure (List Family)
  | [] => .ok registered
  | f :: fs =>
    if f ∈ registered then .error (.metrics "Duplicate metrics collector registration attempted")
    else register (f :: registered) fs

end Metrics

end RateDesk
