import RateDesk.Decimal.Text
import RateDesk.Failure
import RateDesk.MessagePack.Value
import RateDesk.Quote
import RateDesk.Time.Reader

/-!
# Messages to consumers

A published rate travels as a frame: its length in four bytes, most significant first, and its
MessagePack form, a map with one entry that names the kind. Main definitions: `Message`,
`Message.payload`, `Message.frame?`, `Message.read`.
-/

namespace RateDesk

/-- A published rate. -/
inductive Message where
  | raw (platform : String) (rate : Rate)
  | calculated (rate : CalculatedRate)
deriving DecidableEq

namespace Message

/-! ## Writing -/

def writeRate (timeName instrument : String) (bid ask : Decimal) (time : Timestamp) : List UInt8 :=
  Pack.writeMapHead 4 ++
    Pack.writeText "instrument" ++ Pack.writeText instrument ++
    Pack.writeText "bid" ++ Pack.writeText (toString bid) ++
    Pack.writeText "ask" ++ Pack.writeText (toString ask) ++
    Pack.writeText timeName ++ Pack.writeText (toString time)

def payload : Message → List UInt8
  | raw platform r =>
    Pack.writeMapHead 1 ++ Pack.writeText "Raw" ++ Pack.writeMapHead 2 ++
      Pack.writeText "platform" ++ Pack.writeText platform ++
      Pack.writeText "rate" ++ writeRate "observed_at" r.instrument r.bid r.ask r.observedAt
  | calculated r =>
    Pack.writeMapHead 1 ++ Pack.writeText "Calculated" ++ Pack.writeMapHead 1 ++
      Pack.writeText "rate" ++ writeRate "computed_at" r.instrument r.bid r.ask r.computedAt

/-- The frame of a payload, if its length fits in four bytes. -/
def frameOf (data : List UInt8) : Except Failure (List UInt8) :=
  if data.length < twoPow 32 then .ok (Pack.bigEndian 4 data.length ++ data)
  else .error (.serialization ("Frame too large: " ++ toString data.length ++ " bytes"))

def frame (m : Message) : Except Failure (List UInt8) := frameOf m.payload

/-! ## Reading -/

def decimal? : Pack → Option Decimal
  | .str b => do
    let s ← String.fromUTF8? ⟨b.toArray⟩
    (Decimal.read s.toList).toOption
  | .int n => Decimal.of? n 0
  | .float x => (Decimal.readPlain x.print).toOption
  | _ => none

def timestamp? : Pack → Option Timestamp
  | .str b => do
    let s ← String.fromUTF8? ⟨b.toArray⟩
    Timestamp.readLenient s.toList
  | _ => none

/-- Instrument, bid, ask and time of a rate, the time under a given name. -/
def rate? (timeName : String) (p : Pack) : Option (String × Decimal × Decimal × Timestamp) := do
  match ← p.record? ["instrument", "bid", "ask", timeName] with
  | [instrument, bid, ask, time] =>
    return (← instrument.text?, ← decimal? bid, ← decimal? ask, ← timestamp? time)
  | _ => none

def ofBody? (place : Nat) (body : Pack) : Option Message := do
  match place with
  | 0 =>
    match ← body.record? ["platform", "rate"] with
    | [platform, rate] =>
      let platform ← platform.text?
      let (instrument, bid, ask, time) ← rate? "observed_at" rate
      return .raw platform ⟨instrument, bid, ask, time⟩
    | _ => none
  | _ =>
    match ← body.record? ["rate"] with
    | [rate] =>
      let (instrument, bid, ask, time) ← rate? "computed_at" rate
      return .calculated ⟨instrument, bid, ask, time⟩
    | _ => none

def ofPack? : Pack → Option Message
  | .map [(k, body)] =>
    match Pack.place? ["Raw", "Calculated"] k with
    | .ok (some i) => ofBody? i body
    | _ => none
  | _ => none

/-- Reads a payload; bytes after it are ignored. -/
def read (s : List UInt8) : Option Message := do ofPack? (← Pack.read s).1

/-- Whether two messages agree in everything but the scales of their decimals. -/
def same : Message → Message → Bool
  | raw p r, raw q s => p == q && r.same s
  | calculated r, calculated s => r.same s
  | _, _ => false

end Message

end RateDesk
