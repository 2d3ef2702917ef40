import RateDesk.Settings.Error

/-!
# Settings from a configuration tree

Scalars convert freely between texts, numbers and truth values; a record may be given as a table, or
as a list of its fields in order. Main definitions: `Record`, `Settings.ofTree`.
-/

namespace RateDesk

open Text

/-- What a part of a configuration gives, or why it gives nothing. -/
abbrev Decoder (α : Type) := Tree → Except SettingsError α

namespace Decoder

/-! ## Scalars -/

def refuse {α : Type} (origin : Option Origin) (found expected : String) : Except SettingsError α :=
  .error (.unconvertible found expected [] origin)

/-- A text; numbers and truth values are printed. -/
def text : Decoder String
  | .leaf _ (.text s) => .ok s
  | .leaf _ (.flag b) => .ok (if b then "true" else "false")
  | .leaf _ (.integer n) => .ok (String.ofList (printInt n))
  | .leaf _ (.real x) => .ok (String.ofList x.print)
  | .leaf o .nothing => refuse o Scalar.nothing.describe "a string"
  | .list o _ => refuse o "sequence" "a string"
  | .table o _ => refuse o "map" "a string"

/-- The number that a text means: a word for yes or no, or a numeral of 64 bits. -/
def numberOfText? (s : String) : Option Nat :=
  let word := s.toList.map Char.toLower
  if word = "true".toList ∨ word = "on".toList ∨ word = "yes".toList then some 1
  else if word = "false".toList ∨ word = "off".toList ∨ word = "no".toList then some 0
  else unsigned? (twoPow 64) s.toList

/-- A number below `2 ^ 64`: floats are rounded, truth values count as one and zero, texts are
read. -/
def number : Decoder Nat
  | .leaf o (.integer n) =>
    if 0 ≤ n then .ok n.toNat
    else
      refuse o ("integer 64 bit `" ++ String.ofList (printInt n) ++ "`") "an unsigned 64 bit or less integer"
  | .leaf _ (.flag b) => .ok (if b then 1 else 0)
  | .leaf _ (.real x) => .ok x.toNat64
  | .leaf o (.text s) =>
    match numberOfText? s with
    | some n => .ok n
    | none => refuse o (Scalar.text s).describe "an integer"
  | .leaf o .nothing => refuse o Scalar.nothing.describe "an integer"
  | .list o _ => refuse o "sequence" "an integer"
  | .table o _ => refuse o "map" "an integer"

def number16 : Decoder UInt16 := fun t => do return UInt16.ofNat (← number t)

def number32 : Decoder UInt32 := fun t => do return UInt32.ofNat (← number t)

def number64 : Decoder UInt64 := fun t => do return UInt64.ofNat (← number t)

/-! ## Options and lists -/

def optional {α : Type} (d : Decoder α) : Decoder (Option α)
  | .leaf _ .nothing => .ok none
  | t => do return some (← d t)

/-- The error of a decoder with a step put in front of its place. -/
def within {α : Type} (s : KeySegment) (x : Except SettingsError α) : Except SettingsError α :=
  match x with
  | .ok a => .ok a
  | .error e => .error (e.within s)

/-- Elements from the one at `i` on. -/
def elementsFrom {α : Type} (d : Decoder α) (i : Nat) : List Tree → Except SettingsError (List α)
  | [] => .ok []
  | t :: ts => do
    let x ← within (.element i) (d t)
    return x :: (← elementsFrom d (i + 1) ts)

def list {α : Type} (d : Decoder α) : Decoder (List α)
  | .list _ ts => elementsFrom d 0 ts
  | t => .error (.misshapen t.describe "a sequence")

end Decoder

/-! ## Records -/

/-- The parts of a record: named ones, or ones in the order of the fields. -/
inductive Record where
  | named (entries : List (String × Tree))
  | ordered (expected : String) (elements : List Tree)

namespace Record

def ofTree (name : String) (size : Nat) : Decoder Record
  | .table _ es => .ok (named es)
  | .list _ ts => .ok (ordered ("struct " ++ name ++ " with " ++ toString size ++ " elements") ts)
  | t => .error (.misshapen t.describe ("struct " ++ name))

/-- The value of the field `name`, the one at place `i`, if it is given. -/
def get? {α : Type} (r : Record) (i : Nat) (name : String) (d : Decoder α) : Except SettingsError (Option α) :=
  match r with
  | named es =>
    match es.lookup name with
    | some t => do return some (← Decoder.within (.field name) (d t))
    | none => .ok none
  | ordered _ ts =>
    match ts[i]? with
    | some t => do return some (← Decoder.within (.element i) (d t))
    | none => .ok none

def require {α : Type} (r : Record) (i : Nat) (name : String) : Option α → Except SettingsError α
  | some x => .ok x
  | none =>
    match r with
    | named _ => .error (.missingField name)
    | ordered expected _ => .error (.tooShort i expected)

end Record

/-! ## Settings -/

namespace Dependent

def ofTree : Decoder Dependent := fun t => do
  let r ← Record.ofTree "DependentRate" 2 t
  let source ← r.get? 0 "source" Decoder.text
  let output ← r.get? 1 "output" Decoder.text
  return ⟨← r.require 0 "source" source, ← r.require 1 "output" output⟩

end Dependent

namespace Derivation

def ofTree : Decoder Derivation := fun t => do
  let r ← Record.ofTree "DerivationConfig" 2 t
  let anchor ← r.get? 0 "anchor" Decoder.text
  let dependents ← r.get? 1 "dependents" (Decoder.list Dependent.ofTree)
  return ⟨anchor.getD standard.anchor, dependents.getD standard.dependents⟩

end Derivation

namespace RetrySettings

def ofTree : Decoder RetrySettings := fun t => do
  let r ← Record.ofTree "RetryConfig" 2 t
  let limit ← r.get? 0 "limit" Decoder.number32
  let delay ← r.get? 1 "delay_secs" Decoder.number64
  return ⟨limit.getD standard.limit, delay.getD standard.delaySecs⟩

end RetrySettings

namespace CacheSettings

def ofTree : Decoder CacheSettings := fun t => do
  let r ← Record.ofTree "CacheConfig" 2 t
  let ttl ← r.get? 0 "ttl_secs" Decoder.number64
  let interval ← r.get? 1 "eviction_interval_secs" Decoder.number64
  return ⟨ttl.getD standard.ttlSecs, interval.getD standard.evictionIntervalSecs⟩

end CacheSettings

namespace PlatformSettings

def ofTree : Decoder PlatformSettings := fun t => do
  let r ← Record.ofTree "PlatformConfig" 11 t
  let name ← r.get? 0 "name" Decoder.text
  let kind ← r.get? 1 "kind" Decoder.text
  let host ← r.get? 2 "host" (Decoder.optional Decoder.text)
  let port ← r.get? 3 "port" (Decoder.optional Decoder.number16)
  let baseUrl ← r.get? 4 "base_url" (Decoder.optional Decoder.text)
  let username ← r.get? 5 "username" Decoder.text
  let password ← r.get? 6 "password" Decoder.text
  let instruments ← r.get? 7 "instruments" (Decoder.list Decoder.text)
  let interval ← r.get? 8 "poll_interval_ms" Decoder.number64
  let timeout ← r.get? 9 "read_timeout_secs" Decoder.number64
  let failures ← r.get? 10 "max_poll_failures" Decoder.number32
  return {
    name := ← r.require 0 "name" name
    kind := ← r.require 1 "kind" kind
    host := host.join
    port := port.join
    baseUrl := baseUrl.join
    username := ← r.require 5 "username" username
    password := ← r.require 6 "password" password
    instruments := ← r.require 7 "instruments" instruments
    pollIntervalMs := interval.getD defaultPollIntervalMs
    readTimeoutSecs := timeout.getD defaultReadTimeoutSecs
    maxPollFailures := failures.getD defaultMaxPollFailures }

end PlatformSettings

namespace Settings

def ofTree : Decoder Settings := fun t => do
  let r ← Record.ofTree "Settings" 7 t
  let platforms ← r.get? 0 "platforms" (Decoder.list PlatformSettings.ofTree)
  let retry ← r.get? 1 "retry" RetrySettings.ofTree
  let cache ← r.get? 2 "cache" CacheSettings.ofTree
  let derivation ← r.get? 3 "derivation" Derivation.ofTree
  let socket ← r.get? 4 "ipc_socket_path" Decoder.text
  let port ← r.get? 5 "health_port" Decoder.number16
  let webhook ← r.get? 6 "alert_webhook_url" (Decoder.optional Decoder.text)
  return {
    platforms := ← r.require 0 "platforms" platforms
    retry := retry.getD RetrySettings.standard
    cache := cache.getD CacheSettings.standard
    derivation := derivation.getD Derivation.standard
    ipcSocketPath := socket.getD defaultIpcSocketPath
    healthPort := port.getD defaultHealthPort
    alertWebhookUrl := webhook.join }

end Settings

end RateDesk
