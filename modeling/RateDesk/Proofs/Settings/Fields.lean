import RateDesk.Proofs.Outcome
import RateDesk.Settings.Decode

/-!
# What the fields of settings are read from

* `Decoder.Gives`, `Decoder.Requires` : the value of a field, which may be left out or has to be given;
* `Decoder.Found` : what a record answers when it is asked for a field;
* `Tree.part?` : the part of a configuration that stands for a field, in a table or in a list of all fields;
* `PlatformSettings.givenBy`, `Settings.givenBy` and the like : every field is read from its own part, and from
  nothing else.
-/

namespace RateDesk

variable {α β : Type} {t u : Tree} {i : Nat} {name : String}

/-- The part of a configuration that stands for a field of a record. -/
def Tree.part? (t : Tree) (i : Nat) (name : String) : Option Tree :=
  match t with
  | table _ es => es.lookup name
  | list _ ts => ts[i]?
  | leaf .. => none

theorem Tree.part?_of_named (i : Nat) (h : t.entry? name = some u) : t.part? i name = some u := by
  cases t with
  | table o es => exact h
  | leaf o x => cases h
  | list o ts => cases h

theorem Tree.part?_of_ordered (name : String) (h : t.elements[i]? = some u) : t.part? i name = some u := by
  cases t with
  | table o es => cases h
  | leaf o x => cases h
  | list o ts => exact h

/-! ## The value of a field -/

namespace Decoder

variable {d : Decoder α} {D : Decoder β} {standard a b : α} {x : β} {part : Option Tree} {answer : Option α}

/-- The value of a field that may be left out: what its part gives, or else the standard. -/
def Gives (d : Decoder α) (standard : α) : Option Tree → α → Prop
  | none, a => a = standard
  | some t, a => d t = .ok a

/-- The value of a field that has to be given. -/
def Requires (d : Decoder α) (part : Option Tree) (a : α) : Prop := ∃ t, part = some t ∧ d t = .ok a

theorem Gives.unique (ha : d.Gives standard part a) (hb : d.Gives standard part b) : a = b := by
  cases part with
  | none => exact Eq.trans ha (Eq.symm hb)
  | some t => exact Except.ok.inj (Eq.trans (Eq.symm ha) hb)

/-- A field of a record that may itself be left out. -/
theorem Gives.nested {standard : β} {f : β → α} (h : D.Gives standard part x)
    (hfield : ∀ t x, D t = .ok x → d.Gives (f standard) (t.part? i name) (f x)) :
    d.Gives (f standard) (part.bind (·.part? i name)) (f x) := by
  cases part with
  | none => exact congrArg f h
  | some t => exact hfield t x h

/-- A value that may be missing, where there is one. -/
theorem optional_leaf {d : Decoder α} {o : Option Origin} {v : Scalar} {answer : Option α} (hv : v ≠ .nothing)
    (h : optional d (.leaf o v) = .ok answer) : ∃ a, answer = some a ∧ d (.leaf o v) = .ok a := by
  have hsome : optional d (.leaf o v) = (do return some (← d (.leaf o v))) := by
    cases v with
    | nothing => exact absurd rfl hv
    | flag b => rfl
    | integer n => rfl
    | real x => rfl
    | text s => rfl
  obtain ⟨a, ha, h⟩ := bind_eq_ok.1 (hsome ▸ h)
  cases h
  exact ⟨a, rfl, ha⟩

/-- What a record answers when it is asked for a field. -/
inductive Found (d : Decoder α) : Option Tree → Option α → Prop
  | absent : Found d none none
  | given {t : Tree} {a : α} (h : d t = .ok a) : Found d (some t) (some a)

theorem Found.gives (h : d.Found part answer) (standard : α) : d.Gives standard part (answer.getD standard) := by
  cases h with
  | absent => rfl
  | given h => exact h

theorem Found.joined {d : Decoder (Option α)} {answer : Option (Option α)} (h : d.Found part answer) :
    d.Gives none part answer.join := by
  cases h with
  | absent => rfl
  | given h => exact h

theorem Found.requires {r : Record} (h : d.Found part answer) (hrequire : r.require i name answer = .ok a) :
    d.Requires part a := by
  cases h with
  | absent => cases r <;> cases hrequire
  | given h =>
    cases hrequire
    exact ⟨_, rfl, h⟩

theorem within_eq_ok {s : KeySegment} {x : Except SettingsError α} (h : within s x = .ok a) : x = .ok a := by
  cases x with
  | error e => cases h
  | ok a => exact h

/-- The answer that is made from a part, where errors are told with a step in front. -/
theorem found_of_within {s : KeySegment} {part : Option Tree} (h : (match part with
      | some t => do return some (← within s (d t))
      | none => .ok none) = .ok answer) : d.Found part answer := by
  cases part with
  | none =>
    cases h
    exact .absent
  | some t =>
    obtain ⟨a, ha, h⟩ := bind_eq_ok.1 h
    cases h
    exact .given (within_eq_ok ha)

theorem found_of_get? {label : String} {size : Nat} {r : Record} (hr : Record.ofTree label size t = .ok r)
    (h : r.get? i name d = .ok answer) : d.Found (t.part? i name) answer := by
  cases t with
  | leaf o x => cases hr
  | table o es =>
    cases hr
    exact found_of_within h
  | list o ts =>
    cases hr
    exact found_of_within h

theorem forall₂_of_elementsFrom {ts : List Tree} {as : List α} (h : elementsFrom d i ts = .ok as) :
    List.Forall₂ (fun t a => d t = .ok a) ts as := by
  induction ts generalizing i as with
  | nil =>
    cases h
    exact .nil
  | cons t ts ih =>
    obtain ⟨a, ha, h⟩ := bind_eq_ok.1 h
    obtain ⟨as, has, h⟩ := bind_eq_ok.1 h
    cases h
    exact .cons (within_eq_ok ha) (ih has)

/-- Each element of a list is read from its own part. -/
theorem forall₂_of_list {as : List α} (h : list d t = .ok as) :
    List.Forall₂ (fun t a => d t = .ok a) t.elements as := by
  cases t with
  | list o ts => exact forall₂_of_elementsFrom h
  | leaf o x => cases h
  | table o es => cases h

end Decoder

open Decoder

/-! ## The fields of settings -/

/-- A retry policy with the values that a part of a configuration gives. -/
structure RetrySettings.GivenBy (r : RetrySettings) (t : Tree) : Prop where
  limit : number32.Gives standard.limit (t.part? 0 "limit") r.limit
  delaySecs : number64.Gives standard.delaySecs (t.part? 1 "delay_secs") r.delaySecs

theorem RetrySettings.givenBy {r : RetrySettings} (h : ofTree t = .ok r) : r.GivenBy t := by
  obtain ⟨record, hrecord, h⟩ := bind_eq_ok.1 h
  obtain ⟨limit, hlimit, h⟩ := bind_eq_ok.1 h
  obtain ⟨delay, hdelay, h⟩ := bind_eq_ok.1 h
  cases h
  exact ⟨(found_of_get? hrecord hlimit).gives _, (found_of_get? hrecord hdelay).gives _⟩

/-- Life spans with the values that a part of a configuration gives. -/
structure CacheSettings.GivenBy (c : CacheSettings) (t : Tree) : Prop where
  ttlSecs : number64.Gives standard.ttlSecs (t.part? 0 "ttl_secs") c.ttlSecs
  evictionIntervalSecs :
    number64.Gives standard.evictionIntervalSecs (t.part? 1 "eviction_interval_secs") c.evictionIntervalSecs

theorem CacheSettings.givenBy {c : CacheSettings} (h : ofTree t = .ok c) : c.GivenBy t := by
  obtain ⟨record, hrecord, h⟩ := bind_eq_ok.1 h
  obtain ⟨ttl, httl, h⟩ := bind_eq_ok.1 h
  obtain ⟨interval, hinterval, h⟩ := bind_eq_ok.1 h
  cases h
  exact ⟨(found_of_get? hrecord httl).gives _, (found_of_get? hrecord hinterval).gives _⟩

/-- A derivation with the values that a part of a configuration gives. -/
structure Derivation.GivenBy (v : Derivation) (t : Tree) : Prop where
  anchor : text.Gives standard.anchor (t.part? 0 "anchor") v.anchor
  dependents : (Decoder.list Dependent.ofTree).Gives standard.dependents (t.part? 1 "dependents") v.dependents

theorem Derivation.givenBy {v : Derivation} (h : ofTree t = .ok v) : v.GivenBy t := by
  obtain ⟨record, hrecord, h⟩ := bind_eq_ok.1 h
  obtain ⟨anchor, hanchor, h⟩ := bind_eq_ok.1 h
  obtain ⟨dependents, hdependents, h⟩ := bind_eq_ok.1 h
  cases h
  exact ⟨(found_of_get? hrecord hanchor).gives _, (found_of_get? hrecord hdependents).gives _⟩

/-- A platform with the values that a part of a configuration gives. -/
structure PlatformSettings.GivenBy (p : PlatformSettings) (t : Tree) : Prop where
  name : text.Requires (t.part? 0 "name") p.name
  kind : text.Requires (t.part? 1 "kind") p.kind
  host : (optional text).Gives none (t.part? 2 "host") p.host
  port : (optional number16).Gives none (t.part? 3 "port") p.port
  baseUrl : (optional text).Gives none (t.part? 4 "base_url") p.baseUrl
  username : text.Requires (t.part? 5 "username") p.username
  password : text.Requires (t.part? 6 "password") p.password
  instruments : (Decoder.list text).Requires (t.part? 7 "instruments") p.instruments
  pollIntervalMs : number64.Gives defaultPollIntervalMs (t.part? 8 "poll_interval_ms") p.pollIntervalMs
  readTimeoutSecs : number64.Gives defaultReadTimeoutSecs (t.part? 9 "read_timeout_secs") p.readTimeoutSecs
  maxPollFailures : number32.Gives defaultMaxPollFailures (t.part? 10 "max_poll_failures") p.maxPollFailures

theorem PlatformSettings.givenBy {p : PlatformSettings} (h : ofTree t = .ok p) : p.GivenBy t := by
  obtain ⟨record, hrecord, h⟩ := bind_eq_ok.1 h
  obtain ⟨name, hname, h⟩ := bind_eq_ok.1 h
  obtain ⟨kind, hkind, h⟩ := bind_eq_ok.1 h
  obtain ⟨host, hhost, h⟩ := bind_eq_ok.1 h
  obtain ⟨port, hport, h⟩ := bind_eq_ok.1 h
  obtain ⟨baseUrl, hbaseUrl, h⟩ := bind_eq_ok.1 h
  obtain ⟨username, husername, h⟩ := bind_eq_ok.1 h
  obtain ⟨password, hpassword, h⟩ := bind_eq_ok.1 h
  obtain ⟨instruments, hinstruments, h⟩ := bind_eq_ok.1 h
  obtain ⟨interval, hinterval, h⟩ := bind_eq_ok.1 h
  obtain ⟨timeout, htimeout, h⟩ := bind_eq_ok.1 h
  obtain ⟨failures, hfailures, h⟩ := bind_eq_ok.1 h
  obtain ⟨_, hname', h⟩ := bind_eq_ok.1 h
  obtain ⟨_, hkind', h⟩ := bind_eq_ok.1 h
  obtain ⟨_, husername', h⟩ := bind_eq_ok.1 h
  obtain ⟨_, hpassword', h⟩ := bind_eq_ok.1 h
  obtain ⟨_, hinstruments', h⟩ := bind_eq_ok.1 h
  cases h
  exact {
    name := (found_of_get? hrecord hname).requires hname'
    kind := (found_of_get? hrecord hkind).requires hkind'
    host := (found_of_get? hrecord hhost).joined
    port := (found_of_get? hrecord hport).joined
    baseUrl := (found_of_get? hrecord hbaseUrl).joined
    username := (found_of_get? hrecord husername).requires husername'
    password := (found_of_get? hrecord hpassword).requires hpassword'
    instruments := (found_of_get? hrecord hinstruments).requires hinstruments'
    pollIntervalMs := (found_of_get? hrecord hinterval).gives _
    readTimeoutSecs := (found_of_get? hrecord htimeout).gives _
    maxPollFailures := (found_of_get? hrecord hfailures).gives _ }

/-- Settings with the values that a configuration gives. -/
structure Settings.GivenBy (s : Settings) (t : Tree) : Prop where
  platforms : (Decoder.list PlatformSettings.ofTree).Requires (t.part? 0 "platforms") s.platforms
  retry : Decoder.Gives RetrySettings.ofTree .standard (t.part? 1 "retry") s.retry
  cache : Decoder.Gives CacheSettings.ofTree .standard (t.part? 2 "cache") s.cache
  derivation : Decoder.Gives Derivation.ofTree .standard (t.part? 3 "derivation") s.derivation
  ipcSocketPath : text.Gives defaultIpcSocketPath (t.part? 4 "ipc_socket_path") s.ipcSocketPath
  healthPort : number16.Gives defaultHealthPort (t.part? 5 "health_port") s.healthPort
  alertWebhookUrl : (optional text).Gives none (t.part? 6 "alert_webhook_url") s.alertWebhookUrl

theorem Settings.givenBy {s : Settings} (h : ofTree t = .ok s) : s.GivenBy t := by
  obtain ⟨record, hrecord, h⟩ := bind_eq_ok.1 h
  obtain ⟨platforms, hplatforms, h⟩ := bind_eq_ok.1 h
  obtain ⟨retry, hretry, h⟩ := bind_eq_ok.1 h
  obtain ⟨cache, hcache, h⟩ := bind_eq_ok.1 h
  obtain ⟨derivation, hderivation, h⟩ := bind_eq_ok.1 h
  obtain ⟨socket, hsocket, h⟩ := bind_eq_ok.1 h
  obtain ⟨port, hport, h⟩ := bind_eq_ok.1 h
  obtain ⟨webhook, hwebhook, h⟩ := bind_eq_ok.1 h
  obtain ⟨_, hplatforms', h⟩ := bind_eq_ok.1 h
  cases h
  exact {
    platforms := (found_of_get? hrecord hplatforms).requires hplatforms'
    retry := (found_of_get? hrecord hretry).gives _
    cache := (found_of_get? hrecord hcache).gives _
    derivation := (found_of_get? hrecord hderivation).gives _
    ipcSocketPath := (found_of_get? hrecord hsocket).gives _
    healthPort := (found_of_get? hrecord hport).gives _
    alertWebhookUrl := (found_of_get? hrecord hwebhook).joined }

end RateDesk
