import RateDesk.Proofs.Settings.Fields
import RateDesk.Proofs.Settings.Paths
import RateDesk.Settings.Load

/-!
# Settings in layers

* `fileTree`, `tree_eq`, `loadFrom_eq_ok` : the configuration of a file alone, and what loading adds to it;
* `Tree.Sectioned` : configurations whose sections are tables;
* `Tree.part?_of_at?`, `Settings.GivenBy.platform` : what stands at the end of a path to a field, and platforms;
* `ScalarSetting` : the settings that the environment may give;
* `at?_steps` : which of two layers a setting is read from;
* `loadFrom_layers` : every setting is that of the environment, or else that of the file, or else the standard one.
-/

namespace RateDesk

open RateDesk.Tree Decoder

variable {t u v f : Tree} {old : Option Tree} {o : Option Origin} {fs : Files} {e : Environment} {path k : String}
  {required : Bool} {s : Settings} {es : List (String × Tree)}

/-! ## Tables -/

namespace Tree

def IsTable : Tree → Prop
  | table .. => True
  | _ => False

instance : (t : Tree) → Decidable t.IsTable
  | table .. => .isTrue trivial
  | leaf .. => .isFalse id
  | list .. => .isFalse id

theorem isTable_withEntry (t : Tree) (k : String) (v : Tree) : (t.withEntry k v).IsTable := by
  cases t <;> trivial

theorem part?_of_isTable (h : t.IsTable) (i : Nat) (name : String) : t.part? i name = t.entry? name := by
  cases t with
  | table o es => rfl
  | leaf o x => cases h
  | list o ts => cases h

/-- A path begins with a name. -/
theorem stepsOf_eq_entry (key : String) : ∃ k r, stepsOf key = .entry k :: r := by
  cases h : readPath key.toList with
  | none => exact ⟨key, [], by rw [stepsOf, h]; rfl⟩
  | some r =>
    obtain ⟨k, r', rfl⟩ : ∃ k r', r = .entry k :: r' := by
      simp only [readPath, bind, Option.bind] at h
      split at h
      · cases h
      · split at h
        · cases h
        · cases h
          exact ⟨_, _, rfl⟩
    exact ⟨k, r', by rw [stepsOf, h]; rfl⟩

theorem isTable_assignAll (h : t.IsTable) (es : List (String × Tree)) : (t.assignAll es).IsTable := by
  induction es generalizing t with
  | nil => exact h
  | cons e es ih =>
    obtain ⟨k, r, hsteps⟩ := stepsOf_eq_entry e.1
    refine ih ?_
    simp only [hsteps, assign]
    exact isTable_withEntry _ _ _

/-! ### Documents -/

theorem entry?_overlayEntries (hn : (es.map Prod.fst).Nodup) (t : Tree) (k : String) :
    Tree.entry? (overlayEntries t es) k = ((es.lookup k).map fun v => overlay (t.entry? k) v).or (t.entry? k) := by
  induction es generalizing t with
  | nil => rfl
  | cons e es ih =>
    obtain ⟨k₁, v₁⟩ := e
    rw [List.map_cons, List.nodup_cons] at hn
    rw [overlayEntries, ih hn.2, entry?_withEntry, lookup_cons_ite]
    by_cases h : k = k₁
    · subst h
      rw [lookup_eq_none.2 hn.1, if_pos rfl, if_pos rfl]
      rfl
    · rw [if_neg h, if_neg h]

/-- The entries of a document whose keys are plain names are laid over what is there. -/
theorem assignAll_plain (h : ∀ e ∈ es, stepsOf e.1 = [.entry e.1]) (t : Tree) :
    t.assignAll es = overlayEntries t es := by
  induction es generalizing t with
  | nil => rfl
  | cons e es ih =>
    obtain ⟨k, v⟩ := e
    rw [List.forall_mem_cons] at h
    have hstep : assign v false (some t) (stepsOf k) = t.withEntry k (overlay (t.entry? k) v) := by
      rw [h.1]
      rfl
    rw [overlayEntries, ← ih h.2, ← hstep]
    rfl

/-- What a document of tables gives for a name, and for a name in a section. -/
theorem at?_document (hplain : ∀ e ∈ es, stepsOf e.1 = [.entry e.1]) (hn : (es.map Prod.fst).Nodup) (k name : String) :
    (Tree.empty.assignAll es).at? [.entry k] = (es.lookup k).map (overlay none) ∧
    ∀ {o sub}, es.lookup k = some (table o sub) → (sub.map Prod.fst).Nodup →
      (Tree.empty.assignAll es).at? [.entry k, .entry name] = (sub.lookup name).map (overlay none) := by
  have hentry : Tree.entry? (Tree.empty.assignAll es) k = (es.lookup k).map (overlay none) := by
    rw [assignAll_plain hplain, entry?_overlayEntries hn]
    exact Option.or_none
  refine ⟨(at?_singleton _ k).trans hentry, fun {o sub} hsub hn' => ?_⟩
  rw [at?_entry, hentry, hsub, Option.map_some, Option.bind_some, at?_singleton, overlay, entry?_overlayEntries hn']
  exact Option.or_none

/-! ### Sections -/

def sections : List String := ["retry", "cache", "derivation"]

/-- The part under a name, if there is one, is a table. -/
def Tabular (k : String) (t : Tree) : Prop := ∀ u ∈ t.entry? k, u.IsTable

/-- The sections that a configuration has are tables. -/
def Sectioned (t : Tree) : Prop := ∀ k ∈ sections, t.Tabular k

instance (k : String) (t : Tree) : Decidable (t.Tabular k) := inferInstanceAs (Decidable (∀ u ∈ t.entry? k, u.IsTable))

instance (t : Tree) : Decidable t.Sectioned := inferInstanceAs (Decidable (∀ k ∈ sections, t.Tabular k))

/-- Assigning along the path leaves a table under a name: it leads elsewhere, or to an entry of that table. -/
def Spares (k : String) : List Step → Prop
  | .entry _ :: .entry _ :: _ => True
  | .entry k' :: _ => k ≠ k'
  | _ => False

instance (k : String) : (r : List Step) → Decidable (Spares k r)
  | .entry _ :: .entry _ :: _ => .isTrue trivial
  | [.entry k'] => inferInstanceAs (Decidable (k ≠ k'))
  | .entry k' :: .element _ :: _ => inferInstanceAs (Decidable (k ≠ k'))
  | [] => .isFalse id
  | .element _ :: _ => .isFalse id

theorem Tabular.assign {r : List Step} (h : t.Tabular k) (hr : Spares k r) :
    (assign v false (some t) r).Tabular k := by
  cases r with
  | nil => exact absurd hr id
  | cons step r =>
    cases step with
    | element i => exact absurd hr id
    | entry k₁ =>
      intro u hu
      rw [Tree.assign, entry?_withEntry] at hu
      split at hu
      · rename_i heq
        cases r with
        | nil => exact absurd heq hr
        | cons step r =>
          cases step with
          | element i => exact absurd heq hr
          | entry k₂ =>
            cases hu
            exact isTable_withEntry _ _ _
      · exact h u hu

theorem Tabular.assignAll (h : t.Tabular k) (hes : ∀ e ∈ es, Spares k (stepsOf e.1)) :
    (t.assignAll es).Tabular k := by
  induction es generalizing t with
  | nil => exact h
  | cons e es ih =>
    rw [List.forall_mem_cons] at hes
    exact ih (h.assign hes.1) hes.2

/-- The part for a field in a section. -/
theorem part?_section (ht : t.IsTable) (h : t.Tabular k) (i j : Nat) (name : String) :
    ((t.part? i k).bind (·.part? j name)) = t.at? [.entry k, .entry name] := by
  rw [part?_of_isTable ht, at?_entry]
  cases hu : t.entry? k with
  | none => rfl
  | some u => rw [Option.bind_some, Option.bind_some, part?_of_isTable (h u hu), at?_singleton]

/-- A path to a field of a record ends with the name of the field, or with its place. -/
theorem part?_of_at? {home r : List Step} {i : Nat} {name : String}
    (hr : r = home ++ [.entry name] ∨ r = home ++ [.element i]) (hat : t.at? r = some v) :
    ∃ u, t.at? home = some u ∧ u.part? i name = some v := by
  rcases hr with rfl | rfl
  · rw [at?_append] at hat
    obtain ⟨u, hu, hat⟩ := Option.bind_eq_some_iff.1 hat
    exact ⟨u, hu, part?_of_named _ ((at?_singleton u _).symm.trans hat)⟩
  · rw [at?_append] at hat
    obtain ⟨u, hu, hat⟩ := Option.bind_eq_some_iff.1 hat
    obtain ⟨w, hw, hat⟩ := Option.bind_eq_some_iff.1 hat
    cases hat
    rw [placeIn, if_pos (Int.natCast_nonneg _), Int.toNat_natCast] at hw
    exact ⟨u, hu, part?_of_ordered _ hw⟩

end Tree

/-! ## Loading -/

namespace Settings

/-- The configuration that a file gives on its own. -/
def fileTree (fs : Files) (path : String) (required : Bool) : Except SettingsError Tree := do
  return Tree.empty.assignAll (← fileEntries fs path required)

/-- Where settings are loaded, the file can be read. -/
theorem fileTree_of_loadFrom (h : loadFrom fs e path required = .ok s) : ∃ f, fileTree fs path required = .ok f := by
  obtain ⟨t, ht, -⟩ := bind_eq_ok.1 h
  obtain ⟨es, hes, -⟩ := bind_eq_ok.1 ht
  exact ⟨_, bind_eq_ok.2 ⟨es, hes, rfl⟩⟩

theorem tree_of_fileTree (h : fileTree fs path required = .ok f) :
    tree fs e path required = .ok (f.assignAll e.entries) := by
  obtain ⟨es, hes, h⟩ := bind_eq_ok.1 h
  cases h
  exact bind_eq_ok.2 ⟨es, hes, rfl⟩

theorem isTable_of_fileTree (h : fileTree fs path required = .ok f) : f.IsTable := by
  obtain ⟨es, -, h⟩ := bind_eq_ok.1 h
  cases h
  exact isTable_assignAll (t := Tree.empty) trivial es

/-- What is loaded is what the file gives with the environment laid over it. -/
theorem givenBy_of_loadFrom (hfile : fileTree fs path required = .ok f) (hload : loadFrom fs e path required = .ok s) :
    s.GivenBy (f.assignAll e.entries) := by
  obtain ⟨t, ht, hload⟩ := bind_eq_ok.1 hload
  cases (tree_of_fileTree hfile).symm.trans ht
  obtain ⟨s', hs, h⟩ := bind_eq_ok.1 hload
  split at h
  · cases h
  · cases h
    exact Settings.givenBy hs

/-- A platform is read from its own part. -/
theorem GivenBy.platform (hs : s.GivenBy t) {i : Int} (hu : t.at? [.entry "platforms", .element i] = some u) :
    ∃ p, s.platforms[placeIn s.platforms.length i]? = some p ∧ p.GivenBy u := by
  obtain ⟨l, hl, hu⟩ := Option.bind_eq_some_iff.1 hu
  obtain ⟨w, hw, hu⟩ := Option.bind_eq_some_iff.1 hu
  cases hu
  obtain ⟨l', hl', hlist⟩ := hs.platforms
  cases (part?_of_named 0 hl).symm.trans hl'
  have hall := forall₂_of_list hlist
  rw [hall.length_eq] at hw
  obtain ⟨hlt, hw⟩ := List.getElem?_eq_some_iff.1 hw
  have hlt' : placeIn s.platforms.length i < s.platforms.length := hall.length_eq ▸ hlt
  refine ⟨_, List.getElem?_eq_getElem hlt', PlatformSettings.givenBy ?_⟩
  rw [← hw]
  exact hall.get hlt hlt'

end Settings

/-! ## The settings that the environment may give -/

/-- A setting with a scalar for its value, outside of the platforms. -/
inductive ScalarSetting where
  | retryLimit
  | retryDelay
  | timeToLive
  | evictionInterval
  | anchor
  | socketPath
  | healthPort
  | webhookUrl
deriving DecidableEq, Repr

namespace ScalarSetting

def key : ScalarSetting → String
  | retryLimit => "retry.limit"
  | retryDelay => "retry.delay_secs"
  | timeToLive => "cache.ttl_secs"
  | evictionInterval => "cache.eviction_interval_secs"
  | anchor => "derivation.anchor"
  | socketPath => "ipc_socket_path"
  | healthPort => "health_port"
  | webhookUrl => "alert_webhook_url"

def variableName : ScalarSetting → String
  | retryLimit => "fx__retry__limit"
  | retryDelay => "fx__retry__delay_secs"
  | timeToLive => "fx__cache__ttl_secs"
  | evictionInterval => "fx__cache__eviction_interval_secs"
  | anchor => "fx__derivation__anchor"
  | socketPath => "fx__ipc_socket_path"
  | healthPort => "fx__health_port"
  | webhookUrl => "fx__alert_webhook_url"

def steps : ScalarSetting → List Step
  | retryLimit => [.entry "retry", .entry "limit"]
  | retryDelay => [.entry "retry", .entry "delay_secs"]
  | timeToLive => [.entry "cache", .entry "ttl_secs"]
  | evictionInterval => [.entry "cache", .entry "eviction_interval_secs"]
  | anchor => [.entry "derivation", .entry "anchor"]
  | socketPath => [.entry "ipc_socket_path"]
  | healthPort => [.entry "health_port"]
  | webhookUrl => [.entry "alert_webhook_url"]

abbrev Value : ScalarSetting → Type
  | retryLimit => UInt32
  | retryDelay | timeToLive | evictionInterval => UInt64
  | anchor | socketPath => String
  | healthPort => UInt16
  | webhookUrl => Option String

def decoder : (k : ScalarSetting) → Decoder k.Value
  | retryLimit => number32
  | retryDelay | timeToLive | evictionInterval => number64
  | anchor | socketPath => text
  | healthPort => number16
  | webhookUrl => optional text

def standard : (k : ScalarSetting) → k.Value
  | retryLimit => RetrySettings.standard.limit
  | retryDelay => RetrySettings.standard.delaySecs
  | timeToLive => CacheSettings.standard.ttlSecs
  | evictionInterval => CacheSettings.standard.evictionIntervalSecs
  | anchor => Derivation.standard.anchor
  | socketPath => Settings.defaultIpcSocketPath
  | healthPort => Settings.defaultHealthPort
  | webhookUrl => none

def valueIn (s : Settings) : (k : ScalarSetting) → k.Value
  | retryLimit => s.retry.limit
  | retryDelay => s.retry.delaySecs
  | timeToLive => s.cache.ttlSecs
  | evictionInterval => s.cache.evictionIntervalSecs
  | anchor => s.derivation.anchor
  | socketPath => s.ipcSocketPath
  | healthPort => s.healthPort
  | webhookUrl => s.alertWebhookUrl

theorem stepsOf_key (k : ScalarSetting) : stepsOf k.key = k.steps := by
  cases k <;> rfl

/-- A variable gives the key of its setting, in whichever case its name is written. -/
theorem keyOf?_eq_key (x : ScalarSetting) {name : String}
    (h : name.toList.map Environment.lowerChar = x.variableName.toList) : Environment.keyOf? name = some x.key := by
  rw [Environment.keyOf?, h]
  cases x <;> rfl

/-- Assigning one setting stays out of all others. -/
theorem apart_steps {k k' : ScalarSetting} (h : k ≠ k') : Apart k.steps k'.steps := by
  cases k <;> cases k' <;> first | exact absurd rfl h | decide

theorem spares_steps (k : ScalarSetting) : ∀ name ∈ sections, Spares name k.steps := by
  cases k <;> decide

theorem apart_platforms (k : ScalarSetting) : Apart k.steps [.entry "platforms"] := by
  cases k <;> decide

theorem apart_dependents (k : ScalarSetting) : Apart k.steps [.entry "derivation", .entry "dependents"] := by
  cases k <;> decide

/-- A setting is read from the end of its path. -/
theorem gives_valueIn (ht : t.IsTable) (hsections : t.Sectioned) (hs : s.GivenBy t) (k : ScalarSetting) :
    k.decoder.Gives k.standard (t.at? k.steps) (k.valueIn s) := by
  have hretry : t.Tabular "retry" := hsections _ (by decide)
  have hcache : t.Tabular "cache" := hsections _ (by decide)
  have hderivation : t.Tabular "derivation" := hsections _ (by decide)
  cases k with
  | retryLimit =>
    rw [steps, ← part?_section ht hretry 1 0]
    exact hs.retry.nested fun _ _ h => (RetrySettings.givenBy h).limit
  | retryDelay =>
    rw [steps, ← part?_section ht hretry 1 1]
    exact hs.retry.nested fun _ _ h => (RetrySettings.givenBy h).delaySecs
  | timeToLive =>
    rw [steps, ← part?_section ht hcache 2 0]
    exact hs.cache.nested fun _ _ h => (CacheSettings.givenBy h).ttlSecs
  | evictionInterval =>
    rw [steps, ← part?_section ht hcache 2 1]
    exact hs.cache.nested fun _ _ h => (CacheSettings.givenBy h).evictionIntervalSecs
  | anchor =>
    rw [steps, ← part?_section ht hderivation 3 0]
    exact hs.derivation.nested fun _ _ h => (Derivation.givenBy h).anchor
  | socketPath =>
    rw [steps, at?_singleton, ← part?_of_isTable ht 4]
    exact hs.ipcSocketPath
  | healthPort =>
    rw [steps, at?_singleton, ← part?_of_isTable ht 5]
    exact hs.healthPort
  | webhookUrl =>
    rw [steps, at?_singleton, ← part?_of_isTable ht 6]
    exact hs.alertWebhookUrl

end ScalarSetting

/-! ## The environment over a file -/

namespace Environment

/-- The variables for settings name scalar ones only. -/
def NamesScalars (e : Environment) : Prop := ∀ k, e.Gives k → ∃ x : ScalarSetting, k = x.key

theorem NamesScalars.apart {r : List Step} (h : e.NamesScalars) (hr : ∀ x : ScalarSetting, Apart x.steps r) (k : String)
    (hk : e.Gives k) : Apart (stepsOf k) r := by
  obtain ⟨x, rfl⟩ := h k hk
  exact x.stepsOf_key ▸ hr x

/-- A scalar setting is that of the environment, or else that of the file. -/
theorem at?_steps (h : e.NamesScalars) (f : Tree) (x : ScalarSetting) :
    (f.assignAll e.entries).at? x.steps = (e.leaf? x.key).or (f.at? x.steps) := by
  have hapart : ∀ k, e.Gives k → k ≠ x.key → Apart (stepsOf k) x.steps := by
    intro k hk hne
    obtain ⟨y, rfl⟩ := h k hk
    exact y.stepsOf_key ▸ ScalarSetting.apart_steps fun heq => hne (congrArg ScalarSetting.key heq)
  cases hvalue : e.value? x.key with
  | none =>
    rw [leaf?, hvalue]
    refine at?_assignAll_apart fun k hk => hapart k hk ?_
    rintro rfl
    exact not_gives_of_value? hvalue hk
  | some value =>
    rw [leaf?, hvalue, ← x.stepsOf_key]
    exact at?_assignAll_leaf hvalue (x.stepsOf_key ▸ hapart)

theorem sectioned_assignAll (h : e.NamesScalars) (hf : f.Sectioned) : (f.assignAll e.entries).Sectioned := by
  intro name hname
  refine (hf name hname).assignAll fun p hp => ?_
  obtain ⟨x, hx⟩ := h _ (gives_of_mem_entries hp)
  rw [hx, x.stepsOf_key]
  exact x.spares_steps name hname

end Environment

namespace Settings

/-- **Settings in layers.** The file gives its sections as tables, and the variables name scalar settings. Then every
scalar setting that is loaded is the converted value of its variable, or else that of the file, or else the standard
one; platforms and dependents are those of the file. So a setting changes only with its own variable, whatever else the
environment gives. -/
theorem loadFrom_layers (hfile : fileTree fs path required = .ok f) (hsections : f.Sectioned)
    (henv : e.NamesScalars) (hload : loadFrom fs e path required = .ok s) :
    (∀ x : ScalarSetting, x.decoder.Gives x.standard ((e.leaf? x.key).or (f.at? x.steps)) (x.valueIn s)) ∧
    (Decoder.list PlatformSettings.ofTree).Requires (f.at? [.entry "platforms"]) s.platforms ∧
    (Decoder.list Dependent.ofTree).Gives Derivation.standard.dependents
      (f.at? [.entry "derivation", .entry "dependents"]) s.derivation.dependents ∧
    ∀ e' s', e'.NamesScalars → loadFrom fs e' path required = .ok s' →
      ∀ x : ScalarSetting, e'.value? x.key = e.value? x.key → x.valueIn s' = x.valueIn s := by
  have htable := fun e => isTable_assignAll (isTable_of_fileTree hfile) (Environment.entries e)
  have hvalues : ∀ {e s}, e.NamesScalars → loadFrom fs e path required = .ok s → ∀ x : ScalarSetting,
      x.decoder.Gives x.standard ((e.leaf? x.key).or (f.at? x.steps)) (x.valueIn s) := by
    intro e s henv hload x
    rw [← Environment.at?_steps henv f x]
    exact x.gives_valueIn (htable e) (Environment.sectioned_assignAll henv hsections) (givenBy_of_loadFrom hfile hload)
  have hs := givenBy_of_loadFrom hfile hload
  refine ⟨hvalues henv hload, ?_, ?_, fun e' s' henv' hload' x heq => ?_⟩
  · rw [← Environment.at?_assignAll_apart (e := e) (henv.apart ScalarSetting.apart_platforms), at?_singleton,
      ← part?_of_isTable (htable e) 0]
    exact hs.platforms
  · have hderivation := Environment.sectioned_assignAll henv hsections "derivation" (by decide)
    rw [← Environment.at?_assignAll_apart (e := e) (henv.apart ScalarSetting.apart_dependents),
      ← part?_section (htable e) hderivation 3 1]
    exact hs.derivation.nested fun _ _ h => (Derivation.givenBy h).dependents
  · have h' := hvalues henv' hload' x
    rw [Environment.leaf?, heq] at h'
    exact h'.unique (hvalues henv hload x)

def deskFile : Files where
  texts := [("desk.toml", "retry.limit = 5\n[[platforms]]\nname = \"TCP\"\nkind = \"streaming\"\nusername = \"desk\"\n" ++
    "password = \"pw\"\ninstruments = [\"USDTRY\"]\n")]

def deskVariables : Environment where
  bindings := [("FX__RETRY__DELAY_SECS", "3"), ("FX__ALERT_WEBHOOK_URL", "http://desk")]

/-- One field of a section from the file, one from the environment, and a setting that nobody gives. -/
theorem loadFrom_layers_desk : ∃ f s, fileTree deskFile "desk" true = .ok f ∧ f.Sectioned ∧ deskVariables.NamesScalars ∧
    loadFrom deskFile deskVariables "desk" true = .ok s ∧
      s.retry.limit = 5 ∧ s.retry.delaySecs = 3 ∧ s.healthPort = 9090 := by
  have hfile : (fileTree deskFile "desk" true).toOption.any (fun f => f.Sectioned ∧
      (f.at? [.entry "retry", .entry "limit"]).bind scalar? = some (.integer 5) ∧
      (f.at? [.entry "health_port"]).isNone) := by decide +kernel
  obtain ⟨f, hf, hcheck⟩ := (Option.any_eq_true _ _).1 hfile
  obtain ⟨hsections, hlimit, hport⟩ := of_decide_eq_true hcheck
  have hvariables : deskVariables.NamesScalars := by
    rintro k ⟨b, hb, hk⟩
    rcases List.mem_cons.1 hb with rfl | hb
    · exact ⟨.retryDelay, Option.some.inj (hk.symm.trans (ScalarSetting.retryDelay.keyOf?_eq_key rfl))⟩
    · cases List.mem_singleton.1 hb
      exact ⟨.webhookUrl, Option.some.inj (hk.symm.trans (ScalarSetting.webhookUrl.keyOf?_eq_key rfl))⟩
  have hload : (loadFrom deskFile deskVariables "desk" true).toOption.isSome := by decide +kernel
  obtain ⟨s, hs⟩ := Option.isSome_iff_exists.1 hload
  rw [toOption_eq_some] at hf hs
  obtain ⟨hvalues, -⟩ := loadFrom_layers hf hsections hvariables hs
  refine ⟨f, s, hf, hsections, hvariables, hs, ?_, ?_, ?_⟩
  · obtain ⟨t, ht, hscalar⟩ := Option.bind_eq_some_iff.1 hlimit
    obtain ⟨o, rfl⟩ := scalar?_eq_some.1 hscalar
    have hvalue := hvalues .retryLimit
    rw [show deskVariables.leaf? ScalarSetting.retryLimit.key = none by decide, Option.none_or, ScalarSetting.steps, ht]
      at hvalue
    exact (Except.ok.inj hvalue).symm
  · exact (Except.ok.inj (hvalues .retryDelay)).symm
  · have hvalue := hvalues .healthPort
    rw [show deskVariables.leaf? ScalarSetting.healthPort.key = none by decide, Option.none_or, ScalarSetting.steps,
      Option.isNone_iff_eq_none.1 hport] at hvalue
    exact hvalue

end Settings

end RateDesk
