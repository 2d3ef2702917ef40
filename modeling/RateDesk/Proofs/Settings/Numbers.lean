import RateDesk.Proofs.Number.Integers
import RateDesk.Proofs.Settings.Layers

/-!
# Integers in settings

* `Scalar.ofInt` : what a source makes of an integer, whether it is a TOML text, a JSON text or a variable:
  `Toml.ofToml_integer`, `ofJson_number`, `scalarOf_of_writes`;
* `admitted`, `number_ofInt` : the number that is read where an integer is given;
* `NarrowSetting` : the settings that are kept in 16 or 32 bits;
* `NarrowSetting.Written` : an integer is given for a setting, in the file or in the environment;
* `loadFrom_narrow` : the number that is loaded, and when it is the integer that was given;
* `loadFrom_truncated` : a port that is changed.
-/

namespace RateDesk

open Text RateDesk.Tree Decoder

variable {t u f : Tree} {o : Option Origin} {fs : Files} {e : Environment} {path : String} {required : Bool}
  {s : Settings} {n : Int} {m : Nat}

/-! ## Integers in sources -/

/-- The scalar that a source makes of an integer: a float if 64 bits do not hold it. -/
def Scalar.ofInt (n : Int) : Scalar := if Signed64 n then .integer n else .real (Binary64.ofInt n)

/-- Zero fits in 64 bits. -/
theorem ne_zero_of_not_signed64 (h : ¬ Signed64 n) : n ≠ 0 := by
  rintro rfl
  exact h (by decide)

theorem ofNumber_of_writes {literal : List Char} (h : Writes literal n) : ofNumber literal = .ofInt n := by
  by_cases hn : Signed64 n
  · rw [ofNumber, signed64?_of_writes h hn, Scalar.ofInt, if_pos hn]
  · rw [ofNumber, signed64?_eq_none h hn, Binary64.read_of_writes h (ne_zero_of_not_signed64 hn), Scalar.ofInt,
      if_neg hn]
    rfl

/-- An integer in a JSON text. -/
theorem ofJson_number {literal : List Char} (h : Writes literal n) (o : Origin) :
    ofJson o (.number literal) = .leaf (some o) (.ofInt n) := by
  rw [ofJson, ofNumber_of_writes h]

/-- A numeral begins neither like a word for yes nor like one for no. -/
theorem lower_ne_of_writes {s : List Char} (h : Writes s n) : s.map Char.toLower ≠ "true".toList ∧
    s.map Char.toLower ≠ "false".toList := by
  cases h with
  | plain h => exact ⟨Binary64.lower_ne_of_numeral? h (by decide), Binary64.lower_ne_of_numeral? h (by decide)⟩
  | plus h => simp
  | minus h => simp

/-- An integer in the value of a variable. -/
theorem scalarOf_of_writes {value : String} (h : Writes value.toList n) : Environment.scalarOf value = .ofInt n := by
  obtain ⟨htrue, hfalse⟩ := lower_ne_of_writes h
  rw [Environment.scalarOf, if_neg htrue, if_neg hfalse]
  by_cases hn : Signed64 n
  · rw [signed64?_of_writes h hn, Scalar.ofInt, if_pos hn]
  · rw [signed64?_eq_none h hn, Binary64.read_of_writes h (ne_zero_of_not_signed64 hn), Scalar.ofInt, if_neg hn]

theorem Toml.signed64_of_inRadix? {radix : Nat} {s : List Char} (h : inRadix? radix s = some n) : Signed64 n := by
  obtain ⟨ds, -, h⟩ := Option.bind_eq_some_iff.1 h
  obtain ⟨k, -, h⟩ := Option.bind_eq_some_iff.1 h
  split at h
  · rename_i hk
    cases h
    exact ⟨by omega, by exact_mod_cast hk⟩
  · cases h

/-- An integer in a TOML text: what 64 bits do not hold is no integer there. -/
theorem Toml.ofToml_integer {s : List Char} (h : integer? s = some n) (o : Origin) :
    ofToml o (.integer n) = .leaf (some o) (.ofInt n) := by
  have hn : Signed64 n := by
    unfold integer? at h
    split at h
    · exact signed64_of_inRadix? h
    · exact signed64_of_inRadix? h
    · exact signed64_of_inRadix? h
    · obtain ⟨ds, -, h⟩ := Option.bind_eq_some_iff.1 h
      exact signed64_of_signed64? h
    · obtain ⟨ds, -, h⟩ := Option.bind_eq_some_iff.1 h
      exact signed64_of_signed64? h
  rw [ofToml, Scalar.ofInt, if_pos hn]

/-! ## Integers where a number is wanted -/

/-- The number that is read where an integer is given. A negative one is refused if 64 bits hold it; what they do not
hold is rounded as a float. -/
def admitted (n : Int) : Option Nat :=
  if Signed64 n then if 0 ≤ n then some n.toNat else none else some (Binary64.ofInt n).toNat64

theorem number_ofInt (h : number (.leaf o (.ofInt n)) = .ok m) : admitted n = some m := by
  unfold admitted
  unfold Scalar.ofInt at h
  split at h
  · rename_i hn
    rw [if_pos hn]
    unfold number at h
    dsimp only at h
    split at h
    · rename_i hpos
      cases h
      exact if_pos hpos
    · cases h
  · rename_i hn
    cases h
    exact if_neg hn

theorem number16_ofInt {a : UInt16} (h : number16 (.leaf o (.ofInt n)) = .ok a) :
    ∃ m, admitted n = some m ∧ a.toNat = m % 2 ^ 16 := by
  obtain ⟨m, hm, h⟩ := bind_eq_ok.1 h
  cases h
  exact ⟨m, number_ofInt hm, UInt16.toNat_ofNat'⟩

theorem number32_ofInt {a : UInt32} (h : number32 (.leaf o (.ofInt n)) = .ok a) :
    ∃ m, admitted n = some m ∧ a.toNat = m % 2 ^ 32 := by
  obtain ⟨m, hm, h⟩ := bind_eq_ok.1 h
  cases h
  exact ⟨m, number_ofInt hm, UInt32.toNat_ofNat'⟩

/-- An integer is never taken for a missing value. -/
theorem optional_ofInt {α : Type} {d : Decoder α} {b : Option α} (h : optional d (.leaf o (.ofInt n)) = .ok b) :
    ∃ a, b = some a ∧ d (.leaf o (.ofInt n)) = .ok a := by
  refine optional_leaf ?_ h
  unfold Scalar.ofInt
  split <;> nofun

/-- An integer is let in as itself if 64 bits hold it and it is not negative. -/
theorem admitted_of_signed64 (hn : Signed64 n) (h : admitted n = some m) : (m : Int) = n := by
  rw [admitted, if_pos hn] at h
  split at h
  · cases h
    omega
  · cases h

/-- Negative integers are refused, or become zero. -/
theorem admitted_of_neg (hn : n < 0) (h : admitted n = some m) : m = 0 := by
  unfold admitted at h
  split at h
  · rw [if_neg (by omega)] at h
    cases h
  · cases h
    exact Binary64.toNat64_ofInt_of_neg hn

/-! ## Narrow settings -/

/-- A setting that is kept in 16 or 32 bits; a place counts platforms as it does in a path. -/
inductive NarrowSetting where
  | healthPort
  | retryLimit
  | port (place : Int)
  | maxPollFailures (place : Int)
deriving DecidableEq, Repr

namespace NarrowSetting

def bits : NarrowSetting → Nat
  | healthPort | port _ => 16
  | retryLimit | maxPollFailures _ => 32

/-- What fits in a setting fits in 64 bits. -/
theorem signed64_of_lt {x : NarrowSetting} (hpos : 0 ≤ n) (hlt : n < 2 ^ x.bits) : Signed64 n := by
  have hbits : 2 ^ x.bits ≤ 2 ^ 32 := Nat.pow_le_pow_right (by decide) (by cases x <;> simp [bits])
  have hpow : (2 : Int) ^ x.bits ≤ 2 ^ 32 := by exact_mod_cast hbits
  have h63 : (2 : Int) ^ 32 ≤ (twoPow 63 : Int) := by decide
  exact ⟨by omega, by omega⟩

/-- The path to the record that a setting is a field of. -/
def home : NarrowSetting → List Step
  | healthPort => []
  | retryLimit => [.entry "retry"]
  | port i | maxPollFailures i => [.entry "platforms", .element i]

def field : NarrowSetting → String
  | healthPort => "health_port"
  | retryLimit => "limit"
  | port _ => "port"
  | maxPollFailures _ => "max_poll_failures"

/-- The place of a setting in a record that is given as a list. -/
def index : NarrowSetting → Nat
  | healthPort => 5
  | retryLimit => 0
  | port _ => 3
  | maxPollFailures _ => 10

def IsPath (x : NarrowSetting) (r : List Step) : Prop :=
  r = x.home ++ [.entry x.field] ∨ r = x.home ++ [.element x.index]

/-- The number that a setting is; none for a port or a platform that is not there. -/
def numberIn (s : Settings) : NarrowSetting → Option Nat
  | healthPort => some s.healthPort.toNat
  | retryLimit => some s.retry.limit.toNat
  | port i => (s.platforms[placeIn s.platforms.length i]?).bind fun p => p.port.map UInt16.toNat
  | maxPollFailures i => (s.platforms[placeIn s.platforms.length i]?).map fun p => p.maxPollFailures.toNat

/-- The part at the end of a path to a setting is the part for a field of a record. -/
theorem part?_of_isPath {x : NarrowSetting} {r : List Step} {v : Tree} (hr : x.IsPath r) (hat : t.at? r = some v) :
    ∃ u, t.at? x.home = some u ∧ u.part? x.index x.field = some v :=
  part?_of_at? hr hat

/-- The part for a setting gives its low bits. -/
theorem numberIn_of_part? (hs : s.GivenBy t) {x : NarrowSetting} (hu : t.at? x.home = some u)
    (hpart : u.part? x.index x.field = some (.leaf o (.ofInt n))) :
    ∃ m, admitted n = some m ∧ x.numberIn s = some (m % 2 ^ x.bits) := by
  cases x with
  | healthPort =>
    cases hu
    have h := hs.healthPort
    rw [show t.part? 5 "health_port" = _ from hpart] at h
    obtain ⟨m, hm, hport⟩ := number16_ofInt h
    exact ⟨m, hm, congrArg some hport⟩
  | retryLimit =>
    have h := hs.retry
    rw [part?_of_named 1 ((at?_singleton t _).symm.trans hu)] at h
    have h := (RetrySettings.givenBy h).limit
    rw [show u.part? 0 "limit" = _ from hpart] at h
    obtain ⟨m, hm, hlimit⟩ := number32_ofInt h
    exact ⟨m, hm, congrArg some hlimit⟩
  | port i =>
    obtain ⟨p, hp, hgiven⟩ := hs.platform hu
    have h := hgiven.port
    rw [show u.part? 3 "port" = _ from hpart] at h
    obtain ⟨a, ha, h⟩ := optional_ofInt h
    obtain ⟨m, hm, hport⟩ := number16_ofInt h
    refine ⟨m, hm, ?_⟩
    rw [numberIn, hp, Option.bind_some, ha, Option.map_some, hport]
    rfl
  | maxPollFailures i =>
    obtain ⟨p, hp, hgiven⟩ := hs.platform hu
    have h := hgiven.maxPollFailures
    rw [show u.part? 10 "max_poll_failures" = _ from hpart] at h
    obtain ⟨m, hm, hlimit⟩ := number32_ofInt h
    refine ⟨m, hm, ?_⟩
    rw [numberIn, hp, Option.map_some, hlimit]
    rfl

/-- An integer is given for a setting, and counts. -/
inductive Written (x : NarrowSetting) (f : Tree) (e : Environment) (n : Int) : Prop
  /-- In the file; the environment leaves it as it is. -/
  | inFile {r : List Step} {o : Option Origin} (hr : x.IsPath r) (hat : f.at? r = some (.leaf o (.ofInt n)))
      (hkept : (f.assignAll e.entries).at? r = f.at? r)
  /-- In the value of a variable; no other variable changes it. -/
  | inVariable {k value : String} (hr : x.IsPath (stepsOf k)) (hvalue : e.value? k = some value)
      (hnumeral : Writes value.toList n)
      (hkept : (f.assignAll e.entries).at? (stepsOf k) = some (.leaf (some .environment) (Environment.scalarOf value)))

/-- An integer in the file counts if the paths of all variables are apart from its own. -/
theorem Written.of_file {x : NarrowSetting} {r : List Step} (hr : x.IsPath r)
    (hat : f.at? r = some (.leaf o (.ofInt n))) (h : ∀ k, e.Gives k → Apart (stepsOf k) r) : x.Written f e n :=
  .inFile hr hat (Environment.at?_assignAll_apart h)

/-- An integer in a variable counts if the paths of all others are apart from its own. -/
theorem Written.of_variable {x : NarrowSetting} {k value : String} (hr : x.IsPath (stepsOf k))
    (hvalue : e.value? k = some value) (hnumeral : Writes value.toList n)
    (h : ∀ k', e.Gives k' → k' ≠ k → Apart (stepsOf k') (stepsOf k)) : x.Written f e n :=
  .inVariable hr hvalue hnumeral (Environment.at?_assignAll_leaf hvalue h)

/-- What is written stands in the configuration that is read. -/
theorem Written.at? {x : NarrowSetting} (h : x.Written f e n) :
    ∃ r o, x.IsPath r ∧ (f.assignAll e.entries).at? r = some (.leaf o (.ofInt n)) := by
  cases h with
  | inFile hr hat hkept => exact ⟨_, _, hr, hkept.trans hat⟩
  | inVariable hr _ hnumeral hkept => exact ⟨_, _, hr, scalarOf_of_writes hnumeral ▸ hkept⟩

end NarrowSetting

namespace Settings

open NarrowSetting

/-- **Integers in settings.** An integer is written for a setting of 16 or 32 bits, in the file or in a variable. If
settings are loaded, the setting has the low bits of the number that the integer is admitted as: itself where 64 bits
hold it and it is not negative, and refused where they hold it and it is negative; otherwise the nearest float, rounded.
So the setting is the integer exactly if the integer fits: what does not fit is changed, not refused. -/
theorem loadFrom_narrow {x : NarrowSetting} (hfile : fileTree fs path required = .ok f) (hn : x.Written f e n)
    (hload : loadFrom fs e path required = .ok s) :
    ∃ m, admitted n = some m ∧ x.numberIn s = some (m % 2 ^ x.bits) ∧
      (((m % 2 ^ x.bits : Nat) : Int) = n ↔ 0 ≤ n ∧ n < 2 ^ x.bits) := by
  obtain ⟨r, o, hr, hat⟩ := hn.at?
  obtain ⟨u, hu, hpart⟩ := part?_of_isPath hr hat
  obtain ⟨m, hm, hnumber⟩ := numberIn_of_part? (givenBy_of_loadFrom hfile hload) hu hpart
  refine ⟨m, hm, hnumber, fun heq => ?_, fun ⟨hpos, hlt⟩ => ?_⟩
  · have hbound : m % 2 ^ x.bits < 2 ^ x.bits := Nat.mod_lt _ (Nat.two_pow_pos _)
    exact ⟨by omega, by rw [← heq]; exact_mod_cast hbound⟩
  · have hsigned := signed64_of_lt hpos hlt
    have hmn := admitted_of_signed64 hsigned hm
    have hsmall : m < 2 ^ x.bits := by rw [← hmn] at hlt; exact_mod_cast hlt
    rw [Nat.mod_eq_of_lt hsmall, hmn]

def largePort : Files where
  texts := [("desk.toml", "health_port = 70000\n[[platforms]]\nname = \"TCP\"\nkind = \"streaming\"\n" ++
    "username = \"desk\"\npassword = \"pw\"\ninstruments = [\"USDTRY\"]\n")]

/-- A port that is too large is loaded as another one. -/
theorem loadFrom_truncated : ∃ f s, fileTree largePort "desk" true = .ok f ∧ NarrowSetting.healthPort.Written f ⟨[]⟩ 70000 ∧
    loadFrom largePort ⟨[]⟩ "desk" true = .ok s ∧ NarrowSetting.healthPort.numberIn s = some 4464 := by
  have hfile : (fileTree largePort "desk" true).toOption.any (fun f =>
      (f.at? [.entry "health_port"]).bind scalar? = some (.ofInt 70000)) := by decide +kernel
  have hload : (loadFrom largePort ⟨[]⟩ "desk" true).toOption.any (fun s => s.healthPort = 4464) := by decide +kernel
  obtain ⟨f, hf, hscalar⟩ := (Option.any_eq_true _ _).1 hfile
  obtain ⟨s, hs, hport⟩ := (Option.any_eq_true _ _).1 hload
  obtain ⟨t, ht, hscalar⟩ := Option.bind_eq_some_iff.1 (of_decide_eq_true hscalar)
  obtain ⟨o, rfl⟩ := scalar?_eq_some.1 hscalar
  have hwritten : NarrowSetting.healthPort.Written f ⟨[]⟩ 70000 :=
    .of_file (Or.inl rfl) ht fun k ⟨b, hb, _⟩ => absurd hb List.not_mem_nil
  refine ⟨f, s, toOption_eq_some.1 hf, hwritten, toOption_eq_some.1 hs, ?_⟩
  exact congrArg some (congrArg UInt16.toNat (of_decide_eq_true hport))

/-- The port of a platform, in a variable. -/
theorem loadFrom_narrow_port : ∃ f s, fileTree deskFile "desk" true = .ok f ∧
    (port 0).Written f ⟨[("FX__PLATFORMS[0]__PORT", "9000")]⟩ 9000 ∧
    loadFrom deskFile ⟨[("FX__PLATFORMS[0]__PORT", "9000")]⟩ "desk" true = .ok s ∧
      (port 0).numberIn s = some 9000 := by
  have hload : (loadFrom deskFile ⟨[("FX__PLATFORMS[0]__PORT", "9000")]⟩ "desk" true).toOption.isSome := by
    decide +kernel
  obtain ⟨s, hs⟩ := Option.isSome_iff_exists.1 hload
  rw [toOption_eq_some] at hs
  obtain ⟨f, hf⟩ := fileTree_of_loadFrom hs
  have hwritten : (port 0).Written f ⟨[("FX__PLATFORMS[0]__PORT", "9000")]⟩ 9000 := by
    refine Written.of_variable (Or.inl (rfl : stepsOf "platforms[0].port" = _)) (rfl : _ = some "9000")
      (.plain (k := 9000) rfl) ?_
    rintro k ⟨b, hb, hk⟩ hne
    cases List.mem_singleton.1 hb
    exact absurd (Option.some.inj (hk.symm.trans rfl)) hne
  obtain ⟨m, -, hnumber, hiff⟩ := loadFrom_narrow hf hwritten hs
  refine ⟨f, s, hf, hwritten, hs, hnumber.trans (congrArg some ?_)⟩
  exact_mod_cast hiff.2 (by decide)

end Settings

end RateDesk
