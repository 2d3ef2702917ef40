import RateDesk.Proofs.Number.Literals
import RateDesk.Proofs.Settings.Numbers

/-!
# Texts in settings

* `LoadedAs`, `text_scalarOf` : the text that is loaded where a variable gives one, after it was taken for a truth
  value or a number;
* `Verbatim`, `loadedAs_self_iff` : the values that are loaded as they are;
* `TextSetting` : the settings that are texts;
* `TextSetting.Given` : a variable gives a setting;
* `loadFrom_text` : the text that is loaded, and when it is the value of the variable;
* `loadFrom_reprinted` : a password that is changed.
-/

namespace RateDesk

open Text RateDesk.Tree Decoder Binary64

/-! ## Values of variables as texts -/

namespace Environment

variable {s r : List Char} {value w : String} {n : Int} {x : Binary64} {b : Bool} {o : Option Origin}

def word (b : Bool) : List Char := (if b then "true" else "false").toList

/-- What is loaded where a variable gives a text: truth values in lower case, integers of 64 bits and floats as they
are printed, and anything else as it is. -/
inductive LoadedAs : List Char → List Char → Prop
  | truth {s : List Char} {b : Bool} (h : lower s = word b) : LoadedAs s (word b)
  | integer {s : List Char} {n : Int} (h : Writes s n) (hn : Signed64 n) : LoadedAs s (printInt n)
  | real {s : List Char} {x : Binary64} (hinteger : ∀ n, Writes s n → ¬ Signed64 n) (hx : Binary64.read s = some x) :
      LoadedAs s x.print
  | other {s : List Char} (htruth : ∀ b, lower s ≠ word b) (hnumber : ¬ IsLiteral s) : LoadedAs s s

/-- A value that is written as it is printed: a truth value in lower case, an integer without a plus sign and zeros in
front, a float in the fewest digits; or what is neither a truth value nor a number. -/
inductive Verbatim : List Char → Prop
  | truth (b : Bool) : Verbatim (word b)
  | integer {n : Int} (hn : Signed64 n) : Verbatim (printInt n)
  | real {s : List Char} {x : Binary64} (hinteger : ∀ n, Writes s n → ¬ Signed64 n) (hx : Binary64.read s = some x)
      (hprint : x.print = s) : Verbatim s
  | other {s : List Char} (htruth : ∀ b, lower s ≠ word b) (hnumber : ¬ IsLiteral s) : Verbatim s

theorem lower_ne_word (h : IsLiteral s) (b : Bool) : lower s ≠ word b := by
  cases b
  · exact h.lower_ne (by decide) _
  · exact h.lower_ne (by decide) _

/-! ### What a value is taken for -/

theorem scalarOf_word (h : lower value.toList = word b) : scalarOf value = .flag b := by
  have hvalue : value.toList.map Char.toLower = word b := h
  rw [scalarOf, hvalue]
  cases b <;> rfl

theorem scalarOf_of_ne (h : ∀ b, lower value.toList ≠ word b) :
    scalarOf value = match signed64? value.toList with
      | some n => .integer n
      | none =>
        match Binary64.read value.toList with
        | some x => .real x
        | none => .text value := by
  have hvalue (b : Bool) : value.toList.map Char.toLower ≠ word b := h b
  exact (if_neg (hvalue true)).trans (if_neg (hvalue false))

theorem scalarOf_integer (h : Writes value.toList n) (hn : Signed64 n) : scalarOf value = .integer n := by
  rw [scalarOf_of_ne (lower_ne_word (isLiteral_of_writes h)), signed64?_of_writes h hn]

theorem scalarOf_real (hinteger : ∀ n, Writes value.toList n → ¬ Signed64 n) (hx : Binary64.read value.toList = some x) :
    scalarOf value = .real x := by
  have hnone : signed64? value.toList = none := Option.eq_none_iff_forall_ne_some.2 fun n hn =>
    hinteger n (signed64?_eq_some.1 hn).1 (signed64?_eq_some.1 hn).2
  rw [scalarOf_of_ne (lower_ne_word (isSome_read_iff.1 (Option.isSome_of_eq_some hx))), hnone, hx]

theorem scalarOf_text (h : ∀ b, lower value.toList ≠ word b) (hnumber : ¬ IsLiteral value.toList) :
    scalarOf value = .text value := by
  have hnone : signed64? value.toList = none := Option.eq_none_iff_forall_ne_some.2 fun n hn =>
    hnumber (isLiteral_of_writes (signed64?_eq_some.1 hn).1)
  rw [scalarOf_of_ne h, hnone, read_eq_none.2 hnumber]

/-! ### What is loaded -/

/-- Every value is loaded as some text. -/
theorem exists_loadedAs (s : List Char) : ∃ r, LoadedAs s r := by
  by_cases htruth : ∃ b, lower s = word b
  · obtain ⟨b, hb⟩ := htruth
    exact ⟨_, .truth hb⟩
  · by_cases hinteger : ∃ n, Writes s n ∧ Signed64 n
    · obtain ⟨n, h, hn⟩ := hinteger
      exact ⟨_, .integer h hn⟩
    · by_cases hnumber : IsLiteral s
      · obtain ⟨x, hx⟩ := Option.isSome_iff_exists.1 (isSome_read_iff.2 hnumber)
        exact ⟨_, .real (fun n h hn => hinteger ⟨n, h, hn⟩) hx⟩
      · exact ⟨s, .other (fun b hb => htruth ⟨b, hb⟩) hnumber⟩

theorem text_of_loadedAs (h : LoadedAs s r) (hs : value.toList = s) :
    text (.leaf o (scalarOf value)) = .ok (String.ofList r) := by
  subst hs
  cases h with
  | @truth b h =>
    rw [scalarOf_word h]
    cases b <;> rfl
  | integer h hn =>
    rw [scalarOf_integer h hn]
    rfl
  | real hinteger hx =>
    rw [scalarOf_real hinteger hx]
    rfl
  | other htruth hnumber =>
    rw [scalarOf_text htruth hnumber, String.ofList_toList]
    rfl

/-- The text that is loaded for a value. -/
theorem text_scalarOf : text (.leaf o (scalarOf value)) = .ok w ↔ LoadedAs value.toList w.toList := by
  constructor
  · intro h
    obtain ⟨r, hr⟩ := exists_loadedAs value.toList
    rw [text_of_loadedAs hr rfl] at h
    cases h
    exact String.toList_ofList.symm ▸ hr
  · exact fun h => String.ofList_toList (s := w) ▸ text_of_loadedAs h rfl

theorem scalarOf_ne_nothing (value : String) : scalarOf value ≠ .nothing := by
  obtain ⟨r, hr⟩ := exists_loadedAs value.toList
  intro h
  have htext := text_of_loadedAs (o := none) hr rfl
  rw [h] at htext
  cases htext

/-! ### What is kept -/

theorem verbatim_of_loadedAs (h : LoadedAs s r) (hr : r = s) : Verbatim s := by
  cases h with
  | truth h => exact hr ▸ .truth _
  | integer h hn => exact hr ▸ .integer hn
  | real hinteger hx => exact .real hinteger hx hr
  | other htruth hnumber => exact .other htruth hnumber

theorem loadedAs_of_verbatim (h : Verbatim s) : LoadedAs s s := by
  cases h with
  | truth b => exact .truth (by cases b <;> decide)
  | integer hn => exact .integer (writes_printInt _) hn
  | @real _ x hinteger hx hprint =>
    have hloaded := LoadedAs.real hinteger hx
    rwa [hprint] at hloaded
  | other htruth hnumber => exact .other htruth hnumber

/-- The values that are loaded as they are. -/
theorem loadedAs_self_iff : LoadedAs s s ↔ Verbatim s := ⟨fun h => verbatim_of_loadedAs h rfl, loadedAs_of_verbatim⟩

/-- A number that is kept has neither a plus sign nor an exponent. -/
theorem Verbatim.not_mem (h : Verbatim s) (hnumber : IsLiteral s) {c : Char} (hc : c ∈ ['+', 'e', 'E']) : c ∉ s := by
  have hcases : c = '+' ∨ c = 'e' ∨ c = 'E' := by simpa using hc
  have hmark : ¬ IsMark c := by
    unfold IsMark
    rcases hcases with rfl | rfl | rfl <;> decide
  cases h with
  | truth b => exact absurd (by cases b <;> decide) (lower_ne_word hnumber b)
  | integer hn => exact fun hmem => hmark (isMark_of_mem_printInt hmem)
  | @real _ x hinteger hx hprint =>
    subst hprint
    cases x with
    | nan => rcases hcases with rfl | rfl | rfl <;> decide
    | infinite negative => cases negative <;> rcases hcases with rfl | rfl | rfl <;> decide
    | finite negative m q => exact fun hmem => hmark (isMark_of_mem_print hmem)
  | other htruth hother => exact absurd hnumber hother

end Environment

/-! ## Settings that are texts -/

variable {t u f : Tree} {fs : Files} {e : Environment} {path value : String} {required : Bool} {s : Settings}
  {p : PlatformSettings} {v : Scalar} {o : Option Origin}

inductive PlatformText where
  | name
  | kind
  | host
  | baseUrl
  | username
  | password
deriving DecidableEq, Repr

namespace PlatformText

def field : PlatformText → String
  | name => "name"
  | kind => "kind"
  | host => "host"
  | baseUrl => "base_url"
  | username => "username"
  | password => "password"

/-- The place of a text in a platform that is given as a list. -/
def index : PlatformText → Nat
  | name => 0
  | kind => 1
  | host => 2
  | baseUrl => 4
  | username => 5
  | password => 6

/-- The text itself; none where it may be left out, and is. -/
def valueIn (p : PlatformSettings) : PlatformText → Option String
  | name => some p.name
  | kind => some p.kind
  | host => p.host
  | baseUrl => p.baseUrl
  | username => some p.username
  | password => some p.password

/-- The part for a text gives it. -/
theorem valueIn_of_part? (hp : p.GivenBy u) (hv : v ≠ .nothing) {x : PlatformText}
    (hpart : u.part? x.index x.field = some (.leaf o v)) :
    ∃ w, x.valueIn p = some w ∧ text (.leaf o v) = .ok w := by
  have hrequired {i : Nat} {name w : String} (hpart : u.part? i name = some (.leaf o v))
      (h : text.Requires (u.part? i name) w) : text (.leaf o v) = .ok w := by
    obtain ⟨t, ht, h⟩ := h
    cases hpart.symm.trans ht
    exact h
  have hoptional {i : Nat} {name : String} {w : Option String} (hpart : u.part? i name = some (.leaf o v))
      (h : (optional text).Gives none (u.part? i name) w) : ∃ a, w = some a ∧ text (.leaf o v) = .ok a := by
    rw [hpart] at h
    exact optional_leaf hv h
  cases x with
  | name => exact ⟨_, rfl, hrequired hpart hp.name⟩
  | kind => exact ⟨_, rfl, hrequired hpart hp.kind⟩
  | host => exact hoptional hpart hp.host
  | baseUrl => exact hoptional hpart hp.baseUrl
  | username => exact ⟨_, rfl, hrequired hpart hp.username⟩
  | password => exact ⟨_, rfl, hrequired hpart hp.password⟩

end PlatformText

/-- A setting that is a text; a place counts platforms as it does in a path. -/
inductive TextSetting where
  | anchor
  | socketPath
  | webhookUrl
  | platform (place : Int) (x : PlatformText)
deriving DecidableEq, Repr

namespace TextSetting

/-- The path to the record that a setting is a field of. -/
def home : TextSetting → List Step
  | anchor => [.entry "derivation"]
  | socketPath | webhookUrl => []
  | platform i _ => [.entry "platforms", .element i]

def field : TextSetting → String
  | anchor => "anchor"
  | socketPath => "ipc_socket_path"
  | webhookUrl => "alert_webhook_url"
  | platform _ x => x.field

/-- The place of a setting in a record that is given as a list. -/
def index : TextSetting → Nat
  | anchor => 0
  | socketPath => 4
  | webhookUrl => 6
  | platform _ x => x.index

def IsPath (x : TextSetting) (r : List Step) : Prop :=
  r = x.home ++ [.entry x.field] ∨ r = x.home ++ [.element x.index]

/-- The text that a setting is; none for one that is left out, or of a platform that is not there. -/
def valueIn (s : Settings) : TextSetting → Option String
  | anchor => some s.derivation.anchor
  | socketPath => some s.ipcSocketPath
  | webhookUrl => s.alertWebhookUrl
  | platform i x => (s.platforms[placeIn s.platforms.length i]?).bind x.valueIn

/-- The part for a setting gives it. -/
theorem valueIn_of_part? (hs : s.GivenBy t) (hv : v ≠ .nothing) {x : TextSetting} (hu : t.at? x.home = some u)
    (hpart : u.part? x.index x.field = some (.leaf o v)) :
    ∃ w, x.valueIn s = some w ∧ text (.leaf o v) = .ok w := by
  cases x with
  | anchor =>
    have h := hs.derivation
    rw [part?_of_named 3 ((at?_singleton t _).symm.trans hu)] at h
    have h := (Derivation.givenBy h).anchor
    rw [show u.part? 0 "anchor" = _ from hpart] at h
    exact ⟨_, rfl, h⟩
  | socketPath =>
    cases hu
    have h := hs.ipcSocketPath
    rw [show t.part? 4 "ipc_socket_path" = _ from hpart] at h
    exact ⟨_, rfl, h⟩
  | webhookUrl =>
    cases hu
    have h := hs.alertWebhookUrl
    rw [show t.part? 6 "alert_webhook_url" = _ from hpart] at h
    exact optional_leaf hv h
  | platform i x =>
    obtain ⟨p, hp, hgiven⟩ := hs.platform hu
    rw [valueIn, hp]
    exact PlatformText.valueIn_of_part? hgiven hv hpart

/-- A variable gives a setting, and counts: no other variable changes what it gives. -/
inductive Given (x : TextSetting) (f : Tree) (e : Environment) (value : String) : Prop
  | intro {k : String} (hr : x.IsPath (stepsOf k)) (hvalue : e.value? k = some value)
      (hkept : (f.assignAll e.entries).at? (stepsOf k) = some (.leaf (some .environment) (Environment.scalarOf value)))

/-- A variable counts if the paths of all others are apart from its own. -/
theorem given_of_apart {x : TextSetting} {k : String} (hr : x.IsPath (stepsOf k)) (hvalue : e.value? k = some value)
    (h : ∀ k', e.Gives k' → k' ≠ k → Apart (stepsOf k') (stepsOf k)) : x.Given f e value :=
  .intro hr hvalue (Environment.at?_assignAll_leaf hvalue h)

end TextSetting

namespace Settings

open TextSetting Environment

/-- **Texts in settings.** A variable gives a setting that is a text. If settings are loaded, the setting is there, and
it is the value after it was taken for a truth value or a number and printed again. So it is the value, character by
character, exactly if the value is written as it is printed, or is neither a truth value nor a number; a number with a
plus sign or an exponent is always changed. -/
theorem loadFrom_text {x : TextSetting} (hfile : fileTree fs path required = .ok f) (hx : x.Given f e value)
    (hload : loadFrom fs e path required = .ok s) :
    ∃ w, x.valueIn s = some w ∧ LoadedAs value.toList w.toList ∧ (w = value ↔ Verbatim value.toList) ∧
      (IsLiteral value.toList → (∃ c ∈ ['+', 'e', 'E'], c ∈ value.toList) → w ≠ value) := by
  obtain ⟨hr, -, hkept⟩ := hx
  obtain ⟨u, hu, hpart⟩ := part?_of_at? hr hkept
  obtain ⟨w, hw, htext⟩ := valueIn_of_part? (givenBy_of_loadFrom hfile hload) (scalarOf_ne_nothing value) hu hpart
  have hloaded := text_scalarOf.1 htext
  have hiff : w = value ↔ Verbatim value.toList := by
    constructor
    · rintro rfl
      exact loadedAs_self_iff.1 hloaded
    · intro hverbatim
      exact Except.ok.inj (htext.symm.trans (text_scalarOf.2 (loadedAs_self_iff.2 hverbatim)))
  refine ⟨w, hw, hloaded, hiff, ?_⟩
  rintro hnumber ⟨c, hc, hmem⟩ heq
  exact (hiff.1 heq).not_mem hnumber hc hmem

def passwordVariable (value : String) : Environment := ⟨[("FX__PLATFORMS[0]__PASSWORD", value)]⟩

theorem given_passwordVariable (f : Tree) (value : String) :
    (platform 0 .password).Given f (passwordVariable value) value := by
  have hkey : keyOf? "FX__PLATFORMS[0]__PASSWORD" = some "platforms[0].password" := by decide
  refine given_of_apart (Or.inl rfl) ((value?_concat [] _ "platforms[0].password").trans (if_pos hkey)) ?_
  rintro k ⟨b, hb, hk⟩ hne
  cases List.mem_singleton.1 hb
  exact absurd (Option.some.inj (hk.symm.trans hkey)) hne

/-- A password that begins like a number is loaded as it is. -/
theorem loadFrom_text_password : ∃ f s, fileTree deskFile "desk" true = .ok f ∧
    (platform 0 .password).Given f (passwordVariable "007 desk") "007 desk" ∧
    loadFrom deskFile (passwordVariable "007 desk") "desk" true = .ok s ∧
      (platform 0 .password).valueIn s = some "007 desk" := by
  have hload : (loadFrom deskFile (passwordVariable "007 desk") "desk" true).toOption.isSome := by decide +kernel
  obtain ⟨s, hs⟩ := Option.isSome_iff_exists.1 hload
  rw [toOption_eq_some] at hs
  obtain ⟨f, hf⟩ := fileTree_of_loadFrom hs
  have hgiven := given_passwordVariable f "007 desk"
  obtain ⟨w, hw, -, hiff, -⟩ := loadFrom_text hf hgiven hs
  have hverbatim : Verbatim "007 desk".toList := .other (by decide) (read_eq_none.1 (by decide))
  exact ⟨f, s, hf, hgiven, hs, hiff.2 hverbatim ▸ hw⟩

/-- A password in digits loses the zeros in front. -/
theorem loadFrom_reprinted : ∃ f s, fileTree deskFile "desk" true = .ok f ∧
    (platform 0 .password).Given f (passwordVariable "007") "007" ∧
    loadFrom deskFile (passwordVariable "007") "desk" true = .ok s ∧
      (platform 0 .password).valueIn s = some "7" := by
  have hload : (loadFrom deskFile (passwordVariable "007") "desk" true).toOption.any fun s =>
      (platform 0 .password).valueIn s = some "7" := by decide +kernel
  obtain ⟨s, hs, hpassword⟩ := (Option.any_eq_true _ _).1 hload
  rw [toOption_eq_some] at hs
  obtain ⟨f, hf⟩ := fileTree_of_loadFrom hs
  exact ⟨f, s, hf, given_passwordVariable f "007", hs, of_decide_eq_true hpassword⟩

end Settings

end RateDesk
