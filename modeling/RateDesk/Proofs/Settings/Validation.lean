import Mathlib.Data.List.Nodup
import RateDesk.Proofs.Text.Cut
import RateDesk.Settings.Validation

/-!
# Which settings are valid, and what is wrong with the others

* `Settings.Valid` : what settings have to satisfy;
* `PlatformSettings.Breaks`, `Settings.Breaks` : the rules that a platform, and settings as a whole, break, each
  with the violation that names it; more than one rule can be broken;
* `Rule.Before` : the order of the rules: platform by platform, and then what all platforms share;
* `PlatformSettings.violation?_first`, `Settings.platformViolation?_first`, `Settings.sharedViolation?_first` : each
  check finds the first rule of its own that is broken;
* `Settings.validate_eq_ok`, `Settings.validate_eq_error`, `Settings.validate_exact` : validation accepts
  the valid settings, and names the first rule that others break.
-/

namespace RateDesk

open Text

variable {s : Settings} {p q : PlatformSettings} {ps : List PlatformSettings} {earlier names : List String}
  {v v' : Violation}

/-! ## Rules -/

inductive PlatformRule where
  | named
  | newName
  | noUnderscore
  | readTimeout
  | pollInterval
  | instruments
deriving DecidableEq, Repr

/-- When a rule is asked of a platform. -/
def PlatformRule.rank : PlatformRule → Nat
  | named => 0
  | newName => 1
  | noUnderscore => 2
  | readTimeout => 3
  | pollInterval => 4
  | instruments => 5

/-- What is asked for all platforms together. -/
inductive SharedRule where
  | retryDelay
  | ttl
  | evictionInterval
deriving DecidableEq, Repr

/-- When a rule is asked for all platforms together. -/
def SharedRule.rank : SharedRule → Nat
  | retryDelay => 0
  | ttl => 1
  | evictionInterval => 2

inductive Rule where
  | somePlatform
  /-- A rule for the platform at a place. -/
  | platform (place : Nat) (rule : PlatformRule)
  | shared (rule : SharedRule)
deriving DecidableEq, Repr

def Rule.Before : Rule → Rule → Prop
  | somePlatform, somePlatform => False
  | somePlatform, _ => True
  | platform .., somePlatform => False
  | platform i k, platform j l => i < j ∨ i = j ∧ k.rank < l.rank
  | platform .., shared _ => True
  | shared k, shared l => k.rank < l.rank
  | shared _, _ => False

theorem PlatformRule.rank_inj {k l : PlatformRule} (h : k.rank = l.rank) : k = l := by
  cases k <;> cases l <;> first | rfl | cases h

theorem SharedRule.rank_inj {k l : SharedRule} (h : k.rank = l.rank) : k = l := by
  cases k <;> cases l <;> first | rfl | cases h

namespace Rule

variable {r t : Rule}

/-- Of two rules one comes first. -/
theorem before_or (r t : Rule) : r = t ∨ r.Before t ∨ t.Before r := by
  cases r with
  | somePlatform => cases t <;> simp [Before]
  | platform i k =>
    cases t with
    | platform j l =>
      have hrank := @PlatformRule.rank_inj k l
      simp only [Before, platform.injEq]
      grind
    | _ => simp [Before]
  | shared k =>
    cases t with
    | shared l =>
      have hrank := @SharedRule.rank_inj k l
      simp only [Before, shared.injEq]
      grind
    | _ => simp [Before]

end Rule

/-! ## Broken rules -/

/-- A platform that follows platforms of some names breaks a rule, which a violation names. -/
inductive PlatformSettings.Breaks (p : PlatformSettings) (earlier : List String) : PlatformRule → Violation → Prop
  | named (h : ∀ c ∈ p.name.toList, isBlank c) : Breaks p earlier .named .blankName
  | newName (h : p.name ∈ earlier) : Breaks p earlier .newName (.duplicateName p.name)
  | noUnderscore (h : '_' ∈ p.name.toList) : Breaks p earlier .noUnderscore (.underscoreInName p.name)
  | readTimeout (h : p.readTimeoutSecs = 0) : Breaks p earlier .readTimeout (.zeroReadTimeout p.name)
  | pollInterval (h : p.pollIntervalMs = 0) : Breaks p earlier .pollInterval (.zeroPollInterval p.name)
  | instruments (h : p.instruments = []) : Breaks p earlier .instruments (.noInstruments p.name)

/-- Settings break a rule for all platforms, which a violation names. -/
inductive Settings.SharedBreaks (s : Settings) : SharedRule → Violation → Prop
  | retryDelay (h : s.retry.delaySecs = 0) : SharedBreaks s .retryDelay .zeroRetryDelay
  | ttl (h : s.cache.ttlSecs = 0) : SharedBreaks s .ttl .zeroTtl
  | evictionInterval (h : s.cache.evictionIntervalSecs = 0) : SharedBreaks s .evictionInterval .zeroEvictionInterval

def Settings.namesBefore (ps : List PlatformSettings) (i : Nat) : List String :=
  (ps.take i).map PlatformSettings.name

/-- Settings break a rule, which a violation names. -/
inductive Settings.Breaks (s : Settings) : Rule → Violation → Prop
  | somePlatform (h : s.platforms = []) : Breaks s .somePlatform .noPlatforms
  | platform {i : Nat} {p : PlatformSettings} {k : PlatformRule} {v : Violation} (hp : s.platforms[i]? = some p)
      (h : p.Breaks (namesBefore s.platforms i) k v) : Breaks s (.platform i k) v
  | shared {k : SharedRule} {v : Violation} (h : s.SharedBreaks k v) : Breaks s (.shared k) v

structure Settings.Valid (s : Settings) : Prop where
  somePlatform : s.platforms ≠ []
  named : ∀ p ∈ s.platforms, ∃ c ∈ p.name.toList, ¬ isBlank c
  distinct : (s.platforms.map PlatformSettings.name).Nodup
  noUnderscore : ∀ p ∈ s.platforms, '_' ∉ p.name.toList
  readTimeout : ∀ p ∈ s.platforms, 0 < p.readTimeoutSecs
  pollInterval : ∀ p ∈ s.platforms, 0 < p.pollIntervalMs
  instruments : ∀ p ∈ s.platforms, p.instruments ≠ []
  retryDelay : 0 < s.retry.delaySecs
  ttl : 0 < s.cache.ttlSecs
  evictionInterval : 0 < s.cache.evictionIntervalSecs

/-! ## One platform -/

namespace PlatformSettings

/-- The check of a platform says nothing, or it names the first rule that the platform breaks. -/
theorem violation?_first (p : PlatformSettings) (earlier : List String) :
    match p.violation? earlier with
    | none => ∀ k v, ¬ p.Breaks earlier k v
    | some v => ∃ k, p.Breaks earlier k v ∧ ∀ l v', p.Breaks earlier l v' → k.rank ≤ l.rank := by
  have hblank : (trim p.name.toList).isEmpty ↔ ∀ c ∈ p.name.toList, isBlank c := by
    rw [List.isEmpty_iff, trim_eq_nil]
  generalize hfound : p.violation? earlier = found
  unfold violation? at hfound
  simp only [hblank, List.isEmpty_iff] at hfound
  split at hfound
  · rename_i h₁
    cases hfound
    exact ⟨.named, .named h₁, fun l v' h => Nat.zero_le _⟩
  split at hfound
  · rename_i h₂
    cases hfound
    exact ⟨.newName, .newName h₂, fun l v' h => by cases h <;> first | contradiction | decide⟩
  split at hfound
  · rename_i h₃
    cases hfound
    exact ⟨.noUnderscore, .noUnderscore h₃, fun l v' h => by cases h <;> first | contradiction | decide⟩
  split at hfound
  · rename_i h₄
    cases hfound
    exact ⟨.readTimeout, .readTimeout h₄, fun l v' h => by cases h <;> first | contradiction | decide⟩
  split at hfound
  · rename_i h₅
    cases hfound
    exact ⟨.pollInterval, .pollInterval h₅, fun l v' h => by cases h <;> first | contradiction | decide⟩
  split at hfound
  · rename_i h₆
    cases hfound
    exact ⟨.instruments, .instruments h₆, fun l v' h => by cases h <;> first | contradiction | decide⟩
  · cases hfound
    intro k v h
    cases h <;> contradiction

/-- Of the earlier names only which there are counts. -/
theorem violation?_congr (p : PlatformSettings) (h : ∀ n, n ∈ earlier ↔ n ∈ names) :
    p.violation? earlier = p.violation? names := by
  simp only [violation?, h]

end PlatformSettings

/-! ## All platforms -/

namespace Settings

theorem namesBefore_zero (ps : List PlatformSettings) : namesBefore ps 0 = [] := rfl

theorem namesBefore_succ (p : PlatformSettings) (ps : List PlatformSettings) (i : Nat) :
    namesBefore (p :: ps) (i + 1) = p.name :: namesBefore ps i := rfl

theorem mem_namesBefore {n : String} {i : Nat} :
    n ∈ namesBefore ps i ↔ ∃ j q, j < i ∧ ps[j]? = some q ∧ q.name = n := by
  simp only [namesBefore, List.mem_map, List.mem_take_iff_getElem, List.getElem?_eq_some_iff]
  grind

/-- Whichever way the names before the first platform are listed, the platform at a place is checked against them
and the names since. -/
theorem violation?_namesBefore (q : PlatformSettings) (i : Nat) :
    q.violation? (p.name :: earlier ++ namesBefore ps i) = q.violation? (earlier ++ namesBefore (p :: ps) (i + 1)) := by
  apply q.violation?_congr
  intro n
  rw [namesBefore_succ, List.cons_append, List.mem_cons, List.mem_append, List.mem_append, List.mem_cons]
  tauto

/-- The check of several platforms says nothing, or what it says of the first of them that breaks a rule. -/
theorem platformViolation?_first (earlier : List String) (ps : List PlatformSettings) :
    match platformViolation? earlier ps with
    | none => ∀ (i : Nat) (p : PlatformSettings), ps[i]? = some p → p.violation? (earlier ++ namesBefore ps i) = none
    | some v => ∃ (i : Nat) (p : PlatformSettings), ps[i]? = some p ∧
        p.violation? (earlier ++ namesBefore ps i) = some v ∧
        ∀ (j : Nat) (q : PlatformSettings), j < i → ps[j]? = some q → q.violation? (earlier ++ namesBefore ps j) = none := by
  induction ps generalizing earlier with
  | nil => exact fun i p h => by cases h
  | cons p ps ih =>
    have hhead : p.violation? (earlier ++ namesBefore (p :: ps) 0) = p.violation? earlier := by
      rw [namesBefore_zero, List.append_nil]
    rw [platformViolation?]
    cases hp : p.violation? earlier with
    | some v => exact ⟨0, p, rfl, hhead.trans hp, fun j q hj => absurd hj (Nat.not_lt_zero j)⟩
    | none =>
      have hrest := ih (p.name :: earlier)
      rw [Option.none_or]
      cases hps : platformViolation? (p.name :: earlier) ps with
      | none =>
        rw [hps] at hrest
        intro i q hq
        cases i with
        | zero =>
          cases hq
          exact hhead.trans hp
        | succ i => exact (violation?_namesBefore q i).symm.trans (hrest i q hq)
      | some v =>
        rw [hps] at hrest
        obtain ⟨i, q, hq, hv, hbefore⟩ := hrest
        refine ⟨i + 1, q, hq, (violation?_namesBefore q i).symm.trans hv, fun j r hj hr => ?_⟩
        cases j with
        | zero =>
          cases hr
          exact hhead.trans hp
        | succ j => exact (violation?_namesBefore r j).symm.trans (hbefore j r (Nat.lt_of_succ_lt_succ hj) hr)

/-! ## What all platforms share -/

/-- The check of what all platforms share says nothing, or it names the first rule that is broken. -/
theorem sharedViolation?_first (s : Settings) :
    match s.sharedViolation? with
    | none => ∀ k v, ¬ s.SharedBreaks k v
    | some v => ∃ k, s.SharedBreaks k v ∧ ∀ l v', s.SharedBreaks l v' → k.rank ≤ l.rank := by
  unfold sharedViolation?
  split_ifs with h₁ h₂ h₃
  · exact ⟨.retryDelay, .retryDelay h₁, fun l v' h => Nat.zero_le _⟩
  · exact ⟨.ttl, .ttl h₂, fun l v' h => by cases h <;> first | contradiction | decide⟩
  · exact ⟨.evictionInterval, .evictionInterval h₃, fun l v' h => by cases h <;> first | contradiction | decide⟩
  · intro k v h
    cases h <;> contradiction

/-! ## Settings -/

theorem breaks_platform {i : Nat} {k : PlatformRule} (hp : s.platforms[i]? = some p) :
    s.Breaks (.platform i k) v ↔ p.Breaks (namesBefore s.platforms i) k v := by
  constructor
  · rintro (_ | ⟨hq, h⟩)
    cases hp.symm.trans hq
    exact h
  · exact .platform hp

/-- The check of all platforms says nothing, or it names the first rule for platforms that is broken. -/
theorem platforms_first (s : Settings) :
    match platformViolation? [] s.platforms with
    | none => ∀ i k v, ¬ s.Breaks (.platform i k) v
    | some v => ∃ i k, s.Breaks (.platform i k) v ∧
        ∀ j l v', s.Breaks (.platform j l) v' → ¬ Rule.Before (.platform j l) (.platform i k) := by
  have hplatforms := platformViolation?_first [] s.platforms
  cases hps : platformViolation? [] s.platforms with
  | none =>
    rw [hps] at hplatforms
    rintro i k v (_ | @⟨_, p, _, _, hp, h⟩)
    have hnone := p.violation?_first (namesBefore s.platforms i)
    rw [show p.violation? (namesBefore s.platforms i) = none from hplatforms i p hp] at hnone
    exact hnone k v h
  | some v =>
    rw [hps] at hplatforms
    obtain ⟨i, p, hp, hv, hbefore⟩ := hplatforms
    have hfirst := p.violation?_first (namesBefore s.platforms i)
    rw [show p.violation? (namesBefore s.platforms i) = some v from hv] at hfirst
    obtain ⟨k, hk, hleast⟩ := hfirst
    refine ⟨i, k, .platform hp hk, ?_⟩
    rintro j l v' (_ | @⟨_, q, _, _, hq, h⟩) (hlt | ⟨rfl, hlt⟩)
    · have hnone := q.violation?_first (namesBefore s.platforms j)
      rw [show q.violation? (namesBefore s.platforms j) = none from hbefore j q hlt hq] at hnone
      exact hnone l v' h
    · cases hp.symm.trans hq
      exact absurd (hleast l v' h) (Nat.not_le.2 hlt)

/-- Of all rules that are broken the first one, with the violation that names it. -/
structure First (s : Settings) (r : Rule) (v : Violation) : Prop where
  broken : s.Breaks r v
  least : ∀ t v', s.Breaks t v' → ¬ t.Before r

/-- Validation finds nothing where nothing is broken, and otherwise what is broken first. -/
theorem violation?_first (s : Settings) :
    match s.violation? with
    | none => ∀ r v, ¬ s.Breaks r v
    | some v => ∃ r, s.First r v := by
  unfold violation?
  by_cases hempty : s.platforms = []
  · rw [if_pos (List.isEmpty_iff.2 hempty)]
    exact ⟨.somePlatform, .somePlatform hempty, fun t v' _ ht => by cases t <;> exact ht⟩
  · rw [if_neg (by rwa [List.isEmpty_iff])]
    have hplatforms := s.platforms_first
    cases hps : platformViolation? [] s.platforms with
    | some v =>
      rw [hps] at hplatforms
      obtain ⟨i, k, hk, hleast⟩ := hplatforms
      refine ⟨.platform i k, hk, fun t v' ht => ?_⟩
      cases t with
      | somePlatform => cases ht; contradiction
      | platform j l => exact hleast j l v' ht
      | shared l => exact id
    | none =>
      rw [hps] at hplatforms
      have hshared := s.sharedViolation?_first
      rw [Option.none_or]
      cases hs : s.sharedViolation? with
      | none =>
        rw [hs] at hshared
        rintro r v (h | ⟨hp, h⟩ | h)
        · exact hempty h
        · exact hplatforms _ _ _ (.platform hp h)
        · exact hshared _ _ h
      | some v =>
        rw [hs] at hshared
        obtain ⟨k, hk, hleast⟩ := hshared
        refine ⟨.shared k, .shared hk, ?_⟩
        rintro t v' (h | ⟨hp, h⟩ | h) hlt
        · exact hempty h
        · exact hplatforms _ _ _ (.platform hp h)
        · exact absurd (hleast _ v' h) (Nat.not_le.2 hlt)

/-- A rule is broken in one way only. -/
theorem Breaks.violation_eq {r : Rule} (h : s.Breaks r v) (h' : s.Breaks r v') : v = v' := by
  cases h with
  | somePlatform => cases h'; rfl
  | @platform i p k v hp h =>
    have h' := (breaks_platform hp).1 h'
    cases h <;> cases h' <;> rfl
  | shared h =>
    obtain _ | _ | h' := h'
    cases h <;> cases h' <;> rfl

/-- Only one rule is the first one. -/
theorem First.eq {r t : Rule} (h : s.First r v) (h' : s.First t v') : r = t ∧ v = v' := by
  obtain rfl : r = t := by
    rcases Rule.before_or r t with heq | hlt | hlt
    · exact heq
    · exact absurd hlt (h'.least r v h.broken)
    · exact absurd hlt (h.least t v' h'.broken)
  exact ⟨rfl, h.broken.violation_eq h'.broken⟩

/-- The names of platforms differ when none has the name of an earlier one. -/
theorem nodup_names : (ps.map PlatformSettings.name).Nodup ↔ ∀ i p, ps[i]? = some p → p.name ∉ namesBefore ps i := by
  rw [List.nodup_iff_getElem?_ne_getElem?]
  constructor
  · intro h i p hp hmem
    obtain ⟨j, q, hj, hq, hname⟩ := mem_namesBefore.1 hmem
    obtain ⟨hi, -⟩ := List.getElem?_eq_some_iff.1 hp
    refine h j i hj (by rwa [List.length_map]) ?_
    rw [List.getElem?_map, List.getElem?_map, hp, hq, Option.map_some, Option.map_some, hname]
  · intro h j i hj hi heq
    rw [List.length_map] at hi
    have hp := List.getElem?_eq_getElem hi
    have hq := List.getElem?_eq_getElem (hj.trans hi)
    rw [List.getElem?_map, List.getElem?_map, hp, hq] at heq
    exact h i _ hp (mem_namesBefore.2 ⟨j, _, hj, hq, Option.some.inj heq⟩)

/-- Settings are valid when they break no rule. -/
theorem valid_iff : s.Valid ↔ ∀ r v, ¬ s.Breaks r v := by
  have hpos : ∀ n : UInt64, 0 < n ↔ n ≠ 0 := fun n => UInt64.pos_iff_ne_zero
  constructor
  · rintro hs r v (h | @⟨_, p, _, _, hp, h⟩ | h)
    · exact hs.somePlatform h
    · have hmem := List.mem_of_getElem? hp
      cases h with
      | named h =>
        obtain ⟨c, hc, hblank⟩ := hs.named p hmem
        exact hblank (h c hc)
      | newName h => exact nodup_names.1 hs.distinct _ p hp h
      | noUnderscore h => exact hs.noUnderscore p hmem h
      | readTimeout h => exact (hpos _).1 (hs.readTimeout p hmem) h
      | pollInterval h => exact (hpos _).1 (hs.pollInterval p hmem) h
      | instruments h => exact hs.instruments p hmem h
    · cases h with
      | retryDelay h => exact (hpos _).1 hs.retryDelay h
      | ttl h => exact (hpos _).1 hs.ttl h
      | evictionInterval h => exact (hpos _).1 hs.evictionInterval h
  · intro h
    have hkeeps : ∀ p ∈ s.platforms, ∃ earlier, ∀ k v, ¬ p.Breaks earlier k v := by
      intro p hp
      obtain ⟨i, hi⟩ := List.getElem?_of_mem hp
      exact ⟨_, fun k v hk => h _ _ (.platform hi hk)⟩
    have hnamed : ∀ p ∈ s.platforms, ∃ c ∈ p.name.toList, ¬ isBlank c := by
      intro p hp
      obtain ⟨earlier, hp⟩ := hkeeps p hp
      by_contra hblank
      exact hp _ _ (.named fun c hc => by_contra fun hne => hblank ⟨c, hc, hne⟩)
    exact {
      somePlatform := fun hnil => h _ _ (.somePlatform hnil)
      named := hnamed
      distinct := nodup_names.2 fun i p hp hmem => h _ _ (.platform hp (.newName hmem))
      noUnderscore := fun p hp hmark => (hkeeps p hp).elim fun _ hp => hp _ _ (.noUnderscore hmark)
      readTimeout := fun p hp => (hpos _).2 fun hzero => (hkeeps p hp).elim fun _ hp => hp _ _ (.readTimeout hzero)
      pollInterval := fun p hp => (hpos _).2 fun hzero => (hkeeps p hp).elim fun _ hp => hp _ _ (.pollInterval hzero)
      instruments := fun p hp hnil => (hkeeps p hp).elim fun _ hp => hp _ _ (.instruments hnil)
      retryDelay := (hpos _).2 fun hzero => h _ _ (.shared (.retryDelay hzero))
      ttl := (hpos _).2 fun hzero => h _ _ (.shared (.ttl hzero))
      evictionInterval := (hpos _).2 fun hzero => h _ _ (.shared (.evictionInterval hzero)) }

theorem validate_eq_ok : s.validate = .ok () ↔ s.Valid := by
  have hfirst := s.violation?_first
  rw [validate, valid_iff]
  cases h : s.violation? with
  | none =>
    rw [h] at hfirst
    exact iff_of_true rfl hfirst
  | some v =>
    rw [h] at hfirst
    obtain ⟨r, hr⟩ := hfirst
    exact iff_of_false nofun fun hnone => hnone r v hr.broken

theorem validate_eq_error : s.validate = .error v ↔ ∃ r, s.First r v := by
  have hfirst := s.violation?_first
  rw [validate]
  cases h : s.violation? with
  | none =>
    rw [h] at hfirst
    exact iff_of_false nofun fun ⟨r, hr⟩ => hfirst r v hr.broken
  | some v' =>
    rw [h] at hfirst
    obtain ⟨r, hr⟩ := hfirst
    constructor
    · rintro ⟨⟩
      exact ⟨r, hr⟩
    · rintro ⟨t, ht⟩
      rw [(hr.eq ht).2]

/-- **What validation accepts, and what it names.** Settings are accepted if and only if they are valid. Of those that
are not, the error names the first rule that is broken: platform by platform in the order of the list, and then what
all platforms share. -/
theorem validate_exact (s : Settings) :
    (s.validate = .ok () ↔ s.Valid) ∧ ∀ v, s.validate = .error v ↔ ∃ r, s.First r v :=
  ⟨validate_eq_ok, fun _ => validate_eq_error⟩

end Settings

end RateDesk
