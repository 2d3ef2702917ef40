import RateDesk.Proofs.Desk.ScanOrder
import RateDesk.Proofs.Desk.Update

/-!
# Updates in any order of the cache

* `Cache.SumsAt`, `Cache.SumsWith` : the quotes that an update computes with sum exactly;
* `SumsWith.stored` : they still do so once the new quote is stored;
* `alike_update_of_perm` : so on desks with the same quotes in any order, updates are alike;
* `update_any_order` : an update comes to the same, in whatever order it meets the entries of the cache.
-/

namespace RateDesk

open Consensus (SumsExactly SameMeans)

namespace Cache

variable {c c' : Cache} {der : Derivation} {t due : Instant} {i j p : String} {r : Rate}

/-- The live quotes for an instrument sum exactly, bids and asks. -/
structure SumsAt (c : Cache) (instrument : String) (t : Instant) : Prop where
  bids : SumsExactly (c.bids instrument t)
  asks : SumsExactly (c.asks instrument t)

/-- The live quotes that an update with a quote reads sum exactly, those for its own instrument together with it. -/
structure SumsWith (c : Cache) (der : Derivation) (t : Instant) (instrument : String) (r : Rate) : Prop where
  bids : SumsExactly (r.bid :: c.bids instrument t)
  asks : SumsExactly (r.ask :: c.asks instrument t)
  others : ∀ j ∈ der.reads instrument, j ≠ instrument → c.SumsAt j t

theorem SumsWith.sumsAt (h : c.SumsWith der t i r) : c.SumsAt i t := ⟨h.bids.tail, h.asks.tail⟩

theorem SumsAt.of_scan_eq (h : c.SumsAt j t) (heq : c'.scan j t = c.scan j t) : c'.SumsAt j t :=
  ⟨by rw [Cache.bids, heq]; exact h.bids, by rw [Cache.asks, heq]; exact h.asks⟩

/-- A scan after a raw rate was stored has that rate and some of those before at the most. -/
theorem scan_insert_raw_sublist (c : Cache) (p i : String) (r : Rate) (t due : Instant) :
    ((c.insert (.raw p i) ⟨.raw r, due⟩).scan i t).Sublist (r :: c.scan i t) := by
  have hrest : ((c.entries.filter fun q => q.1 ≠ .raw p i).filterMap (scanned? i t)).Sublist (c.scan i t) :=
    List.filter_sublist.filterMap _
  unfold scan insert
  by_cases hlive : t < due
  · rw [List.filterMap_cons_some (b := r) (by simp [scanned?, hlive])]
    exact hrest.cons_cons r
  · rw [List.filterMap_cons_none (by simp [scanned?, hlive])]
    exact hrest.cons r

/-- Once the quote is stored, whatever is read still sums exactly. -/
theorem SumsWith.stored (h : c.SumsWith der t i r) (hj : j ∈ der.reads i) :
    (c.insert (.raw p i) ⟨.raw r, due⟩).SumsAt j t := by
  by_cases hji : j = i
  · subst hji
    have hsub := scan_insert_raw_sublist c p j r t due
    exact ⟨h.bids.subperm (hsub.map Rate.bid).subperm, h.asks.subperm (hsub.map Rate.ask).subperm⟩
  · exact (h.others j hj hji).of_scan_eq (scan_insert_raw_of_ne (Ne.symm hji) c p ⟨.raw r, due⟩ t)

end Cache

namespace Desk

open Step

variable {α : Type} {o o' : ScanOrder} {S T F R : Desk → Desk → Prop} {d d' : Desk} {der : Derivation} {now : Now}
  {i p : String} {r : Rate} {t : Instant}

/-- Quotes that sum exactly have the same means on desks that have the same ones, in whatever order they are met. -/
theorem sameMeans_scan (h : d.cache.SumsAt i t) (hperm : (d.cache.scan i t).Perm (d'.cache.scan i t)) :
    SameMeans (o.scan d i t) (o'.scan d' i t) := by
  have hscan := o.scan_perm d i t
  exact Consensus.sameMeans_perm (h.bids.subperm (hscan.map Rate.bid).subperm)
    (h.asks.subperm (hscan.map Rate.ask).subperm) ((hscan.trans hperm).trans (o'.scan_perm d' i t).symm)

/-- What is known of the first desk, before and after, can be had besides. -/
theorem Step.Alike.and {x y : Step α} {P Q : Desk → Prop} (h : Alike S T F x y)
    (hx : ∀ d a d₁, P d → x.run d = (.ok a, d₁) → Q d₁) :
    Alike (fun d d' => S d d' ∧ P d) (fun d d' => T d d' ∧ Q d) F x y := by
  rintro d d' ⟨hS, hP⟩
  have hends := h d d' hS
  have hpost := fun a d₁ => hx d a d₁ hP
  revert hends hpost
  generalize x.run d = e
  generalize y.run d' = e'
  rintro (hok | hfault) hpost
  · exact .ok ⟨hok, hpost _ _ rfl⟩
  · exact .error hfault

/-- Where the quotes sum exactly, updates are alike on desks that have the same quotes in any order. -/
theorem alike_update_of_perm
    (hscan : ∀ d d' j, R d d' → (d.cache.scan j now.instant).Perm (d'.cache.scan j now.instant))
    (hcount : Alike R R R (count (.rejected p i)) (count (.rejected p i)))
    (hraw : Alike R R R (storeRaw now p i r) (storeRaw now p i r))
    (hcalculated : ∀ x, Alike R R R (storeCalculated now x) (storeCalculated now x)) :
    Alike (fun d d' => R d d' ∧ d.cache.SumsWith der now.instant i r) R R (o.update der now p i r)
      (o'.update der now p i r) := by
  apply alike_update (T := fun d d' => R d d' ∧ ∀ j ∈ der.reads i, d.cache.SumsAt j now.instant)
  · exact fun _ _ h => h.1
  · exact fun d d' h => sameMeans_scan h.2.sumsAt (hscan d d' i h.1)
  · exact fun d d' h => hcount d d' h.1
  · refine hraw.and fun d a d₁ h hrun => ?_
    obtain ⟨due, rfl⟩ := run_storeRaw_eq_ok hrun
    exact fun j hj => h.stored hj
  · refine ⟨fun _ _ h => h.1, fun j hj d d' h => sameMeans_scan (h.2 j hj) (hscan d d' j h.1), fun x => ?_⟩
    refine (hcalculated x).and fun d a d₁ h hrun => ?_
    obtain ⟨due, rfl⟩ := run_storeCalculated_eq_ok hrun
    exact fun j hj => (h j hj).of_scan_eq (Cache.scan_insert_calculated d.cache x.instrument j ⟨.calculated x, due⟩ _)

theorem alike_eq (x : Step α) : Alike Eq Eq Eq x x := by
  rintro d _ rfl
  rcases x.run d with ⟨a | a, d₁⟩
  · exact .error rfl
  · exact .ok rfl

/-- **The order of the cache does not matter.** If the quotes that an update reads are positive, and if for each
instrument the bids, and the asks, sum at their largest scale to a coefficient of 96 bits, the new quote included:
then in whatever order the entries of the cache are met, the update has the same outcome or the same fault,
publishes the same messages in the same order, down to the scales of bids and asks, and leaves the same cache. -/
theorem update_any_order (d : Desk) (der : Derivation) (now : Now) (platform instrument : String) (r : Rate)
    (h : d.cache.SumsWith der now.instant instrument r) (o : ScanOrder) :
    (o.update der now platform instrument r).run d = (update der now platform instrument r).run d := by
  have halike : Alike (fun d d' => d = d' ∧ d.cache.SumsWith der now.instant instrument r) Eq Eq
      (o.update der now platform instrument r) (ScanOrder.stored.update der now platform instrument r) :=
    alike_update_of_perm (fun d d' j heq => heq ▸ .refl _) (alike_eq _) (alike_eq _) fun x => alike_eq _
  have hends := halike d d ⟨rfl, h⟩
  rw [ScanOrder.update_stored] at hends
  exact Prod.ext hends.fst_eq hends.snd

def hundredths (i : String) (bid ask : Int) : Rate :=
  ⟨i, (Decimal.of? bid 2).getD .zero, (Decimal.of? ask 2).getD .zero, ⟨0, 0⟩⟩

/-- A desk with quotes of three platforms for the anchor and of two for a source, not all of one scale. -/
def unevenlyQuoted : Desk :=
  (quoted.stored 1800000 "WS" "USDTRY" (hundredths "USDTRY" 3205 3245)).stored 1800000 "REST" "EURUSD"
    (hundredths "EURUSD" 111 121)

def newestLast : ScanOrder := ⟨fun d => d.cache.entries.reverse, fun _ => List.reverse_perm _⟩

theorem unevenlyQuoted_sums : unevenlyQuoted.cache.SumsWith .standard 5 "USDTRY" (tenths "USDTRY" 321 325) := by
  have hsums {xs : List Decimal} (hpos : ∀ x ∈ xs, 0 < x.coeff)
      (hlt : (xs.map fun x => (x.coeffAt (Consensus.finest xs)).natAbs).sum < Decimal.coeffBound) : SumsExactly xs :=
    ⟨fun x hx => Decimal.value_pos.2 (hpos x hx), hlt⟩
  have heur : unevenlyQuoted.cache.SumsAt "EURUSD" 5 :=
    ⟨hsums (by decide +kernel) (by decide +kernel), hsums (by decide +kernel) (by decide +kernel)⟩
  have hgbp : unevenlyQuoted.cache.SumsAt "GBPUSD" 5 :=
    ⟨hsums (by decide +kernel) (by decide +kernel), hsums (by decide +kernel) (by decide +kernel)⟩
  refine ⟨hsums (by decide +kernel) (by decide +kernel), hsums (by decide +kernel) (by decide +kernel), ?_⟩
  intro j hj hne
  have hj : j ∈ ["EURUSD", "GBPUSD"] := (List.mem_cons.1 hj).resolve_left hne
  rcases List.mem_cons.1 hj with rfl | hj
  · exact heur
  · rw [List.mem_singleton.1 hj]
    exact hgbp

theorem update_any_order_newestLast :
    unevenlyQuoted.cache.SumsWith .standard 5 "USDTRY" (tenths "USDTRY" 321 325) ∧
    newestLast.scan unevenlyQuoted "USDTRY" 5 ≠ unevenlyQuoted.cache.scan "USDTRY" 5 ∧
    ((newestLast.update .standard ⟨5, ⟨0, 0⟩⟩ "TCP" "USDTRY" (tenths "USDTRY" 321 325)).run unevenlyQuoted).1 =
      .ok .accepted := by
  refine ⟨unevenlyQuoted_sums, by decide +kernel, ?_⟩
  rw [update_any_order unevenlyQuoted .standard ⟨5, ⟨0, 0⟩⟩ "TCP" "USDTRY" _ unevenlyQuoted_sums]
  decide +kernel

end Desk

end RateDesk
