import RateDesk.Proofs.Consensus.Peers

/-!
# Which faults decimals can have

* `Fault.IsOverflow` : the faults of decimals, as opposed to those of the clock;
* `add_error`, `sub_error`, `mul_error`, `div_error` : each operation has one fault;
* `mean_error`, …, `dependentRate_error` : whatever is computed from quotes has no other ones.
-/

namespace RateDesk

def Fault.IsOverflow (e : Fault) : Prop := e ≠ .deadline

variable {e : Fault}

namespace Decimal

variable {x y : Decimal}

theorem add_error (h : x.add y = .error e) : e = .addition := by
  unfold add at h
  split at h
  · cases h
  · split at h
    · cases h
    · dsimp only at h
      split at h
      · cases h
      · exact (Except.error.inj h).symm

theorem sub_error (h : x.sub y = .error e) : e = .subtraction := by
  unfold sub at h
  split at h
  · cases h
  · exact (Except.error.inj h).symm

theorem mul_error (h : x.mul y = .error e) : e = .multiplication := by
  unfold mul at h
  split at h
  · cases h
  · dsimp only at h
    split at h
    · cases h
    · split at h
      · cases h
      · exact (Except.error.inj h).symm

theorem div_error (h : x.div y = .error e) : e = .division := by
  unfold div at h
  split at h
  · cases h
  · dsimp only at h
    split at h
    · cases h
    · exact (Except.error.inj h).symm

theorem foldlM_add_error {xs : List Decimal} {z : Decimal} (h : xs.foldlM add z = .error e) : e = .addition := by
  induction xs generalizing z with
  | nil => cases h
  | cons x xs ih =>
    rw [List.foldlM_cons] at h
    obtain hadd | ⟨w, -, htail⟩ := bind_eq_error.1 h
    · exact add_error hadd
    · exact ih htail

end Decimal

namespace Consensus

variable {bids asks : List Decimal}

theorem mean_error {xs : List Decimal} (h : mean xs = .error e) : e.IsOverflow := by
  unfold mean at h
  split at h
  · cases h
  · obtain hsum | ⟨total, -, h⟩ := bind_eq_error.1 h
    · rw [Decimal.foldlM_add_error hsum]
      nofun
    · obtain hdiv | ⟨q, -, h⟩ := bind_eq_error.1 h
      · rw [Decimal.div_error hdiv]
        nofun
      · cases h

theorem midOf_error {bid ask : Decimal} (h : midOf bid ask = .error e) : e.IsOverflow := by
  obtain hadd | ⟨sum, -, hdiv⟩ := bind_eq_error.1 h
  · rw [Decimal.add_error hadd]
    nofun
  · rw [Decimal.div_error hdiv]
    nofun

theorem referenceMid_error (h : referenceMid bids asks = .error e) : e.IsOverflow := by
  obtain hbid | ⟨bid, -, h⟩ := bind_eq_error.1 h
  · exact mean_error hbid
  · cases bid with
    | none => cases h
    | some bid =>
      obtain hask | ⟨ask, -, h⟩ := bind_eq_error.1 h
      · exact mean_error hask
      · cases ask with
        | none => cases h
        | some ask =>
          obtain hmid | ⟨mid, -, h⟩ := bind_eq_error.1 h
          · exact midOf_error hmid
          · cases h

theorem isValid_error {bid ask : Decimal} (h : isValid bid ask bids asks = .error e) : e.IsOverflow := by
  obtain href | ⟨reference, -, h⟩ := bind_eq_error.1 h
  · exact referenceMid_error href
  · cases reference with
    | none => cases h
    | some reference =>
      dsimp only at h
      split at h
      · cases h
      · obtain hmid | ⟨mid, -, h⟩ := bind_eq_error.1 h
        · exact midOf_error hmid
        · obtain hsub | ⟨gap, -, h⟩ := bind_eq_error.1 h
          · rw [Decimal.sub_error hsub]
            nofun
          · obtain hdiv | ⟨deviation, -, h⟩ := bind_eq_error.1 h
            · rw [Decimal.div_error hdiv]
              nofun
            · cases h

theorem aggregate_error (h : aggregate bids asks = .error e) : e.IsOverflow := by
  obtain hbid | ⟨bid, -, h⟩ := bind_eq_error.1 h
  · exact mean_error hbid
  · cases bid with
    | none => cases h
    | some bid =>
      obtain hask | ⟨ask, -, h⟩ := bind_eq_error.1 h
      · exact mean_error hask
      · cases ask <;> cases h

theorem dependentRate_error {mid : Decimal} (h : dependentRate bids asks mid = .error e) : e.IsOverflow := by
  obtain hbid | ⟨bid, -, h⟩ := bind_eq_error.1 h
  · exact mean_error hbid
  · cases bid with
    | none => cases h
    | some bid =>
      obtain hmul | ⟨bid', -, h⟩ := bind_eq_error.1 h
      · rw [Decimal.mul_error hmul]
        nofun
      · obtain hask | ⟨ask, -, h⟩ := bind_eq_error.1 h
        · exact mean_error hask
        · cases ask with
          | none => cases h
          | some ask =>
            obtain hmul | ⟨ask', -, h⟩ := bind_eq_error.1 h
            · rw [Decimal.mul_error hmul]
              nofun
            · cases h

end Consensus

end RateDesk
