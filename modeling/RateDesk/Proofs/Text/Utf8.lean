import Mathlib.Data.List.Infix

/-!
# Texts as bytes

* `fromUTF8?_toUTF8`, `toUTF8_inj` : the bytes of a text give the text back;
* `toUTF8_eq_encoded` : the bytes of a text are those of its characters;
* `encoded_of_mem` : a byte of the ASCII range is a whole character;
* `lineEnd_infix_iff` : so a carriage return and a line feed follow each other among the bytes where they do so in the
  text.
-/

namespace RateDesk

theorem toList_loop (b : ByteArray) (i : Nat) (r : List UInt8) :
    ByteArray.toList.loop b i r = r.reverse ++ b.data.toList.drop i := by
  have hsize : b.size = b.data.toList.length := Array.length_toList.symm
  induction h : b.size - i generalizing i r with
  | zero =>
    rw [ByteArray.toList.loop, if_neg (by omega), List.drop_eq_nil_of_le (by omega), List.append_nil]
  | succ n ih =>
    have hi : i < b.data.toList.length := by omega
    have hget : b.get! i = b.data.toList[i] := by
      rw [Array.getElem_toList, ← getElem!_pos]
      rfl
    rw [ByteArray.toList.loop, if_pos (by omega), ih (i + 1) _ (by omega), List.drop_eq_getElem_cons hi, hget]
    simp

theorem toList_toUTF8 (s : String) : s.toUTF8.toList = s.toUTF8.data.toList := by
  rw [ByteArray.toList, toList_loop]
  rfl

theorem fromUTF8?_toUTF8 (s : String) : String.fromUTF8? ⟨s.toUTF8.toList.toArray⟩ = some s := by
  rw [toList_toUTF8, Array.toArray_toList]
  exact dif_pos s.isValidUTF8

theorem toUTF8_inj {s t : String} : s.toUTF8.toList = t.toUTF8.toList ↔ s = t := by
  constructor
  · intro h
    have hs := fromUTF8?_toUTF8 s
    rw [h, fromUTF8?_toUTF8] at hs
    exact (Option.some.inj hs).symm
  · rintro rfl
    rfl

/-! ## Characters as bytes -/

def encoded (s : List Char) : List UInt8 := s.flatMap String.utf8EncodeChar

theorem encoded_append (s t : List Char) : encoded (s ++ t) = encoded s ++ encoded t := List.flatMap_append

theorem encoded_cons (c : Char) (s : List Char) : encoded (c :: s) = String.utf8EncodeChar c ++ encoded s := rfl

theorem toUTF8_eq_encoded (s : String) : s.toUTF8.toList = encoded s.toList := by
  rw [toList_toUTF8]
  conv_lhs => rw [← String.ofList_toList (s := s), String.toUTF8_eq_toByteArray]
  show s.toList.utf8Encode.data.toList = _
  rw [List.utf8Encode, List.data_toByteArray, encoded]

/-- A byte of the ASCII range is a whole character. -/
theorem encoded_of_mem {c : Char} {b : UInt8} (h : b ∈ String.utf8EncodeChar c) (hb : b < 128) :
    String.utf8EncodeChar c = [b] ∧ c = Char.ofNat b.toNat := by
  have hnat : ∀ n, UInt8.ofNat n < 128 ↔ n % 256 < 128 := by
    intro n
    rw [UInt8.lt_iff_toNat_lt, UInt8.toNat_ofNat']
    rfl
  unfold String.utf8EncodeChar at h ⊢
  dsimp only at h ⊢
  split at h
  · rename_i hc
    rw [List.mem_singleton] at h
    subst h
    have hbyte : (UInt8.ofNat c.val.toNat).toNat = c.toNat := by
      rw [UInt8.toNat_ofNat', Nat.mod_eq_of_lt (by omega)]
      rfl
    rw [if_pos hc, hbyte, Char.ofNat_toNat]
    exact ⟨rfl, rfl⟩
  · exfalso
    split at h
    · simp only [List.mem_cons, List.not_mem_nil, or_false] at h
      rcases h with rfl | rfl <;> rw [hnat] at hb <;> omega
    · split at h
      · simp only [List.mem_cons, List.not_mem_nil, or_false] at h
        rcases h with rfl | rfl | rfl <;> rw [hnat] at hb <;> omega
      · simp only [List.mem_cons, List.not_mem_nil, or_false] at h
        rcases h with rfl | rfl | rfl | rfl <;> rw [hnat] at hb <;> omega

/-- The first byte of some characters is in the ASCII range only if the first character is. -/
theorem head_of_encoded {s : List Char} {b : UInt8} {r : List UInt8} (h : encoded s = b :: r) (hb : b < 128) :
    ∃ t, s = Char.ofNat b.toNat :: t ∧ encoded t = r := by
  cases s with
  | nil => cases h
  | cons c t =>
    rw [encoded_cons] at h
    have hmem : b ∈ String.utf8EncodeChar c := by
      cases hc : String.utf8EncodeChar c with
      | nil => exact absurd hc String.utf8EncodeChar_ne_nil
      | cons x xs =>
        rw [hc] at h
        cases h
        exact List.mem_cons_self
    obtain ⟨hbytes, rfl⟩ := encoded_of_mem hmem hb
    rw [hbytes] at h
    exact ⟨t, rfl, (List.cons.inj h).2⟩

/-- The two bytes that end a line stand where the two characters do. -/
theorem lineEnd_infix_iff {s : List Char} : [13, 10] <:+: encoded s ↔ ['\r', '\n'] <:+: s := by
  constructor
  · induction s with
    | nil => simp [encoded]
    | cons c s ih =>
      rw [encoded_cons, List.infix_append_iff]
      rintro (hc | hs | ⟨a, b, hab, ha, hb⟩)
      · have hlen := hc.length_le
        rw [(encoded_of_mem (hc.subset List.mem_cons_self) (by decide)).1] at hlen
        exact absurd hlen (by decide)
      · exact (ih hs).trans (List.suffix_cons c s).isInfix
      · rcases a with _ | ⟨x, a⟩
        · cases hab
          exact (ih hb.isInfix).trans (List.suffix_cons c s).isInfix
        · obtain ⟨rfl, hrest⟩ := List.cons.inj hab
          obtain ⟨hbytes, rfl⟩ := encoded_of_mem (ha.subset List.mem_cons_self) (by decide)
          rw [hbytes] at ha
          obtain rfl : a = [] := List.length_eq_zero_iff.1 (Nat.le_zero.1 (Nat.le_of_succ_le_succ ha.length_le))
          obtain rfl : [10] = b := hrest
          obtain ⟨r, hr⟩ := hb
          obtain ⟨t, rfl, -⟩ := head_of_encoded hr.symm (by decide)
          exact ⟨[], t, rfl⟩
  · rintro ⟨a, b, rfl⟩
    exact ⟨encoded a, encoded b, by simp only [encoded_append]; rfl⟩

end RateDesk
