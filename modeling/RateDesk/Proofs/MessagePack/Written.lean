import Mathlib.Data.List.Basic
import Mathlib.Tactic.Ring
import Mathlib.Tactic.SplitIfs
import RateDesk.MessagePack.Value
import RateDesk.Proofs.Text.Utf8

/-!
# MessagePack in writing and back

* `takeNat_bigEndian` : a number written in bytes is taken back;
* `readHead_writeText`, `readHead_writeMapHead` : the markers that are written are read;
* `Reads`, `ReadsEntries` : what bytes are read as, whatever follows them; `reads_text`, `reads_map`;
* `record?_named` : a map with the names of a record as keys is the record.
-/

namespace RateDesk

open Pack

namespace Pack

variable {w n depth : Nat} {s a r : List UInt8} {p : Pack} {entries : List (Pack × Pack)} {t : String}

/-! ## Numbers as bytes -/

@[simp]
theorem length_bigEndian (w n : Nat) : (bigEndian w n).length = w := by
  induction w with
  | zero => rfl
  | succ w ih => rw [bigEndian, List.length_cons, ih]

theorem foldl_bigEndian (w n k : Nat) :
    (bigEndian w n).foldl (fun n b => n * 256 + b.toNat) k = k * twoPow (8 * w) + n % twoPow (8 * w) := by
  induction w generalizing k with
  | zero => simp [bigEndian, Nat.mod_one]
  | succ w ih =>
    have hpow : twoPow (8 * (w + 1)) = twoPow (8 * w) * 256 := Nat.pow_add 2 (8 * w) 8
    rw [bigEndian, List.foldl_cons, ih, hpow, Nat.mod_mul, UInt8.toNat_ofNat']
    ring

theorem takeBytes_append (a r : List UInt8) : takeBytes a.length (a ++ r) = some (a, r) := by
  rw [takeBytes, if_pos (by simp), List.take_left, List.drop_left]

theorem length_of_takeBytes (h : takeBytes n s = some (a, r)) : s.length = n + r.length := by
  unfold takeBytes at h
  split at h
  · cases h
    rw [List.length_drop]
    omega
  · cases h

/-- A number that fits is taken back from its bytes. -/
theorem takeNat_bigEndian (hn : n < twoPow (8 * w)) (r : List UInt8) :
    takeNat w (bigEndian w n ++ r) = some (n, r) := by
  have htake := takeBytes_append (bigEndian w n) r
  rw [length_bigEndian] at htake
  have hvalue : ofBytes (bigEndian w n) = n := by
    rw [ofBytes, foldl_bigEndian, Nat.zero_mul, Nat.zero_add, Nat.mod_eq_of_lt hn]
  simp only [takeNat, htake, Option.map_some, hvalue]

/-! ## Markers -/

def ofText (t : String) : Pack := .str t.toUTF8.toList

theorem takeBody_append (f : List UInt8 → Pack) (a r : List UInt8) :
    takeBody f (some (a.length, a ++ r)) = some (f a, r) := by
  simp [takeBody, takeBytes_append]

theorem readHead_short (hn : n < 32) (s : List UInt8) :
    readHead (UInt8.ofNat (0xA0 + n) :: s) = (takeBody .str (some (n, s))).map fun (v, r) => (.scalar v, r) := by
  have hmarker : (UInt8.ofNat (0xA0 + n)).toNat = 0xA0 + n := by
    rw [UInt8.toNat_ofNat']
    omega
  unfold readHead
  simp only [hmarker]
  rw [if_neg (by omega), if_neg (by omega), if_neg (by omega), if_pos (by omega), Nat.add_sub_cancel_left]

theorem readHead_writeMapHead (hn : n < 16) (r : List UInt8) : readHead (writeMapHead n ++ r) = some (.map n, r) := by
  have hmarker : (UInt8.ofNat (0x80 + n)).toNat = 0x80 + n := by
    rw [UInt8.toNat_ofNat']
    omega
  rw [writeMapHead, List.singleton_append]
  unfold readHead
  simp only [hmarker]
  rw [if_neg (by omega), if_pos (by omega), Nat.add_sub_cancel_left]

/-- A text behind a marker for lengths of `w` bytes. -/
theorem readHead_long {marker : UInt8} (hmarker : ∀ s, readHead (marker :: s) =
    (takeBody .str (takeNat w s)).map fun (v, r) => (.scalar v, r)) (ha : a.length < twoPow (8 * w)) (r : List UInt8) :
    readHead (marker :: bigEndian w a.length ++ a ++ r) = some (.scalar (.str a), r) := by
  rw [List.cons_append, List.cons_append, List.append_assoc, hmarker, takeNat_bigEndian ha, takeBody_append]
  rfl

/-- A text is read back in each of the four forms that its length can call for. -/
theorem readHead_writeText (ht : t.toUTF8.toList.length < twoPow 32) (r : List UInt8) :
    readHead (writeText t ++ r) = some (.scalar (ofText t), r) := by
  unfold writeText textHead
  dsimp only
  split
  · rename_i h
    rw [List.singleton_append, List.cons_append, readHead_short h, takeBody_append]
    rfl
  · split
    · rename_i h
      exact readHead_long (w := 1) (fun _ => rfl) h r
    · split
      · rename_i h
        exact readHead_long (w := 2) (fun _ => rfl) h r
      · exact readHead_long (w := 4) (fun _ => rfl) ht r

theorem length_writeText (t : String) :
    t.toUTF8.toList.length < (writeText t).length := by
  have hhead : 0 < (textHead t.toUTF8.toList.length).length := by
    unfold textHead
    split_ifs <;> simp
  rw [writeText, List.length_append]
  exact Nat.lt_add_of_pos_left hhead

/-! ## Values -/

/-- The bytes are read as a value, whatever follows, if it may be nested that deep. The fuel is twice the number
of bytes. -/
def Reads (depth : Nat) (s : List UInt8) (p : Pack) : Prop :=
  ∀ fuel d r, 2 * s.length ≤ fuel → depth ≤ d → readFuel fuel d (s ++ r) = some (p, r)

/-- The bytes are read as the entries of a map. -/
def ReadsEntries (depth : Nat) (s : List UInt8) (entries : List (Pack × Pack)) : Prop :=
  ∀ fuel d r, 2 * s.length < fuel → depth ≤ d → readEntries fuel d entries.length (s ++ r) = some (entries, r)

theorem reads_text (ht : t.toUTF8.toList.length < twoPow 32) : Reads depth (writeText t) (ofText t) := by
  intro fuel d r hfuel _
  have hpos := length_writeText t
  obtain ⟨fuel, rfl⟩ := Nat.exists_eq_succ_of_ne_zero (show fuel ≠ 0 by omega)
  simp [readFuel, readHead_writeText ht]

theorem readsEntries_nil : ReadsEntries depth [] [] := by
  intro fuel d r hfuel _
  obtain ⟨fuel, rfl⟩ := Nat.exists_eq_succ_of_ne_zero (Nat.ne_of_gt hfuel)
  simp [readEntries]

theorem readsEntries_cons (ht : t.toUTF8.toList.length < twoPow 32) (hv : Reads depth s p)
    (he : ReadsEntries depth a entries) : ReadsEntries depth (writeText t ++ (s ++ a)) ((ofText t, p) :: entries) := by
  intro fuel d r hfuel hd
  obtain ⟨fuel, rfl⟩ := Nat.exists_eq_succ_of_ne_zero (Nat.ne_of_gt (Nat.zero_lt_of_lt hfuel))
  -- an entry costs a step of fuel, which the marker of its key pays for
  have hpos := length_writeText t
  rw [List.length_append, List.length_append] at hfuel
  rw [List.append_assoc, List.append_assoc, List.length_cons, readEntries]
  simp [reads_text ht fuel d (s ++ (a ++ r)) (by omega) hd, hv fuel d (a ++ r) (by omega) hd,
    he fuel d r (by omega) hd]

theorem reads_map (hn : entries.length = n) (hlt : n < 16) (he : ReadsEntries depth s entries) :
    Reads (depth + 1) (writeMapHead n ++ s) (.map entries) := by
  intro fuel d r hfuel hd
  rw [List.length_append, writeMapHead, List.length_singleton] at hfuel
  obtain ⟨fuel, rfl⟩ := Nat.exists_eq_succ_of_ne_zero (show fuel ≠ 0 by omega)
  obtain ⟨d, rfl⟩ := Nat.exists_eq_succ_of_ne_zero (show d ≠ 0 by omega)
  subst hn
  rw [List.append_assoc]
  simp [readFuel, readHead_writeMapHead hlt, he fuel d r (by omega) (by omega)]

/-- Texts with texts as keys. -/
theorem readsEntries_texts {ts : List (String × String)}
    (hsize : (ts.flatMap fun p => writeText p.1 ++ writeText p.2).length < twoPow 32) :
    ReadsEntries depth (ts.flatMap fun p => writeText p.1 ++ writeText p.2) (ts.map fun p => (ofText p.1, ofText p.2)) := by
  induction ts with
  | nil => exact readsEntries_nil
  | cons p ts ih =>
    rw [List.flatMap_cons, List.append_assoc] at hsize ⊢
    rw [List.length_append, List.length_append] at hsize
    have hkey := length_writeText p.1
    have hvalue := length_writeText p.2
    exact readsEntries_cons (by omega) (reads_text (by omega)) (ih (by omega))

theorem read_of_reads (h : Reads depth s p) (hd : depth ≤ maxDepth) : read s = some (p, []) := by
  have hread := h (2 * s.length + 2) maxDepth [] (Nat.le_add_right _ 2) hd
  rwa [List.append_nil] at hread

/-! ## Records -/

theorem place?_ofText (names : List String) (t : String) :
    place? names (ofText t) = .ok (names.findIdx? fun n => n == t) := by
  have hbytes : ∀ n : String, (n.toUTF8.toList == t.toUTF8.toList) = (n == t) := by
    intro n
    rw [Bool.eq_iff_iff, beq_iff_eq, beq_iff_eq, toUTF8_inj]
  simp only [place?, ofText, hbytes]

/-- The entries of a record. -/
def named (names : List String) (vs : List Pack) : List (Pack × Pack) :=
  List.zipWith (fun n v => (ofText n, v)) names vs

/-- The places of a record fill up one after the other. -/
theorem fillPlaces_named {names todo : List String} {vs ws : List Pack} (hnodup : (names ++ todo).Nodup)
    (hv : vs.length = names.length) (hw : ws.length = todo.length) :
    fillPlaces (names ++ todo) (named todo ws) (vs.map some ++ ws.map fun _ => none) = some ((vs ++ ws).map some) := by
  induction todo generalizing names vs ws with
  | nil =>
    obtain rfl := List.length_eq_zero_iff.1 hw
    simp [named, fillPlaces]
  | cons n todo ih =>
    obtain ⟨w, ws, rfl⟩ := List.exists_cons_of_length_eq_add_one hw
    have hfresh : ∀ m ∈ names, (m == n) = false := by
      intro m hm
      rw [beq_eq_false_iff_ne]
      rintro rfl
      exact (List.nodup_append.1 hnodup).2.2 m hm m List.mem_cons_self rfl
    have hplace : (names ++ n :: todo).findIdx? (fun m => m == n) = some names.length := by
      rw [List.findIdx?_append, List.findIdx?_eq_none_iff.2 hfresh, List.findIdx?_cons, beq_self_eq_true]
      simp
    have hempty : (vs.map some ++ none :: ws.map fun _ => (none : Option Pack))[names.length]? = some none := by
      rw [← hv, List.getElem?_append_right (by simp)]
      simp
    have hnext : fillPlaces (names ++ [n] ++ todo) (named todo ws) ((vs ++ [w]).map some ++ ws.map fun _ => none) =
        some ((vs ++ [w] ++ ws).map some) := ih (by simpa using hnodup) (by simpa using hv) (by simpa using hw)
    rw [named, List.zipWith_cons_cons, fillPlaces, place?_ofText, hplace, List.map_cons]
    simp only [hempty]
    rw [← hv]
    simpa [named] using hnext

theorem mapM_map_some (vs : List Pack) : (vs.map some).mapM id = some vs := by
  induction vs with
  | nil => rfl
  | cons v vs ih => simp [ih]

/-- A map with the names of a record as keys, in order, is the record. -/
theorem record?_named {names : List String} {vs : List Pack} (hnodup : names.Nodup) (hlen : vs.length = names.length) :
    record? names (.map (named names vs)) = some vs := by
  have hfill : fillPlaces ([] ++ names) (named names vs) ([].map some ++ vs.map fun _ => none) = some (([] ++ vs).map some) :=
    fillPlaces_named (by simpa using hnodup) rfl hlen
  have hempty : names.map (fun _ => (none : Option Pack)) = vs.map fun _ => none := by
    simp [List.map_const', hlen]
  simp only [List.nil_append, List.map_nil] at hfill
  rw [record?, hempty, hfill]
  exact mapM_map_some vs

end Pack

end RateDesk
