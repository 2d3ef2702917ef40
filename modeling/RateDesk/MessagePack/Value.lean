import RateDesk.Number.Binary64

/-!
# MessagePack

The binary format of the frames: every value is a marker byte, sometimes a length, and contents.
Main definitions: `Pack` (a value), `writeText` and `writeMapHead` (the parts that frames are made
of), `Pack.read` (any value).
-/

namespace RateDesk

/-- A MessagePack value. Strings are bytes, because a text need not be valid UTF-8. -/
inductive Pack where
  | nil
  | bool (b : Bool)
  | int (n : Int)
  | float (x : Binary64)
  | str (bytes : List UInt8)
  | bin (bytes : List UInt8)
  | ext
  | array (xs : List Pack)
  | map (entries : List (Pack × Pack))

namespace Pack

/-! ## Writing -/

/-- A number in `width` bytes, most significant byte first. -/
def bigEndian : (width n : Nat) → List UInt8
  | 0, _ => []
  | width + 1, n => UInt8.ofNat (n / twoPow (8 * width)) :: bigEndian width n

/-- The marker and the length of a text of `n` bytes, in the shortest of the four forms. -/
def textHead (n : Nat) : List UInt8 :=
  if n < 32 then [UInt8.ofNat (0xA0 + n)]
  else if n < twoPow 8 then 0xD9 :: bigEndian 1 n
  else if n < twoPow 16 then 0xDA :: bigEndian 2 n
  else 0xDB :: bigEndian 4 n

def writeText (s : String) : List UInt8 :=
  let bytes := s.toUTF8.toList
  textHead bytes.length ++ bytes

/-- The marker of a map with fewer than sixteen entries. -/
def writeMapHead (n : Nat) : List UInt8 := [UInt8.ofNat (0x80 + n)]

/-! ## Reading -/

abbrev maxDepth : Nat := 1023

def ofBytes (bytes : List UInt8) : Nat := bytes.foldl (fun n b => n * 256 + b.toNat) 0

/-- The first `n` bytes and the rest, if there are as many. -/
def takeBytes (n : Nat) (s : List UInt8) : Option (List UInt8 × List UInt8) :=
  if n ≤ s.length then some (s.take n, s.drop n) else none

def takeNat (width : Nat) (s : List UInt8) : Option (Nat × List UInt8) :=
  (takeBytes width s).map fun (b, r) => (ofBytes b, r)

def takeInt (width : Nat) (s : List UInt8) : Option (Int × List UInt8) :=
  (takeNat width s).map fun (n, r) =>
    (if n < twoPow (8 * width) / 2 then (n : Int) else n - twoPow (8 * width), r)

def takeBody (f : List UInt8 → Pack) (x : Option (Nat × List UInt8)) : Option (Pack × List UInt8) := do
  let (n, s) ← x
  let (b, r) ← takeBytes n s
  return (f b, r)

/-- An extension: a length, a type byte and contents, of which nothing is kept. -/
def takeExt (x : Option (Nat × List UInt8)) : Option (Pack × List UInt8) := do
  let (n, s) ← x
  let (_, r) ← takeBytes (n + 1) s
  return (.ext, r)

/-- What a marker announces. -/
inductive Head where
  /-- A value that holds no other values. -/
  | scalar (v : Pack)
  | array (n : Nat)
  | map (n : Nat)

/-- Reads a marker with the length or contents that belong to it. -/
def readHead : List UInt8 → Option (Head × List UInt8)
  | [] => none
  | marker :: s =>
    let n := marker.toNat
    let scalar (x : Option (Pack × List UInt8)) : Option (Head × List UInt8) := x.map fun (v, r) => (.scalar v, r)
    let array (x : Option (Nat × List UInt8)) : Option (Head × List UInt8) := x.map fun (n, r) => (.array n, r)
    let map (x : Option (Nat × List UInt8)) : Option (Head × List UInt8) := x.map fun (n, r) => (.map n, r)
    let int (x : Option (Int × List UInt8)) : Option (Head × List UInt8) := x.map fun (n, r) => (.scalar (.int n), r)
    let nat (x : Option (Nat × List UInt8)) : Option (Head × List UInt8) := int (x.map fun (n, r) => (Int.ofNat n, r))
    if n < 0x80 then some (.scalar (.int n), s)
    else if n < 0x90 then some (.map (n - 0x80), s)
    else if n < 0xA0 then some (.array (n - 0x90), s)
    else if n < 0xC0 then scalar (takeBody .str (some (n - 0xA0, s)))
    else if 0xE0 ≤ n then some (.scalar (.int (n - 256)), s)
    else
      match n with
      | 0xC0 => some (.scalar .nil, s)
      | 0xC2 => some (.scalar (.bool false), s)
      | 0xC3 => some (.scalar (.bool true), s)
      | 0xC4 => scalar (takeBody .bin (takeNat 1 s))
      | 0xC5 => scalar (takeBody .bin (takeNat 2 s))
      | 0xC6 => scalar (takeBody .bin (takeNat 4 s))
      | 0xC7 => scalar (takeExt (takeNat 1 s))
      | 0xC8 => scalar (takeExt (takeNat 2 s))
      | 0xC9 => scalar (takeExt (takeNat 4 s))
      | 0xCA => (takeNat 4 s).map fun (b, r) => (.scalar (.float (.ofBits32 b)), r)
      | 0xCB => (takeNat 8 s).map fun (b, r) => (.scalar (.float (.ofBits b)), r)
      | 0xCC => nat (takeNat 1 s)
      | 0xCD => nat (takeNat 2 s)
      | 0xCE => nat (takeNat 4 s)
      | 0xCF => nat (takeNat 8 s)
      | 0xD0 => int (takeInt 1 s)
      | 0xD1 => int (takeInt 2 s)
      | 0xD2 => int (takeInt 4 s)
      | 0xD3 => int (takeInt 8 s)
      | 0xD4 => scalar (takeExt (some (1, s)))
      | 0xD5 => scalar (takeExt (some (2, s)))
      | 0xD6 => scalar (takeExt (some (4, s)))
      | 0xD7 => scalar (takeExt (some (8, s)))
      | 0xD8 => scalar (takeExt (some (16, s)))
      | 0xD9 => scalar (takeBody .str (takeNat 1 s))
      | 0xDA => scalar (takeBody .str (takeNat 2 s))
      | 0xDB => scalar (takeBody .str (takeNat 4 s))
      | 0xDC => array (takeNat 2 s)
      | 0xDD => array (takeNat 4 s)
      | 0xDE => map (takeNat 2 s)
      | 0xDF => map (takeNat 4 s)
      | _ => none

mutual

/-- Reads a value nested at most `depth` deep; `fuel` bounds the steps. -/
def readFuel : (fuel depth : Nat) → List UInt8 → Option (Pack × List UInt8)
  | 0, _, _ => none
  | fuel + 1, depth, s => do
    let (head, r) ← readHead s
    match head, depth with
    | .scalar v, _ => return (v, r)
    | _, 0 => none
    | .array n, depth + 1 =>
      let (xs, r) ← readElements fuel depth n r
      return (.array xs, r)
    | .map n, depth + 1 =>
      let (xs, r) ← readEntries fuel depth n r
      return (.map xs, r)

def readElements : (fuel depth n : Nat) → List UInt8 → Option (List Pack × List UInt8)
  | 0, _, _, _ => none
  | _ + 1, _, 0, s => some ([], s)
  | fuel + 1, depth, n + 1, s => do
    let (x, r) ← readFuel fuel depth s
    let (xs, r) ← readElements fuel depth n r
    return (x :: xs, r)

def readEntries : (fuel depth n : Nat) → List UInt8 → Option (List (Pack × Pack) × List UInt8)
  | 0, _, _, _ => none
  | _ + 1, _, 0, s => some ([], s)
  | fuel + 1, depth, n + 1, s => do
    let (k, r) ← readFuel fuel depth s
    let (v, r) ← readFuel fuel depth r
    let (xs, r) ← readEntries fuel depth n r
    return ((k, v) :: xs, r)

end

def read (s : List UInt8) : Option (Pack × List UInt8) := readFuel (2 * s.length + 2) maxDepth s

/-! ## Views of a value -/

def text? : Pack → Option String
  | str b => String.fromUTF8? ⟨b.toArray⟩
  | bin b => String.fromUTF8? ⟨b.toArray⟩
  | _ => none

/-- Which of the names a key is, by its text or its place: none for an unknown name, an error for a
key of another type. -/
def place? (names : List String) : Pack → Except Unit (Option Nat)
  | str b => .ok (names.findIdx? fun n => n.toUTF8.toList == b)
  | bin b => .ok (names.findIdx? fun n => n.toUTF8.toList == b)
  | int n => if n < 0 then .error () else .ok (if n.toNat < names.length then some n.toNat else none)
  | _ => .error ()

/-- Puts the entries of a map into the places of their names; a name may be unknown but not
repeated. -/
def fillPlaces (names : List String) : List (Pack × Pack) → List (Option Pack) → Option (List (Option Pack))
  | [], filled => some filled
  | (k, v) :: rest, filled =>
    match place? names k with
    | .error () => none
    | .ok none => fillPlaces names rest filled
    | .ok (some i) =>
      match filled[i]? with
      | some none => fillPlaces names rest (filled.set i (some v))
      | _ => none

/-- The fields of a record in the order of their names, given as a map or as an array. -/
def record? (names : List String) : Pack → Option (List Pack)
  | map entries => do (← fillPlaces names entries (names.map fun _ => none)).mapM id
  | array xs => if xs.length = names.length then some xs else none
  | _ => none

end Pack

end RateDesk
