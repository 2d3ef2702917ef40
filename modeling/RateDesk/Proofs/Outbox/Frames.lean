import RateDesk.Outbox.Message
import RateDesk.Proofs.Feed.Delivery
import RateDesk.Proofs.MessagePack.Written

/-!
# Frames in writing and back

A printed time is what a clock shows, so a message is read back at the time that the clock means.

* `shown` : a message at the time that a clock means;
* `reads_payload`, `ofPack?_pack`, `read_payload` : a payload is read as the message it was written from;
* `readFrames`, `readFrames_flatten` : frames one after the other are read as their messages;
* `frame_eq_iff`, `frame_eq_of_prefix` : which frames are equal, and that none begins another one;
* `frames_read_back` : all of it, for messages whose times were read.
-/

namespace RateDesk

open Text Pack

namespace Message

variable {m m' : Message} {data data' f f' s r : List UInt8} {name instrument : String} {bid ask : Decimal} {t : Timestamp}

/-! ## Payloads -/

def time : Message → Timestamp
  | raw _ r => r.observedAt
  | calculated r => r.computedAt

/-- A message at the time that a clock means. -/
def shown : Message → Message
  | raw platform r => raw platform { r with observedAt := r.observedAt.shown }
  | calculated r => calculated { r with computedAt := r.computedAt.shown }

/-- The fields of a rate as texts. -/
def rateTexts (timeName instrument : String) (bid ask : Decimal) (time : Timestamp) : List (String × String) :=
  [("instrument", instrument), ("bid", toString bid), ("ask", toString ask), (timeName, toString time)]

def ratePack (timeName instrument : String) (bid ask : Decimal) (time : Timestamp) : Pack :=
  .map ((rateTexts timeName instrument bid ask time).map fun p => (ofText p.1, ofText p.2))

def pack : Message → Pack
  | raw platform r => .map (named ["Raw"] [.map (named ["platform", "rate"]
      [ofText platform, ratePack "observed_at" r.instrument r.bid r.ask r.observedAt])])
  | calculated r => .map (named ["Calculated"] [.map (named ["rate"]
      [ratePack "computed_at" r.instrument r.bid r.ask r.computedAt])])

/-! ## Fields -/

theorem text?_ofText (t : String) : text? (ofText t) = some t := fromUTF8?_toUTF8 t

theorem decimal?_ofText (x : Decimal) : decimal? (ofText (toString x)) = some x := by
  have hread : Decimal.read (toString x).toList = .ok x := by
    rw [show (toString x).toList = x.print from String.toList_ofList, Decimal.read_print]
  unfold decimal? ofText
  dsimp only
  rw [fromUTF8?_toUTF8]
  simp [hread, Except.toOption]

theorem timestamp?_ofText (h : t.nanos < 2 * Timestamp.perSecond) (hr : Timestamp.inRange t.seconds) :
    timestamp? (ofText (toString t)) = some t.shown := by
  have hread : Timestamp.readLenient (toString t).toList = some t.shown := by
    rw [show (toString t).toList = t.print from String.toList_ofList, Timestamp.readLenient_print h hr]
  unfold timestamp? ofText
  dsimp only
  rw [fromUTF8?_toUTF8]
  simp [hread]

theorem rate?_ratePack (hname : ["instrument", "bid", "ask", name].Nodup) (h : t.nanos < 2 * Timestamp.perSecond)
    (hr : Timestamp.inRange t.seconds) :
    rate? name (ratePack name instrument bid ask t) = some (instrument, bid, ask, t.shown) := by
  have hpack : ratePack name instrument bid ask t = .map (named ["instrument", "bid", "ask", name]
      [ofText instrument, ofText (toString bid), ofText (toString ask), ofText (toString t)]) := rfl
  have hrecord : (ratePack name instrument bid ask t).record? ["instrument", "bid", "ask", name] =
      some [ofText instrument, ofText (toString bid), ofText (toString ask), ofText (toString t)] := by
    rw [hpack, record?_named hname rfl]
  simp [rate?, hrecord, text?_ofText, decimal?_ofText, timestamp?_ofText h hr]

/-- A message is got back from its value at the time that a clock means. -/
theorem ofPack?_pack (h : m.time.nanos < 2 * Timestamp.perSecond) (hr : Timestamp.inRange m.time.seconds) :
    ofPack? m.pack = some m.shown := by
  cases m with
  | raw platform r =>
    have hkind : place? ["Raw", "Calculated"] (ofText "Raw") = .ok (some 0) := place?_ofText _ _
    have hrecord : record? ["platform", "rate"] (.map (named ["platform", "rate"]
        [ofText platform, ratePack "observed_at" r.instrument r.bid r.ask r.observedAt])) = some _ :=
      record?_named (by decide) rfl
    have hrate : rate? "observed_at" (ratePack "observed_at" r.instrument r.bid r.ask r.observedAt) = some _ :=
      rate?_ratePack (by decide) h hr
    simp only [named, List.zipWith_cons_cons, List.zipWith_nil_left] at hrecord
    simp [pack, named, ofPack?, hkind, ofBody?, hrecord, text?_ofText, hrate, shown]
  | calculated r =>
    have hkind : place? ["Raw", "Calculated"] (ofText "Calculated") = .ok (some 1) := place?_ofText _ _
    have hrecord : record? ["rate"] (.map (named ["rate"]
        [ratePack "computed_at" r.instrument r.bid r.ask r.computedAt])) = some _ :=
      record?_named (by decide) rfl
    have hrate : rate? "computed_at" (ratePack "computed_at" r.instrument r.bid r.ask r.computedAt) = some _ :=
      rate?_ratePack (by decide) h hr
    simp only [named, List.zipWith_cons_cons, List.zipWith_nil_left] at hrecord
    simp [pack, named, ofPack?, hkind, ofBody?, hrecord, hrate, shown]

/-! ## Bytes -/

theorem writeRate_eq (name instrument : String) (bid ask : Decimal) (time : Timestamp) :
    writeRate name instrument bid ask time = writeMapHead 4 ++
      (rateTexts name instrument bid ask time).flatMap fun p => writeText p.1 ++ writeText p.2 := by
  simp [writeRate, rateTexts]

theorem reads_rate (hsize : (writeRate name instrument bid ask t).length < twoPow 32) :
    Reads 1 (writeRate name instrument bid ask t) (ratePack name instrument bid ask t) := by
  rw [writeRate_eq] at hsize ⊢
  rw [List.length_append] at hsize
  exact reads_map rfl (by decide) (readsEntries_texts (by omega))

/-- A payload is read as the value that it was written from. -/
theorem reads_payload (hsize : m.payload.length < twoPow 32) : Reads 3 m.payload m.pack := by
  cases m with
  | raw platform r =>
    simp only [payload, List.append_assoc, List.length_append] at hsize ⊢
    have hkind := length_writeText "Raw"
    have hplatform := length_writeText "platform"
    have hname := length_writeText platform
    have hkey := length_writeText "rate"
    have hrate : Reads 1 _ (ratePack "observed_at" r.instrument r.bid r.ask r.observedAt) := reads_rate (by omega)
    have hbody := reads_map (n := 2) rfl (by decide) (readsEntries_cons (t := "platform") (by omega)
      (reads_text (t := platform) (by omega)) (readsEntries_cons (t := "rate") (by omega) hrate readsEntries_nil))
    have hread : Reads 3 _ (raw platform r).pack :=
      reads_map (n := 1) rfl (by decide) (readsEntries_cons (t := "Raw") (by omega) hbody readsEntries_nil)
    simpa only [List.append_nil, List.append_assoc] using hread
  | calculated r =>
    simp only [payload, List.append_assoc, List.length_append] at hsize ⊢
    have hkind := length_writeText "Calculated"
    have hkey := length_writeText "rate"
    have hrate : Reads 1 _ (ratePack "computed_at" r.instrument r.bid r.ask r.computedAt) := reads_rate (by omega)
    have hbody := reads_map (n := 1) rfl (by decide) (readsEntries_cons (t := "rate") (by omega) hrate readsEntries_nil)
    have hread : Reads 3 _ (calculated r).pack :=
      reads_map (n := 1) rfl (by decide) (readsEntries_cons (t := "Calculated") (by omega) hbody readsEntries_nil)
    simpa only [List.append_nil, List.append_assoc] using hread

/-- A payload is read as the message at the time that a clock means. -/
theorem read_payload (hsize : m.payload.length < twoPow 32) (h : m.time.nanos < 2 * Timestamp.perSecond)
    (hr : Timestamp.inRange m.time.seconds) : read m.payload = some m.shown := by
  rw [read, read_of_reads (reads_payload hsize) (by decide)]
  exact ofPack?_pack h hr

theorem payload_shown (h : m.time.nanos < 2 * Timestamp.perSecond) : m.shown.payload = m.payload := by
  cases m with
  | raw platform r => simp only [payload, shown, writeRate, toString, Timestamp.print_shown (t := r.observedAt) h]
  | calculated r => simp only [payload, shown, writeRate, toString, Timestamp.print_shown (t := r.computedAt) h]

theorem shown_eq_self_iff : m.shown = m ↔ m.time.OnClock := by
  rw [← Timestamp.shown_eq_self_iff]
  cases m with
  | raw platform r =>
    cases r
    simp [shown, time]
  | calculated r =>
    cases r
    simp [shown, time]

/-! ## Frames -/

theorem frameOf_eq_ok : frameOf data = .ok f ↔ data.length < twoPow 32 ∧ f = bigEndian 4 data.length ++ data := by
  unfold frameOf
  split <;> simp [*, eq_comm]

/-- The payload of the first frame of a stream, and what follows. -/
def takeFrame (s : List UInt8) : Option (List UInt8 × List UInt8) := (takeNat 4 s).bind fun (n, r) => takeBytes n r

theorem takeFrame_append (h : frameOf data = .ok f) (r : List UInt8) : takeFrame (f ++ r) = some (data, r) := by
  obtain ⟨hlt, rfl⟩ := frameOf_eq_ok.1 h
  rw [takeFrame, List.append_assoc, takeNat_bigEndian (w := 4) hlt]
  exact takeBytes_append data r

theorem length_of_takeFrame (h : takeFrame s = some (data, r)) : r.length < s.length := by
  obtain ⟨⟨n, q⟩, hnat, hbytes⟩ := Option.bind_eq_some_iff.1 h
  obtain ⟨⟨b, q'⟩, htake, heq⟩ := Option.map_eq_some_iff.1 hnat
  cases heq
  have hq := length_of_takeBytes htake
  have hr := length_of_takeBytes hbytes
  omega

/-- No frame is the beginning of another one. -/
theorem frame_eq_of_prefix (h : frameOf data = .ok f) (h' : frameOf data' = .ok f') (hpre : f <+: f') : f = f' := by
  obtain ⟨r, rfl⟩ := hpre
  have htake := takeFrame_append h' []
  rw [List.append_nil, takeFrame_append h, Option.some.injEq, Prod.mk.injEq] at htake
  rw [htake.2, List.append_nil]

def readFrames (s : List UInt8) : Option (List Message) :=
  if s = [] then some []
  else
    match _h : takeFrame s with
    | none => none
    | some (data, r) => do
      let m ← read data
      let ms ← readFrames r
      return m :: ms
termination_by s.length
decreasing_by exact length_of_takeFrame _h

theorem readFrames_append (h : frameOf data = .ok f) (hm : read data = some m) (r : List UInt8) :
    readFrames (f ++ r) = (readFrames r).map (m :: ·) := by
  have hne : f ++ r ≠ [] := by
    obtain ⟨-, rfl⟩ := frameOf_eq_ok.1 h
    exact List.append_ne_nil_of_left_ne_nil (List.append_ne_nil_of_left_ne_nil (List.cons_ne_nil _ _) _) r
  rw [readFrames, if_neg hne]
  split
  · rename_i htake
    rw [takeFrame_append h] at htake
    cases htake
  · rename_i htake
    rw [takeFrame_append h] at htake
    cases htake
    rw [hm]
    cases readFrames r <;> rfl

/-- Frames one after the other are read as the messages at the times that a clock means. -/
theorem readFrames_flatten (ms : List Message) (hsize : ∀ m ∈ ms, m.payload.length < twoPow 32)
    (hnanos : ∀ m ∈ ms, m.time.nanos < 2 * Timestamp.perSecond) (hr : ∀ m ∈ ms, Timestamp.inRange m.time.seconds) :
    ∃ frames, ms.mapM frame = .ok frames ∧ readFrames frames.flatten = some (ms.map shown) := by
  induction ms with
  | nil =>
    refine ⟨[], rfl, ?_⟩
    rw [List.flatten_nil, readFrames]
    rfl
  | cons m ms ih =>
    rw [List.forall_mem_cons] at hsize hnanos hr
    obtain ⟨frames, hframes, hms⟩ := ih hsize.2 hnanos.2 hr.2
    have hframe : m.frame = .ok (bigEndian 4 m.payload.length ++ m.payload) := frameOf_eq_ok.2 ⟨hsize.1, rfl⟩
    refine ⟨(bigEndian 4 m.payload.length ++ m.payload) :: frames, ?_, ?_⟩
    · rw [List.mapM_cons, hframe, hframes]
      rfl
    · rw [List.flatten_cons, readFrames_append hframe (read_payload hsize.1 hnanos.1 hr.1), hms]
      rfl

/-- Messages have one frame if a clock means the same message by both. -/
theorem frame_eq_iff (hsize : m.payload.length < twoPow 32) (h : m.time.nanos < 2 * Timestamp.perSecond)
    (h' : m'.time.nanos < 2 * Timestamp.perSecond) (hr : Timestamp.inRange m.time.seconds)
    (hr' : Timestamp.inRange m'.time.seconds) : m.frame = m'.frame ↔ m.shown = m'.shown := by
  constructor
  · intro heq
    have hframe : m.frame = .ok _ := frameOf_eq_ok.2 ⟨hsize, rfl⟩
    have hframe' := hframe
    rw [heq] at hframe'
    have htake := takeFrame_append hframe []
    rw [takeFrame_append hframe' [], Option.some.injEq, Prod.mk.injEq] at htake
    have hread := read_payload hsize h hr
    rw [← htake.1] at hsize hread
    rw [read_payload hsize h' hr'] at hread
    exact (Option.some.inj hread).symm
  · intro heq
    rw [frame, frame, ← payload_shown h, heq, payload_shown h']

/-- For messages whose times were read, frames one after the other are read back as the messages, each at the
time that a clock means. That is the time of the message unless it is a leap second off the second 59, which is
never read where the offsets are whole minutes. Frames are equal for equal messages, as far as a clock tells
them apart, and no frame is the beginning of another one. -/
theorem frames_read_back (ms : List Message) (hread : ∀ m ∈ ms, ∃ zone s, readTimestamp zone s = .ok m.time)
    (hsize : ∀ m ∈ ms, m.payload.length < twoPow 32) :
    (∃ frames, ms.mapM frame = .ok frames ∧ readFrames frames.flatten = some (ms.map shown)) ∧
    (ms.map shown = ms ↔ ∀ m ∈ ms, m.time.OnClock) ∧
    (∀ m ∈ ms, ∀ zone s, readTimestamp zone s = .ok m.time →
      (∀ wall offset, zone.offsetOfWall wall = some offset → offset % 60 = 0) → m.time.OnClock) ∧
    (∀ m ∈ ms, ∀ m' ∈ ms, m.frame = m'.frame ↔ m.shown = m'.shown) ∧
    (∀ m ∈ ms, ∀ m' ∈ ms, ∀ f f', m.frame = .ok f → m'.frame = .ok f' → f <+: f' → f = f') := by
  have hnanos : ∀ m ∈ ms, m.time.nanos < 2 * Timestamp.perSecond := by
    intro m hm
    obtain ⟨zone, s, hs⟩ := hread m hm
    exact Timestamp.nanos_lt_of_read (readTimestamp_eq_ok.1 hs)
  have hr : ∀ m ∈ ms, Timestamp.inRange m.time.seconds := by
    intro m hm
    obtain ⟨zone, s, hs⟩ := hread m hm
    exact (Timestamp.read_spec (readTimestamp_eq_ok.1 hs)).2.1
  refine ⟨readFrames_flatten ms hsize hnanos hr, ?_, ?_, ?_, ?_⟩
  · have hself : ms.map shown = ms.map id ↔ ∀ m ∈ ms, m.shown = m := List.map_inj_left
    rw [List.map_id] at hself
    exact hself.trans (forall₂_congr fun m _ => shown_eq_self_iff)
  · intro m _ zone s hs hzone
    exact Timestamp.onClock_of_read hzone (readTimestamp_eq_ok.1 hs)
  · intro m hm m' hm'
    exact frame_eq_iff (hsize m hm) (hnanos m hm) (hnanos m' hm') (hr m hm) (hr m' hm')
  · intro m _ m' _ f f' hf hf'
    exact frame_eq_of_prefix hf hf'

/-! ### Two leap seconds -/

def sample (time : Timestamp) : Message :=
  raw "TCP" { (FeedQuote.sample "TCP" "USDTRY").toRate with observedAt := time }

theorem length_payload_sample : (sample ⟨1714566674, 1000000000⟩).payload.length < twoPow 32 ∧
    (sample ⟨1714566659, 1000000000⟩).payload.length < twoPow 32 := by
  simp only [payload, sample, writeRate, writeText, toList_toUTF8]
  decide

/-- On clocks fifteen seconds behind, a leap second that ends a minute is not read back: its frame is that of
the second after it. -/
theorem leap_second_lost :
    Time.Zone.read "XST0:00:15".toList = some (.fixed (-15)) ∧
    readTimestamp (.fixed (-15)) "2024-05-01T12:30:60".toList = .ok ⟨1714566674, 1000000000⟩ ∧
    sample ⟨1714566674, 1000000000⟩ ≠ sample ⟨1714566675, 0⟩ ∧
    (sample ⟨1714566674, 1000000000⟩).frame = (sample ⟨1714566675, 0⟩).frame ∧
    ∃ frames, [sample ⟨1714566674, 1000000000⟩].mapM frame = .ok frames ∧
      readFrames frames.flatten = some [sample ⟨1714566675, 0⟩] := by
  have hshown : (sample ⟨1714566674, 1000000000⟩).shown = sample ⟨1714566675, 0⟩ := by decide
  refine ⟨by decide, by decide, by decide, ?_, ?_⟩
  · rw [frame, frame, ← hshown, payload_shown (by decide)]
  · simpa only [List.map_cons, List.map_nil, hshown] using
      readFrames_flatten [sample ⟨1714566674, 1000000000⟩] (by simpa using length_payload_sample.1) (by simp; decide)
        (by simp; decide)

/-- In Coordinated Universal Time it is read back. -/
theorem leap_second_read_back :
    ∃ frames, [sample ⟨1714566659, 1000000000⟩].mapM frame = .ok frames ∧
      readFrames frames.flatten = some [sample ⟨1714566659, 1000000000⟩] := by
  have hread : readTimestamp .utc "2024-05-01T12:30:60Z".toList = .ok ⟨1714566659, 1000000000⟩ := by decide
  obtain ⟨hframes, hshown, -⟩ := frames_read_back [sample ⟨1714566659, 1000000000⟩]
    (by simpa using ⟨_, _, hread⟩) (by simpa using length_payload_sample.2)
  rwa [hshown.2 (by simp; decide)] at hframes

end Message

end RateDesk
