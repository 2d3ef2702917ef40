import RateDesk.Proofs.Feed.Grammar
import RateDesk.Proofs.Settings.Validation
import RateDesk.Venue.Streaming

/-!
# Quotes of configured platforms

* `FeedQuote.line` : the feed line of a quote;
* `read_line` : the quotes that are read back from their lines;
* `handleLine_of_quote`, `handleLine_of_status` : what a venue does with such a line;
* `read_line_iff` : the feed lines of a configured platform that are read as its quotes, and what
  becomes of them;
* `read_line_lost` : validation accepts a platform whose quotes are taken for status lines.
-/

namespace RateDesk

open Text FeedMessage Settings PlatformSettings

variable {s : Settings} {p : PlatformSettings} {i : String} {w r : List Char} {q : FeedQuote} {t : Timestamp}

/-! ## Names of configured platforms -/

/-- Validated settings name their platforms, without the mark that ends a platform in a feed. -/
theorem Settings.name_of_validate (h : s.validate = .ok ()) (hp : p ∈ s.platforms) :
    p.name.toList ≠ [] ∧ '_' ∉ p.name.toList := by
  have hs := validate_eq_ok.1 h
  obtain ⟨c, hc, -⟩ := hs.named p hp
  exact ⟨List.ne_nil_of_mem hc, hs.noUnderscore p hp⟩

/-! ## Lines of quotes -/

/-- The feed line of a quote. -/
def FeedQuote.line (q : FeedQuote) : List Char :=
  quoteLine q.platform q.instrument q.bid.print q.ask.print q.timestamp.print []

namespace FeedQuote

theorem content_line (q : FeedQuote) : content q.line = q.line := by
  obtain ⟨s, hs⟩ := Timestamp.exists_print_eq q.timestamp
  rw [content, line, quoteLine, hs, List.append_nil, ← List.append_assoc, List.rdropWhile_concat_neg _ _ _ (by decide)]

theorem isOther_line (q : FeedQuote) : IsOther q.line ↔ IsOther q.platform := by
  have hline : ∃ r, q.line = q.platform ++ '_' :: r :=
    ⟨q.instrument ++ ("|B:".toList ++ (q.bid.print ++ ("|A:".toList ++ (q.ask.print ++ ("|T:".toList ++
      q.timestamp.print))))), by simp [line, quoteLine]⟩
  obtain ⟨r, hr⟩ := hline
  have hmark : ∀ k : Status, '_' ∉ k.word.toList := by
    intro k
    cases k <;> decide
  rw [hr]
  exact forall_congr' fun k => not_congr (prefix_append_cons (hmark k))

/-- A quote that a feed line can carry: the names keep clear of the marks, and the year has four digits. -/
structure Writable (q : FeedQuote) : Prop where
  platform_ne_nil : q.platform ≠ []
  mark_not_mem : '_' ∉ q.platform
  bar_not_mem : '|' ∉ q.platform
  instrument_ne_nil : q.instrument ≠ []
  bar_not_mem_instrument : '|' ∉ q.instrument
  nanos_lt : q.timestamp.nanos < 2 * Timestamp.perSecond
  year_nonneg : 0 ≤ q.timestamp.year
  year_le : q.timestamp.year ≤ 9999

/-- The line of a quote has the form of the quote at the time that a clock means. -/
theorem isQuote_line (h : q.Writable) (zone : Time.Zone) :
    IsQuote zone q.line { q with timestamp := q.timestamp.shown } := by
  have htime := Timestamp.read_print h.nanos_lt h.year_nonneg h.year_le zone
  exact ⟨q.bid.print, q.ask.print, q.timestamp.print, [], rfl, Or.inl rfl, h.platform_ne_nil, h.mark_not_mem,
    h.bar_not_mem, h.instrument_ne_nil, h.bar_not_mem_instrument, readDecimal_print q.bid, readDecimal_print q.ask,
    readTimestamp_eq_ok.2 htime⟩

/-- The line is read as the quote if the platform does not begin with a status word and a clock shows the
time. -/
theorem read_line (h : q.Writable) (zone : Time.Zone) :
    read zone q.line = .ok (.quote q) ↔ IsOther q.platform ∧ q.timestamp.OnClock := by
  rw [read_eq_quote, content_line, isOther_line, ← readQuote_eq_ok, readQuote_eq_ok.2 (isQuote_line h zone),
    ← Timestamp.shown_eq_self_iff]
  cases q
  simp

theorem exists_read_line (h : ¬ IsOther q.platform) (zone : Time.Zone) :
    ∃ k v, read zone q.line = .ok (Status.message v k) := by
  rcases isOther_or (content q.line) with hother | ⟨k, r, hr⟩
  · rw [content_line, isOther_line] at hother
    exact absurd hother h
  · exact ⟨k, statusText r, read_of_status hr⟩

end FeedQuote

/-! ## Delivery -/

namespace StreamingVenue

variable {v : StreamingVenue}

theorem handleLine_of_quote (h : read v.zone w = .ok (.quote q)) (hp : q.platform = v.platform.toList)
    (hi : String.ofList q.instrument ∈ v.subscriptions) :
    v.handleLine w = v.report (String.ofList q.instrument) q.toRate := by
  simp only [handleLine, h, hp, hi, true_and, if_true]

theorem handleLine_of_status {k : Status} (h : read v.zone w = .ok (k.message r)) : v.handleLine w = ([], v) := by
  unfold handleLine
  cases k <;> simp only [h, Status.message]

theorem report_fst (v : StreamingVenue) (i : String) (r : Rate) :
    (v.report i r).1 = [if i ∈ v.seen then .update i r else .available i r] := by
  unfold report
  split <;> rfl

end StreamingVenue

/-- A feed line of a validated platform is read as the quote it was written from if the name of the platform
begins with no status word, and the time is one that a clock shows. Then a venue that is subscribed to the
instrument reports the rate. A name that begins with a status word makes the venue drop the line. -/
theorem FeedQuote.read_line_iff (hs : s.validate = .ok ()) (hp : p ∈ s.platforms) (hname : '|' ∉ p.name.toList)
    (hi : i ≠ "") (hbar : '|' ∉ i.toList) (ht : t.nanos < 2 * Timestamp.perSecond) (hfirst : 0 ≤ t.year)
    (hlast : t.year ≤ 9999) (bid ask : Decimal) (zone : Time.Zone) :
    let q : FeedQuote := ⟨p.name.toList, i.toList, bid, ask, t⟩
    (read zone q.line = .ok (.quote q) ↔ IsOther p.name.toList ∧ t.OnClock) ∧
    ∀ v : StreamingVenue, v.platform = p.name → i ∈ v.subscriptions →
      (IsOther p.name.toList ∧ t.OnClock → (v.handleLine q.line).1 =
        [if i ∈ v.seen then .update i ⟨i, bid, ask, t⟩ else .available i ⟨i, bid, ask, t⟩]) ∧
      (¬ IsOther p.name.toList → v.handleLine q.line = ([], v)) := by
  intro q
  obtain ⟨hne, hmark⟩ := Settings.name_of_validate hs hp
  have hwritable : q.Writable := ⟨hne, hmark, hname, by simpa [q] using hi, hbar, ht, hfirst, hlast⟩
  have hread : ∀ zone, read zone q.line = .ok (.quote q) ↔ IsOther p.name.toList ∧ t.OnClock :=
    read_line hwritable
  refine ⟨hread zone, fun v hv hsub => ⟨fun h => ?_, fun h => ?_⟩⟩
  · have hofList : String.ofList q.instrument = i := String.ofList_toList
    rw [StreamingVenue.handleLine_of_quote ((hread v.zone).2 h) (congrArg String.toList hv.symm) (by rwa [hofList]),
      StreamingVenue.report_fst, hofList, toRate, hofList]
  · obtain ⟨k, r, hr⟩ := exists_read_line (q := q) h v.zone
    exact StreamingVenue.handleLine_of_status hr

/-! ### Two platforms -/

def Settings.watching (name instrument : String) : Settings where
  platforms := [⟨name, StreamingVenue.kindName, some "localhost", some 9000, none, "user", "password", [instrument],
    defaultPollIntervalMs, defaultReadTimeoutSecs, defaultMaxPollFailures⟩]
  retry := .standard
  cache := .standard
  derivation := .standard
  ipcSocketPath := defaultIpcSocketPath
  healthPort := defaultHealthPort
  alertWebhookUrl := none

/-- A bid of 1.5 and an ask of 1.6, at half past twelve on the first of May 2024. -/
def FeedQuote.sample (platform instrument : String) : FeedQuote :=
  ⟨platform.toList, instrument.toList, ⟨15, 1, by decide, by decide⟩, ⟨16, 1, by decide, by decide⟩, ⟨1714566645, 0⟩⟩

/-- Validation accepts the name INFOREX, and the quotes of that platform are taken for information. -/
theorem FeedQuote.read_line_lost :
    (Settings.watching "INFOREX" "USDTRY").validate = .ok () ∧
    (sample "INFOREX" "USDTRY").line = "INFOREX_USDTRY|B:1.5|A:1.6|T:2024-05-01T12:30:45Z".toList ∧
    read .utc (sample "INFOREX" "USDTRY").line = .ok (.info "REX_USDTRY|B:1.5|A:1.6|T:2024-05-01T12:30:45Z".toList) := by
  refine ⟨by decide, by decide, by decide⟩

/-- The quotes of a platform TCP are read and reported. -/
theorem FeedQuote.read_line_kept :
    read .utc (sample "TCP" "USDTRY").line = .ok (.quote (sample "TCP" "USDTRY")) ∧
    ∀ v : StreamingVenue, v.platform = "TCP" → "USDTRY" ∈ v.subscriptions →
      (v.handleLine (sample "TCP" "USDTRY").line).1 =
        [if "USDTRY" ∈ v.seen then .update "USDTRY" (sample "TCP" "USDTRY").toRate
          else .available "USDTRY" (sample "TCP" "USDTRY").toRate] := by
  have hread := read_line_iff (s := Settings.watching "TCP" "USDTRY") (i := "USDTRY") (t := ⟨1714566645, 0⟩)
    (by decide) List.mem_cons_self (by decide) (by decide) (by decide) (by decide) (by decide) (by decide)
    ⟨15, 1, by decide, by decide⟩ ⟨16, 1, by decide, by decide⟩ .utc
  have hother : IsOther "TCP".toList := by
    intro k
    cases k <;> decide
  have hgood : IsOther "TCP".toList ∧ Timestamp.OnClock ⟨1714566645, 0⟩ := ⟨hother, by decide⟩
  exact ⟨hread.1.2 hgood, fun v hv hi => (hread.2 v hv hi).1 hgood⟩

end RateDesk
