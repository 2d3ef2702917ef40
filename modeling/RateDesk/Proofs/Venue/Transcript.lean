import RateDesk.Proofs.Feed.Commands
import RateDesk.Proofs.Venue.Commands

/-!
# What a venue reads of a session

* `uttered`, `commandsOn` : the commands that the calls of a history have written, all of them and those on one
  connection, in order;
* `sent_after`, `bytes_written` : their lines are what is written, and nothing else;
* `Carries`, `carries_uttered` : the texts in a command are those of the settings and of the calls;
* `Clear`, `legible_iff` : the texts of the settings that make a command legible;
* `commands_read_back` : when a venue reads exactly the commands that were given;
* `commands_forged` : settings that are accepted and have a venue read others.
-/

namespace RateDesk

open FeedCommand

namespace StreamingVenue

variable {v : StreamingVenue} {x : StreamInput} {xs ys : List StreamInput} {i : String} {id : Nat}
  {c : FeedCommand} {p : PlatformSettings}

/-! ## The commands of a history -/

/-- The commands that are written in the course of a history, oldest first, each with the number of its connection. -/
def uttered (v : StreamingVenue) : List StreamInput → List (Nat × FeedCommand)
  | [] => []
  | x :: xs => v.uttered xs ++ (v.after xs).utters x

/-- The commands that are written on a connection in the course of a history, oldest first. -/
def commandsOn (v : StreamingVenue) (id : Nat) (xs : List StreamInput) : List FeedCommand :=
  ((v.uttered xs).filter fun e => e.1 = id).map Prod.snd

theorem sent_after (v : StreamingVenue) (xs : List StreamInput) : (v.after xs).sent = v.sent ++ v.uttered xs := by
  induction xs with
  | nil => exact (List.append_nil _).symm
  | cons x xs ih => rw [after, sent_handle_utters, ih, uttered, List.append_assoc]

/-- The bytes of a text made of the lines of commands. -/
theorem toUTF8_lines (cs : List FeedCommand) : (String.join (cs.map line)).toUTF8.toList = cs.flatMap bytes := by
  rw [toUTF8_eq_encoded, String.toList_join, List.flatMap_map, encoded, List.flatMap_assoc]
  exact congrArg (List.flatMap · cs) (funext fun c => (toUTF8_eq_encoded c.line).symm)

/-- What is written on a connection of a venue that had written nothing before. -/
theorem bytes_written (hv : v.sent = []) (id : Nat) (xs : List StreamInput) :
    ((v.after xs).written id).toUTF8.toList = (v.commandsOn id xs).flatMap bytes := by
  rw [written, sent_after, hv, List.nil_append, ← toUTF8_lines, commandsOn, List.map_map]
  rfl

end StreamingVenue

/-! ## The texts of commands -/

namespace FeedCommand

variable {p : PlatformSettings} {xs ys : List StreamInput} {c : FeedCommand}

/-- The texts in a command are those of a platform, and of a call in a history. -/
def Carries (p : PlatformSettings) (xs : List StreamInput) : FeedCommand → Prop
  | connect u w | disconnect u w => u = p.username ∧ w = p.password
  | subscribe n i => n = p.name ∧ .subscribe i none ∈ xs
  | unsubscribe n i => n = p.name ∧ .unsubscribe i none ∈ xs

theorem Carries.mono (h : c.Carries p xs) (hsub : xs ⊆ ys) : c.Carries p ys := by
  cases c with
  | connect u w => exact h
  | disconnect u w => exact h
  | subscribe n i => exact ⟨h.1, hsub h.2⟩
  | unsubscribe n i => exact ⟨h.1, hsub h.2⟩

/-- The texts in a command keep clear of the marks: a user name of the bar, and all texts of line ends. -/
def Clear : FeedCommand → Prop
  | connect u w | disconnect u w => '|' ∉ u.toList ∧ ¬ BreaksLine u ∧ ¬ BreaksLine w
  | subscribe n i | unsubscribe n i => ¬ BreaksLine n ∧ ¬ BreaksLine i

instance (c : FeedCommand) : Decidable c.Clear := by
  cases c <;> exact inferInstanceAs (Decidable (_ ∧ _))

/-- A command is legible if its texts are clear, since the name of a platform never holds the mark behind it. -/
theorem Carries.legible_iff (h : c.Carries p xs) (hname : '_' ∉ p.name.toList) : c.Legible ↔ c.Clear := by
  cases c with
  | connect u w => exact ⟨fun h => ⟨h.mark, h.first, h.second⟩, fun h => ⟨h.1, h.2.1, h.2.2⟩⟩
  | disconnect u w => exact ⟨fun h => ⟨h.mark, h.first, h.second⟩, fun h => ⟨h.1, h.2.1, h.2.2⟩⟩
  | subscribe n i => exact ⟨fun h => ⟨h.first, h.second⟩, fun hc => ⟨h.1 ▸ hname, hc.1, hc.2⟩⟩
  | unsubscribe n i => exact ⟨fun h => ⟨h.first, h.second⟩, fun hc => ⟨h.1 ▸ hname, hc.1, hc.2⟩⟩

end FeedCommand

namespace StreamingVenue

variable {v : StreamingVenue} {xs : List StreamInput} {id : Nat} {c : FeedCommand} {p : PlatformSettings}

/-- The profile that a platform gives to its venue. -/
def Represents (v : StreamingVenue) (p : PlatformSettings) : Prop :=
  v.platform = p.name ∧ v.username = p.username ∧ v.password = p.password

theorem Represents.after (h : v.Represents p) (xs : List StreamInput) : (v.after xs).Represents p := by
  have hprofile := profile_after v xs
  exact ⟨(congrArg (·.1.2) hprofile).trans h.1, (congrArg (·.2.1) hprofile).trans h.2.1,
    (congrArg (·.2.2) hprofile).trans h.2.2⟩

theorem carries_uttered (h : v.Represents p) (hmem : (id, c) ∈ v.uttered xs) : c.Carries p xs := by
  induction xs with
  | nil => cases hmem
  | cons x xs ih =>
    obtain ⟨hplatform, husername, hpassword⟩ := h.after xs
    rcases List.mem_append.1 hmem with hmem | hmem
    · exact (ih hmem).mono (List.subset_cons_self x xs)
    · obtain ⟨rfl, -⟩ | ⟨rfl, -⟩ | ⟨i, rfl, rfl, -⟩ | ⟨i, rfl, rfl, -⟩ := mem_utters hmem
      · exact ⟨husername, hpassword⟩
      · exact ⟨husername, hpassword⟩
      · exact ⟨hplatform, List.mem_cons_self⟩
      · exact ⟨hplatform, List.mem_cons_self⟩

theorem carries_commandsOn (h : v.Represents p) (hc : c ∈ v.commandsOn id xs) : c.Carries p xs := by
  obtain ⟨e, he, rfl⟩ := List.mem_map.1 hc
  exact carries_uttered h (List.mem_of_mem_filter he)

/-! ## Reading a session -/

/-- **What a venue reads of a session.** On every connection of a venue made from validated settings, along every
history, the bytes that are written are whole lines. The commands that a venue reads in them are the commands that were
given, with their texts and in their order, if and only if the texts keep clear of the marks: validation keeps the
underscore out of the names of platforms, but no bar out of a user name, and no line end out of any text. The texts are
those of the settings and of the calls. -/
theorem commands_read_back {s : Settings} (hs : s.validate = .ok ()) (hp : p ∈ s.platforms) {zone : Time.Zone}
    (hv : ofSettings zone p = .ok v) (xs : List StreamInput) (id : Nat) :
    let written := ((v.after xs).written id).toUTF8.toList
    let given := v.commandsOn id xs
    (Wire.splitLines written).2 = [] ∧ (∀ c ∈ given, c.Carries p xs) ∧
      (readCommands written = given.map some ↔ ∀ c ∈ given, c.Clear) := by
  intro written given
  have hname := (Settings.name_of_validate hs hp).2
  obtain ⟨_, -, hv⟩ := bind_eq_ok.1 hv
  cases hv
  have hwritten : written = given.flatMap bytes := bytes_written rfl id xs
  have hcarries : ∀ c ∈ given, c.Carries p xs := fun c hc => carries_commandsOn ⟨rfl, rfl, rfl⟩ hc
  rw [hwritten]
  refine ⟨splitLines_commands given, hcarries, readCommands_eq_iff.trans ?_⟩
  exact forall₂_congr fun c hc => (hcarries c hc).legible_iff hname

def venueOf (username instrument : String) : PlatformSettings where
  name := "TCP"
  kind := kindName
  host := some "localhost"
  port := some 9000
  baseUrl := none
  username := username
  password := "pw"
  instruments := [instrument]
  pollIntervalMs := 500
  readTimeoutSecs := 60
  maxPollFailures := 3

def only (p : PlatformSettings) : Settings := { Settings.watching "TCP" "USDTRY" with platforms := [p] }

/-- A login, and the subscription of the instruments of a platform; the newest first. -/
def opening (p : PlatformSettings) : List StreamInput :=
  p.instruments.map (.subscribe · none) ++ [.connect (.greeted "SUCCESS|CONNECTED".toList)]

/-- A bar in a user name moves the password, and a line end in an instrument hides another command. -/
theorem commands_forged :
    let p := venueOf "desk|ops" "USDTRY\r\nunsubscribe|TCP_EURUSD"
    (only p).validate = .ok () ∧ p ∈ (only p).platforms ∧
    ∃ v, ofSettings .utc p = .ok v ∧
      v.commandsOn 1 (opening p) =
        [.connect "desk|ops" "pw", .subscribe "TCP" "USDTRY\r\nunsubscribe|TCP_EURUSD"] ∧
      readCommands ((v.after (opening p)).written 1).toUTF8.toList =
        [some (.connect "desk" "ops|pw"), some (.subscribe "TCP" "USDTRY"), some (.unsubscribe "TCP" "EURUSD")] := by
  refine ⟨by decide, List.mem_singleton_self _, _, rfl, by decide, ?_⟩
  let forged : List FeedCommand := [.connect "desk" "ops|pw", .subscribe "TCP" "USDTRY", .unsubscribe "TCP" "EURUSD"]
  -- the same text is written for commands that are legible, so these are what is read
  have htext : forged.flatMap bytes = (String.join (forged.map line)).toUTF8.toList := (toUTF8_lines forged).symm
  have hread : readCommands (forged.flatMap bytes) = forged.map some := readCommands_eq_iff.2 (by decide)
  rw [htext] at hread
  exact hread

/-- A login, a subscription, and the end of the session. -/
theorem commands_read_back_desk :
    let p := venueOf "desk" "USDTRY"
    (only p).validate = .ok () ∧ p ∈ (only p).platforms ∧
    ∃ v, ofSettings .utc p = .ok v ∧
      readCommands ((v.after (.disconnect :: opening p)).written 1).toUTF8.toList =
        [some (.connect "desk" "pw"), some (.subscribe "TCP" "USDTRY"), some (.disconnect "desk" "pw")] := by
  intro p
  have hs : (only p).validate = .ok () := by decide
  have hp : p ∈ (only p).platforms := List.mem_singleton_self p
  obtain ⟨v, hv⟩ : ∃ v, ofSettings .utc p = .ok v := ⟨_, rfl⟩
  obtain ⟨-, -, hread⟩ := commands_read_back hs hp hv (.disconnect :: opening p) 1
  refine ⟨hs, hp, v, hv, ?_⟩
  cases hv
  exact hread.2 (by decide)

end StreamingVenue

end RateDesk
