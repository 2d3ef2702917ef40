import RateDesk.Proofs.Coordinator.Unsubscribe

/-!
# What a worker subscribes

After every successful connect a worker subscribes what it was told to, less what it was told to give up since.

* `Post.dismissed`, `Coordinator.dismissed` : the instruments that the commands which a worker took name;
* `Post.deed_instruments`, `run_instruments` : what is left of the instruments of a worker;
* `Post.deed_connected` : what the worker makes of a successful connect;
* `connected_subscribes_the_rest` : so it subscribes exactly what is left, in order, and nothing else ever.
-/

namespace RateDesk

def Effect.subscribe? : Effect → Option String
  | subscribe i => some i
  | _ => none

/-- The instruments that a command gives up. -/
def WorkerInput.dismissed : WorkerInput → List String
  | unsubscribe i => [i]
  | _ => []

theorem Worker.Move.instruments_eq {w w' : Worker} {t : Instant} {x : WorkerInput} {es : List Effect}
    (hm : w.Move t x w' es) : w'.instruments = w.instruments.filter (· ∉ x.dismissed) := by
  cases hm with
  | unsubscribed i => simp [WorkerInput.dismissed]
  | connected _ => simp [WorkerInput.dismissed]
  | tooLate _ => simp [WorkerInput.dismissed]
  | lost _ _ _ _ _ => simp [WorkerInput.dismissed]
  | stranded _ _ _ _ _ => simp [WorkerInput.dismissed]
  | gaveUp _ _ _ _ => simp [WorkerInput.dismissed]
  | lostBefore _ _ => simp [WorkerInput.dismissed]
  | quoted _ _ _ => simp [WorkerInput.dismissed]
  | dropped _ _ => simp [WorkerInput.dismissed]
  | retried => simp [WorkerInput.dismissed]

namespace Post

variable {σ : Type} [Venue σ] {d : Derivation} {now : Now} {p : Post σ} {s : Shared} {a : Deed σ} {i : String}

/-- The instruments that a command names which the worker takes. -/
def dismissed (p : Post σ) (_ : Instant) : Deed σ → List String
  | .unsubscribe i => if p.phase = .running then [i] else []
  | _ => []

omit [Venue σ] in
theorem dismissed_of_input? {t : Instant} {x : WorkerInput} (hphase : p.phase = .running)
    (h : p.input? t a = some x) : p.dismissed t a = x.dismissed := by
  cases a with
  | unsubscribe i =>
    cases h
    simp [dismissed, WorkerInput.dismissed, hphase]
  | handle =>
    obtain ⟨e, -, rfl⟩ := Option.map_eq_some_iff.1 h
    rfl
  | retry =>
    simp only [input?] at h
    split at h
    · cases h
      rfl
    · cases h
  | _ => cases h

theorem deed_instruments (d : Derivation) (now : Now) (p : Post σ) (s : Shared) (a : Deed σ) :
    (p.deed d now s a).post.worker.instruments =
      p.worker.instruments.filter (· ∉ p.dismissed now.instant a) := by
  rw [deed_worker]
  cases hdec : p.decision? now.instant a with
  | none =>
    have hnone : p.dismissed now.instant a = [] := by
      cases a with
      | unsubscribe i =>
        have hphase : p.phase ≠ .running := fun h => by simp [decision?, input?, h] at hdec
        exact if_neg hphase
      | _ => rfl
    simp [hnone]
  | some decision =>
    obtain ⟨rfl, -, rfl⟩ | ⟨hphase, x, hx, rfl⟩ := decision?_cases hdec
    · simp [Worker.begin, dismissed]
    · rw [dismissed_of_input? hphase hx]
      exact (Worker.move_step p.worker now.instant x).instruments_eq

/-- A worker that is connected subscribes its instruments in order, and goes through with it. -/
theorem deed_connected (d : Derivation) (now : Now) (s : Shared) (hphase : p.phase = .running)
    (hhead : p.inbox.head? = some (.connected true)) (hstate : p.worker.state ≠ .failed) :
    (p.effects now.instant .handle).filterMap Effect.subscribe? = p.worker.instruments ∧
      (p.deed d now s .handle).post.venue = Venue.subscribeAll p.worker.instruments p.venue := by
  have hdec : p.decision? now.instant .handle = some p.worker.onConnected := by
    simp [decision?, input?, hphase, hhead, Worker.step, Worker.onEvent]
  have hconnected : p.worker.onConnected =
      ({ p.worker with state := .subscribed, retry := p.worker.retry.reset },
        .enter .connected 0 :: (p.worker.instruments.map .subscribe ++ [.enter .subscribed 0])) := if_neg hstate
  constructor
  · simp [effects, hdec, hconnected, List.filterMap_cons, List.filterMap_map, Function.comp_def, Effect.subscribe?]
  · rw [deed_eq, hdec]
    simp [hconnected, apply, performAll, perform, performAll_subscribes, present, made, hphase]

end Post

namespace Coordinator

variable {σ : Type} [Venue σ] {c : Coordinator σ} {n : Nat} {i : String} {p : Post σ} {s : Settings}
  {build : PlatformSettings → Except Failure σ} {time : Timestamp}

/-- The instruments that were given up by commands that the worker of a post took in a run. -/
abbrev dismissed (n : Nat) (c : Coordinator σ) (as : List (Action σ)) : List String := notes Post.dismissed n c as

theorem run_instruments (hp : c.posts[n]? = some p) (as : List (Action σ)) :
    ∃ p', (c.run as).posts[n]? = some p' ∧
      p'.worker.instruments = p.worker.instruments.filter (· ∉ dismissed n c as) := by
  induction as generalizing c p with
  | nil => exact ⟨p, hp, by simp [notes]⟩
  | cons x as ih =>
    rcases after_elsewhere hp x with ⟨now, a, rfl⟩ | ⟨hsame, hnoted⟩
    · obtain ⟨p', hp', hrest⟩ := ih (posts_after hp now a)
      refine ⟨p', hp', ?_⟩
      rw [hrest, Post.deed_instruments, List.filter_filter]
      simp [dismissed, notes, noted_post _ hp, and_comm]
    · obtain ⟨p', hp', hrest⟩ := ih hsame
      refine ⟨p', hp', ?_⟩
      simpa only [dismissed, notes, hnoted, List.nil_append] using hrest

/-- What a worker does not have to subscribe any more it never subscribes again. -/
theorem not_subscribed_run (hp : c.posts[n]? = some p) (hi : i ∉ p.worker.instruments) (as : List (Action σ)) :
    .subscribe i ∉ effects n c as := by
  induction as generalizing c p with
  | nil => exact List.not_mem_nil
  | cons x as ih =>
    rw [effects, notes, List.mem_append, not_or]
    rcases after_elsewhere hp x with ⟨now, a, rfl⟩ | ⟨hsame, hnoted⟩
    · have hleft : i ∉ (p.deed c.derivation now c.shared a).post.worker.instruments := by
        rw [Post.deed_instruments]
        exact fun h => hi (List.mem_filter.1 h).1
      refine ⟨?_, ih (posts_after hp now a) hleft⟩
      rw [noted_post _ hp, Post.effects]
      cases hdec : p.decision? now.instant a with
      | none => exact List.not_mem_nil
      | some decision =>
        obtain ⟨-, -, rfl⟩ | ⟨-, y, -, rfl⟩ := Post.decision?_cases hdec
        · simp [Worker.begin]
        · exact ((Worker.move_step p.worker now.instant y).not_subscribed hi).2
    · exact ⟨by simp [hnoted], ih hsame hi⟩

/-- **A worker subscribes what was not given up.** In every run, over any venue and whatever it answers: a
worker that learns of a successful connect, and has not given the platform up, subscribes the instruments of the
settings less those that commands it took before have named, in their order, and it carries on to the last;
and what such a command has named is never subscribed again. -/
theorem connected_subscribes_the_rest {x : PlatformSettings} (hc : ofSettings s build time = .ok c)
    (hx : s.platforms[n]? = some x) (as : List (Action σ)) :
    ∃ p, (c.run as).posts[n]? = some p ∧
      (∀ now, p.phase = .running → p.inbox.head? = some (.connected true) → p.worker.state ≠ .failed →
        let rest := x.instruments.filter (· ∉ dismissed n c as)
        (p.effects now.instant .handle).filterMap Effect.subscribe? = rest ∧
          ((c.run as).after (.post n now .handle)).posts[n]?.map Post.venue =
            some (Venue.subscribeAll rest p.venue)) ∧
      ∀ i ∈ dismissed n c as, ∀ bs, .subscribe i ∉ effects n (c.run as) bs := by
  obtain ⟨v, -, hpost⟩ := posts_ofSettings hc hx
  obtain ⟨p, hp, hinstruments⟩ := run_instruments hpost as
  have hrest : p.worker.instruments = x.instruments.filter (· ∉ dismissed n c as) := hinstruments
  refine ⟨p, hp, fun now hphase hhead hstate => ?_, fun i hi bs => ?_⟩
  · obtain ⟨hsubscribes, hvenue⟩ :=
      Post.deed_connected (c.run as).derivation now (c.run as).shared hphase hhead hstate
    rw [hrest] at hsubscribes hvenue
    refine ⟨hsubscribes, ?_⟩
    rw [posts_after hp, Option.map_some, hvenue]
  · refine not_subscribed_run hp ?_ bs
    rw [hrest]
    simp [hi]

/-- A platform with four entries, two of them for the same instrument. -/
def basket : PlatformSettings := { Worker.solo with instruments := ["USDTRY", "EURUSD", "GBPUSD", "EURUSD"] }

/-- An instrument is given up while the platform is connected and another one while it waits, and then it is back. -/
def returning : List (Action ScriptedVenue) :=
  opening 0 ++ [.post 0 ⟨3, ⟨0, 0⟩⟩ (.unsubscribe "USDTRY")] ++ delivery 0 .disconnected ++
    [.post 0 ⟨5, ⟨0, 0⟩⟩ (.unsubscribe "GBPUSD"), .post 0 ⟨20000, ⟨0, 0⟩⟩ .retry, .post 0 ⟨20000, ⟨0, 0⟩⟩ .dial]

theorem connected_subscribes_the_rest_returning :
    ∃ p, ((rehearsed [basket]).run returning).posts[0]? = some p ∧
      (p.effects 20001 .handle).filterMap Effect.subscribe? = ["EURUSD", "EURUSD"] ∧
      ∀ bs, .subscribe "USDTRY" ∉ effects 0 ((rehearsed [basket]).run returning) bs := by
  obtain ⟨p, hp, hconnected, hgone⟩ :=
    connected_subscribes_the_rest (n := 0) (ofSettings_watching [basket]) rfl returning
  obtain rfl := Option.some.inj hp
  exact ⟨_, rfl, (hconnected ⟨20001, ⟨0, 0⟩⟩ rfl rfl nofun).1, hgone "USDTRY" (by decide)⟩

end Coordinator

end RateDesk
