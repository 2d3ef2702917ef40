import RateDesk.Outbox.Link

/-!
# What reaches the consumer

Messages are offered and get turns in any order, and every turn may fail in any way.

* `offer_deliver` : offers can be made while a turn goes on, or before it or after it;
* `accepted`, `handlings`, `accepted_eq` : every message that found room had one turn, in order, or waits;
* `Link`, `Carries` : whole messages on a connection, and the beginning of one more, which ends it;
* `Carries.call`, `Carries.run` : what turns add to the links;
* `past_suffix_run` : a connection that has ended gets no more bytes;
* `run_accounts` : what is sent, in which order, and why a message is missing;
* `offerAll_eq_run`, `exists_drainTurns_eq_run` : many offers and many turns are runs.
-/

namespace RateDesk

namespace Outbox

/-- What happens to an outbox: a message is offered, or the oldest one gets its turn. -/
inductive Call where
  | offer (m : Message)
  | turn (t : Turn)

/-- A turn that a message got. -/
structure Handling where
  message : Message
  turn : Turn
  /-- Whether a connection was open. -/
  wasOpen : Bool

/-- How the turn of a message ends. -/
inductive Fate where
  | unencodable
  | unconnected
  | broken
  | sent
deriving DecidableEq

def Handling.fate (h : Handling) : Fate :=
  match h.message.frame with
  | .error _ => .unencodable
  | .ok _ =>
    if h.wasOpen || h.turn.connects then
      if h.turn.breaksAfter = none then .sent else .broken
    else .unconnected

variable {o : Outbox} {c : Call} {cs cs' : List Call} {m : Message} {ms : List Message} {t : Turn}

def call (o : Outbox) : Call → Outbox
  | .offer m => o.offer m
  | .turn t => o.take t

def run (o : Outbox) (cs : List Call) : Outbox := cs.foldl call o

theorem run_cons (o : Outbox) (c : Call) (cs : List Call) : o.run (c :: cs) = (o.call c).run cs := rfl

theorem run_append (o : Outbox) (cs cs' : List Call) : o.run (cs ++ cs') = (o.run cs).run cs' :=
  List.foldl_append

theorem write_queue (o : Outbox) (q : List Message) (frame : List UInt8) (b : Option Nat) :
    { o with queue := q }.write frame b = { o.write frame b with queue := q } := by
  cases b <;> rfl

theorem deliver_queue (o : Outbox) (q : List Message) (t : Turn) (m : Message) :
    { o with queue := q }.deliver t m = { o.deliver t m with queue := q } := by
  unfold deliver
  split
  · rfl
  · dsimp only
    split
    · exact write_queue o q _ _
    · split
      · exact write_queue o.connect q _ _
      · rfl

theorem queue_deliver (o : Outbox) (t : Turn) (m : Message) : (o.deliver t m).queue = o.queue := by
  rw [show o.deliver t m = { o.deliver t m with queue := o.queue } from deliver_queue o o.queue t m]

/-- A message that is offered while a turn goes on might as well be offered before it or after it: turns are
steps, although they take time. -/
theorem offer_deliver (o : Outbox) (t : Turn) (m m' : Message) :
    (o.deliver t m).offer m' = (o.offer m').deliver t m := by
  unfold offer
  rw [queue_deliver]
  split
  · exact (deliver_queue o (o.queue ++ [m']) t m).symm
  · rfl

/-! ## Accepted messages and their turns -/

/-- The message that a call puts into the queue. -/
def accepted? (o : Outbox) : Call → Option Message
  | .offer m => if o.queue.length < capacity then some m else none
  | .turn _ => none

/-- The messages that found room, in the order in which they were offered. -/
def accepted (o : Outbox) : List Call → List Message
  | [] => []
  | c :: cs => (o.accepted? c).toList ++ (o.call c).accepted cs

/-- The turn that a call gives to a message. -/
def handling? (o : Outbox) : Call → Option Handling
  | .offer _ => none
  | .turn t => o.queue.head?.map fun m => ⟨m, t, o.isOpen⟩

/-- The turns that messages got, in order. -/
def handlings (o : Outbox) : List Call → List Handling
  | [] => []
  | c :: cs => (o.handling? c).toList ++ (o.call c).handlings cs

theorem accepted_append (o : Outbox) (cs cs' : List Call) :
    o.accepted (cs ++ cs') = o.accepted cs ++ (o.run cs).accepted cs' := by
  induction cs generalizing o with
  | nil => rfl
  | cons c cs ih => rw [List.cons_append, accepted, accepted, ih, List.append_assoc, run_cons]

theorem take_cons (h : o.queue = m :: ms) (t : Turn) : o.take t = { o with queue := ms }.deliver t m := by
  unfold take
  rw [h]

/-- A call puts its message behind the queue, or takes the oldest message out. -/
theorem queue_call (o : Outbox) (c : Call) :
    o.queue ++ (o.accepted? c).toList = ((o.handling? c).map Handling.message).toList ++ (o.call c).queue := by
  cases c with
  | offer m =>
    simp only [accepted?, handling?, call, offer]
    split <;> simp
  | turn t =>
    cases h : o.queue with
    | nil => simp [accepted?, handling?, call, take, h]
    | cons m ms => simp [accepted?, handling?, call, take_cons h, queue_deliver, h]

/-- Messages that waited or were accepted had one turn each, in order, or wait. -/
theorem queue_append_accepted (o : Outbox) (cs : List Call) :
    o.queue ++ o.accepted cs = (o.handlings cs).map Handling.message ++ (o.run cs).queue := by
  induction cs generalizing o with
  | nil => simp [accepted, handlings, run]
  | cons c cs ih =>
    rw [accepted, handlings, run_cons, ← List.append_assoc, queue_call, List.append_assoc, ih, List.map_append,
      List.append_assoc]
    cases o.handling? c <;> rfl

theorem accepted_eq (cs : List Call) :
    empty.accepted cs = (empty.handlings cs).map Handling.message ++ (empty.run cs).queue :=
  queue_append_accepted empty cs

/-- A message that is offered is accepted unless the queue is full. -/
theorem accepted_offer (o : Outbox) (cs : List Call) (m : Message) :
    capacity ≤ (o.run cs).queue.length ∧ o.accepted (cs ++ [.offer m]) = o.accepted cs ∨
      o.accepted (cs ++ [.offer m]) = o.accepted cs ++ [m] := by
  rw [accepted_append]
  by_cases h : (o.run cs).queue.length < capacity
  · exact Or.inr (by simp [accepted, accepted?, h])
  · exact Or.inl ⟨Nat.not_lt.1 h, by simp [accepted, accepted?, h]⟩

/-! ## Links -/

/-- The frame of a message, nothing if it has none. -/
def frameBytes (m : Message) : List UInt8 := m.frame.toOption.getD []

/-- The messages that went whole over a connection, and how much of one more when writing failed, which ended
the connection. -/
structure Link where
  whole : List Message
  cut : Option (Message × Nat)

namespace Link

variable {l : Link}

def bytes (l : Link) : List UInt8 :=
  l.whole.flatMap frameBytes ++ (l.cut.map fun p => (frameBytes p.1).take p.2).getD []

/-- Every message has a frame, and the last one was cut short of its end. -/
structure Sound (l : Link) : Prop where
  whole : ∀ m ∈ l.whole, m.frame = .ok (frameBytes m)
  cut : ∀ m n, l.cut = some (m, n) → m.frame = .ok (frameBytes m) ∧ n < (frameBytes m).length

/-- What writing the frame of a message adds to an open link. -/
def write (l : Link) (m : Message) : Option Nat → Link
  | none => { l with whole := l.whole ++ [m] }
  | some n => { l with cut := some (m, min n ((frameBytes m).length - 1)) }

end Link

/-- The messages that went whole over the links, oldest first; the links are newest first. -/
def wholeMessages (links : List Link) : List Message := links.reverse.flatMap Link.whole

/-- The messages whose writing failed, oldest first. -/
def cutMessages (links : List Link) : List Message := links.reverse.filterMap fun l => l.cut.map Prod.fst

def ended (f : Fate) (hs : List Handling) : List Message := (hs.filter fun h => h.fate = f).map Handling.message

theorem ended_append (f : Fate) (hs hs' : List Handling) : ended f (hs ++ hs') = ended f hs ++ ended f hs' := by
  simp [ended]

/-- The connections of an outbox carry the links, newest first. A message was cut on each of them except one
that is open. -/
structure Carries (o : Outbox) (links : List Link) : Prop where
  bytes : o.connections.map Array.toList = links.map Link.bytes
  sound : ∀ l ∈ links, l.Sound
  closed : ∀ l ∈ if o.isOpen then links.tail else links, l.cut ≠ none
  isOpen : o.isOpen = true → ∃ l ls, links = l :: ls ∧ l.cut = none

variable {links ls : List Link} {l : Link} {o' : Outbox} {f : List UInt8} {b : Option Nat}

theorem carries_empty : Carries empty [] :=
  ⟨rfl, nofun, nofun, nofun⟩

/-- Only connections matter. -/
theorem Carries.congr (h : Carries o links) (hc : o'.connections = o.connections) (ho : o'.isOpen = o.isOpen) :
    Carries o' links :=
  ⟨by rw [hc, h.bytes], h.sound, by rw [ho]; exact h.closed, by rw [ho]; exact h.isOpen⟩

theorem frameBytes_eq (hf : m.frame = .ok f) : frameBytes m = f := by
  rw [frameBytes, hf]
  rfl

theorem length_frame_pos (hf : m.frame = .ok f) : 0 < f.length := by
  unfold Message.frame Message.frameOf at hf
  split at hf
  · cases hf
    exact Nat.succ_pos _
  · cases hf

/-- A new connection carries nothing. -/
theorem Carries.connect (h : Carries o links) (ho : o.isOpen = false) : Carries o.connect (⟨[], none⟩ :: links) where
  bytes := by simp [Outbox.connect, h.bytes, Link.bytes]
  sound := List.forall_mem_cons.2 ⟨⟨nofun, nofun⟩, h.sound⟩
  closed := by
    have hclosed := h.closed
    rwa [ho] at hclosed
  isOpen := fun _ => ⟨_, links, rfl, rfl⟩

theorem Link.Sound.write (hl : l.Sound) (hf : m.frame = .ok f) (b : Option Nat) : (l.write m b).Sound := by
  have hframe : m.frame = .ok (frameBytes m) := by rw [frameBytes_eq hf, hf]
  cases b with
  | none => exact ⟨List.forall_mem_append.2 ⟨hl.whole, by simpa using hframe⟩, hl.cut⟩
  | some n =>
    refine ⟨hl.whole, ?_⟩
    rintro m' n' heq
    cases heq
    have hpos := length_frame_pos hframe
    exact ⟨hframe, by omega⟩

theorem Link.bytes_write (hl : l.cut = none) (m : Message) (b : Option Nat) :
    (l.write m b).bytes = l.bytes ++ match b with
      | none => frameBytes m
      | some n => (frameBytes m).take (min n ((frameBytes m).length - 1)) := by
  cases b <;> simp [Link.bytes, Link.write, hl]

/-- Writing goes to the open link. -/
theorem Carries.write (h : Carries o (l :: ls)) (ho : o.isOpen = true) (hl : l.cut = none) (hf : m.frame = .ok f)
    (b : Option Nat) : Carries (o.write f b) (l.write m b :: ls) := by
  have hframe := frameBytes_eq hf
  have hsound : ∀ l' ∈ l.write m b :: ls, l'.Sound :=
    List.forall_mem_cons.2 ⟨(h.sound l List.mem_cons_self).write hf b, fun l' hl' => h.sound l' (List.mem_cons_of_mem l hl')⟩
  have hclosed := h.closed
  rw [ho] at hclosed
  have hbytes := h.bytes
  rw [List.map_cons, List.map_eq_cons_iff] at hbytes
  obtain ⟨c, cs, hc, hcl, hcs⟩ := hbytes
  have hsend : ∀ bytes, (o.send bytes).connections.map Array.toList = (l.bytes ++ bytes) :: ls.map Link.bytes := by
    intro bytes
    simp [Outbox.send, hc, ← hcl, ← hcs]
  have hwrite := Link.bytes_write hl m b
  cases b with
  | none =>
    refine ⟨?_, hsound, ?_, fun _ => ⟨_, ls, rfl, hl⟩⟩
    · rw [List.map_cons, hwrite, hframe]
      exact hsend f
    · simpa [Outbox.write, Outbox.send, ho] using hclosed
  | some n =>
    refine ⟨?_, hsound, ?_, nofun⟩
    · rw [List.map_cons, hwrite, hframe]
      exact hsend _
    · exact List.forall_mem_cons.2 ⟨nofun, hclosed⟩

theorem wholeMessages_write (l : Link) (ls : List Link) (m : Message) (b : Option Nat) :
    wholeMessages (l.write m b :: ls) = wholeMessages (l :: ls) ++ if b = none then [m] else [] := by
  cases b <;> simp [wholeMessages, Link.write]

theorem cutMessages_write (hl : l.cut = none) (ls : List Link) (m : Message) (b : Option Nat) :
    cutMessages (l.write m b :: ls) = cutMessages (l :: ls) ++ if b = none then [] else [m] := by
  cases b <;> simp [cutMessages, Link.write, hl]

theorem ended_of_connected {h : Handling} (hf : h.message.frame = .ok f) (hc : (h.wasOpen || h.turn.connects) = true) :
    ended .sent [h] = (if h.turn.breaksAfter = none then [h.message] else []) ∧
      ended .broken [h] = if h.turn.breaksAfter = none then [] else [h.message] := by
  have hfate : h.fate = if h.turn.breaksAfter = none then .sent else .broken := by
    simp only [Handling.fate, hf, hc, if_true]
  cases hb : h.turn.breaksAfter <;> simp [ended, hfate, hb]

/-- A turn adds its message to the open link, or to a new one, or to none. -/
theorem Carries.deliver (h : Carries o links) (t : Turn) (m : Message) :
    ∃ links', Carries (o.deliver t m) links' ∧
      wholeMessages links' = wholeMessages links ++ ended .sent [⟨m, t, o.isOpen⟩] ∧
      cutMessages links' = cutMessages links ++ ended .broken [⟨m, t, o.isOpen⟩] := by
  unfold Outbox.deliver
  split
  · rename_i e hf
    exact ⟨links, h, by simp [ended, Handling.fate, hf], by simp [ended, Handling.fate, hf]⟩
  · rename_i f hf
    split
    · rename_i ho
      obtain ⟨l, ls, rfl, hl⟩ := h.isOpen ho
      obtain ⟨hsent, hbroken⟩ := ended_of_connected (h := ⟨m, t, o.isOpen⟩) hf (by simp [ho])
      exact ⟨l.write m t.breaksAfter :: ls, h.write ho hl hf t.breaksAfter,
        by rw [hsent, wholeMessages_write], by rw [hbroken, cutMessages_write hl]⟩
    · rename_i ho
      split
      · rename_i hconnects
        obtain ⟨hsent, hbroken⟩ := ended_of_connected (h := ⟨m, t, o.isOpen⟩) hf (by simp [hconnects])
        refine ⟨Link.write ⟨[], none⟩ m t.breaksAfter :: links,
          (h.connect (Bool.eq_false_iff.2 ho)).write rfl rfl hf t.breaksAfter, ?_, ?_⟩
        · rw [hsent, wholeMessages_write]
          simp [wholeMessages]
        · rw [hbroken, cutMessages_write rfl]
          simp [cutMessages]
      · rename_i hconnects
        exact ⟨links, h, by simp [ended, Handling.fate, hf, ho, hconnects],
          by simp [ended, Handling.fate, hf, ho, hconnects]⟩

/-- A call adds to the links what the turn that it gives adds. -/
theorem Carries.call (h : Carries o links) (c : Call) :
    ∃ links', Carries (o.call c) links' ∧
      wholeMessages links' = wholeMessages links ++ ended .sent (o.handling? c).toList ∧
      cutMessages links' = cutMessages links ++ ended .broken (o.handling? c).toList := by
  cases c with
  | offer m =>
    refine ⟨links, h.congr ?_ ?_, by simp [handling?, ended], by simp [handling?, ended]⟩
    · unfold Outbox.call offer
      dsimp only
      split <;> rfl
    · unfold Outbox.call offer
      dsimp only
      split <;> rfl
  | turn t =>
    cases hq : o.queue with
    | nil => exact ⟨links, by simpa [Outbox.call, take, hq] using h, by simp [handling?, hq, ended], by simp [handling?, hq, ended]⟩
    | cons m ms =>
      have hrest : Carries { o with queue := ms } links := h.congr rfl rfl
      rw [Outbox.call, take_cons hq]
      simpa [handling?, hq] using hrest.deliver t m

/-- Calls add to the links what the turns that they give add, in order. -/
theorem Carries.run (h : Carries o links) (cs : List Call) :
    ∃ links', Carries (o.run cs) links' ∧
      wholeMessages links' = wholeMessages links ++ ended .sent (o.handlings cs) ∧
      cutMessages links' = cutMessages links ++ ended .broken (o.handlings cs) := by
  induction cs generalizing o links with
  | nil => exact ⟨links, h, by simp [handlings, ended], by simp [handlings, ended]⟩
  | cons c cs ih =>
    obtain ⟨links₁, h₁, hwhole₁, hcut₁⟩ := h.call c
    obtain ⟨links₂, h₂, hwhole₂, hcut₂⟩ := ih h₁
    refine ⟨links₂, h₂, ?_, ?_⟩
    · rw [hwhole₂, hwhole₁, handlings, ended_append, List.append_assoc]
    · rw [hcut₂, hcut₁, handlings, ended_append, List.append_assoc]

/-! ## Connections that have ended -/

/-- The bytes of the connections that have ended, newest first. -/
def past (o : Outbox) : List (Array UInt8) := if o.isOpen then o.connections.tail else o.connections

theorem tail_send (o : Outbox) (bytes : List UInt8) : (o.send bytes).connections.tail = o.connections.tail := by
  unfold send
  dsimp only
  split
  · rename_i h
    rw [h]
    rfl
  · rename_i h
    rw [h]
    rfl

theorem past_suffix_write (ho : o.isOpen = true) (f : List UInt8) (b : Option Nat) : o.past <:+ (o.write f b).past := by
  have hpast : o.past = o.connections.tail := by rw [past, if_pos ho]
  rw [hpast]
  cases b with
  | none =>
    have hwrite : (o.write f none).past = o.connections.tail := (if_pos ho).trans (tail_send o f)
    exact hwrite ▸ List.suffix_refl _
  | some n =>
    have hwrite : (o.write f (some n)).past = (o.send (f.take (min n (f.length - 1)))).connections := rfl
    rw [hwrite, ← tail_send o (f.take (min n (f.length - 1)))]
    exact List.tail_suffix _

/-- A connection that has ended gets no more bytes. -/
theorem past_suffix_call (o : Outbox) (c : Call) : o.past <:+ (o.call c).past := by
  cases c with
  | offer m =>
    unfold call offer
    dsimp only
    split <;> exact List.suffix_refl _
  | turn t =>
    cases hq : o.queue with
    | nil => simp [call, take, hq]
    | cons m ms =>
      rw [call, take_cons hq]
      unfold deliver
      split
      · exact List.suffix_refl _
      · split
        · rename_i ho
          exact past_suffix_write (o := { o with queue := ms }) ho _ _
        · rename_i ho
          split
          · have hpast : o.past = ({ o with queue := ms }).connect.past := if_neg ho
            rw [hpast]
            exact past_suffix_write rfl _ _
          · exact List.suffix_refl _

theorem past_suffix_run (o : Outbox) (cs : List Call) : o.past <:+ (o.run cs).past := by
  induction cs generalizing o with
  | nil => exact List.suffix_refl _
  | cons c cs ih => exact (past_suffix_call o c).trans (ih (o.call c))

/-! ## Accounts -/

/-- A message that was not sent had no frame, or no connection could be made for it, or writing it failed. -/
theorem fate_ne_sent {h : Handling} (hfate : h.fate ≠ .sent) :
    (∃ e, h.message.frame = .error e) ∨ (h.wasOpen = false ∧ h.turn.connects = false) ∨ ∃ n, h.turn.breaksAfter = some n := by
  unfold Handling.fate at hfate
  split at hfate
  · rename_i e he
    exact Or.inl ⟨e, he⟩
  · split at hfate
    · split at hfate
      · exact absurd rfl hfate
      · rename_i hb
        exact Or.inr (Or.inr (Option.ne_none_iff_exists'.1 hb))
    · rename_i hc
      exact Or.inr (Or.inl (by simpa using hc))

/-- Whatever is offered and however turns fail: each connection carries whole frames, and then at most the
beginning of one more, which ends it for good. The messages that were sent whole are accepted ones, in the order
in which they were accepted. An offered message is refused only by a full queue, and an accepted one waits, or had
one turn, and was sent unless it had no frame, or no connection was open and none could be made, or writing it
failed. -/
theorem run_accounts (cs : List Call) :
    (∃ links, Carries (empty.run cs) links ∧
      wholeMessages links = ended .sent (empty.handlings cs) ∧ cutMessages links = ended .broken (empty.handlings cs) ∧
      (wholeMessages links).Sublist (empty.accepted cs)) ∧
    (∀ cs₁ cs₂, cs = cs₁ ++ cs₂ → (empty.run cs₁).past <:+ (empty.run cs).past) ∧
    (∀ cs₁ m cs₂, cs = cs₁ ++ .offer m :: cs₂ →
      capacity ≤ (empty.run cs₁).queue.length ∧ empty.accepted (cs₁ ++ [.offer m]) = empty.accepted cs₁ ∨
        empty.accepted (cs₁ ++ [.offer m]) = empty.accepted cs₁ ++ [m]) ∧
    empty.accepted cs = (empty.handlings cs).map Handling.message ++ (empty.run cs).queue ∧
    ∀ h ∈ empty.handlings cs, h.fate ≠ .sent → (∃ e, h.message.frame = .error e) ∨
      (h.wasOpen = false ∧ h.turn.connects = false) ∨ ∃ n, h.turn.breaksAfter = some n := by
  obtain ⟨links, hcarries, hwhole, hcut⟩ := carries_empty.run cs
  have hwhole : wholeMessages links = ended .sent (empty.handlings cs) := hwhole
  have hcut : cutMessages links = ended .broken (empty.handlings cs) := hcut
  have haccepted := accepted_eq cs
  have hsublist : (wholeMessages links).Sublist (empty.accepted cs) := by
    rw [hwhole, haccepted]
    exact (List.filter_sublist.map Handling.message).trans (List.sublist_append_left _ _)
  refine ⟨⟨links, hcarries, hwhole, hcut, hsublist⟩, ?_, fun cs₁ m _ _ => accepted_offer empty cs₁ m, haccepted,
    fun h _ => fate_ne_sent⟩
  rintro cs₁ cs₂ rfl
  rw [run_append]
  exact past_suffix_run _ cs₂

/-! ## Many offers, many turns -/

/-- Offering messages at once is offering them one after the other. -/
theorem offerAll_eq_run (o : Outbox) (ms : List Message) : o.offerAll ms = o.run (ms.map .offer) := by
  induction ms generalizing o with
  | nil => simp [offerAll, run]
  | cons m ms ih =>
    rw [List.map_cons, run_cons, ← ih]
    unfold call offer offerAll
    dsimp only
    split
    · rename_i h
      have hroom : capacity - o.queue.length = capacity - (o.queue.length + 1) + 1 := by omega
      rw [hroom, List.take_succ_cons, List.length_append, List.length_singleton, List.append_assoc]
      rfl
    · rename_i h
      rw [Nat.sub_eq_zero_of_le (Nat.not_lt.1 h)]
      rfl

/-- Draining an outbox gives turns to its messages. -/
theorem exists_drainTurns_eq_run (o : Outbox) (c : Consumer) (n : Nat) :
    ∃ ts : List Turn, (o.drainTurns c n).1 = o.run (ts.map .turn) := by
  induction n generalizing o c with
  | zero => exact ⟨[], rfl⟩
  | succ n ih =>
    obtain ⟨ts, hts⟩ := ih (o.take (c.turn o)) { c with hungUp := c.hungUp && o.isOpen && (o.take (c.turn o)).isOpen }
    exact ⟨c.turn o :: ts, hts⟩

end Outbox

end RateDesk
