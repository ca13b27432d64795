import Chiptune.Proofs.Sequencer.Notices
import Chiptune.Session

/-!
# Delivery of notifications

A notification crosses two queues on its way to the host: the sequencer's own, in which the oldest
makes room, and the mailbox, which turns the newest away. A poll empties both, the mailbox first.
The render side does not wait for it: more sound may be rendered after the mailbox was emptied, and
the sequencer's queue is left alone if the render side holds the sequencer just then.

`Delivery` is a session together with what has been raised and polled so far. Its polls are made of
the two steps of `Session.poll`, `takeMailbox` and `finishPoll`, with room for renderings between
them; what the first step took is kept in `Delivery.taken`. What was polled is in the order in which
it was raised and nothing comes twice, because the places where notifications can be (polled, taken,
mailbox, queue) hold, one behind the other, a sublist of what was raised (`Delivery.InOrder`). As
long as no queue was asked to hold more than it can, they hold all of it
(`notifications_delivered`).
-/

namespace Chiptune

/-! ## Calls

What a host and its render side can do, in terms of the requests of a sequencer. Only a poll takes
notifications out of a queue and hands them over. -/

namespace Session

variable {σ : Type}

/-- A stretch of sound that the render side asks for. -/
inductive Rendering
  | frames (count : Nat)
  | interleaved (length : Nat)

/-- What the control side asks of the sequencer. -/
inductive Control
  | load (index : Nat)
  | play
  | pause (policy : PausePolicy)
  | stop
  | seek (target : Nat)
  | setVolume (volume : MasterVolume)
  | setTrackMuted (track : Nat) (muted : Bool)

/-- One thing that happens to a session. While a poll goes on, `meanwhile` is rendered after it has
emptied the mailbox, and `free` says whether it can then take hold of the sequencer. -/
inductive Call (σ : Type)
  | control (c : Control)
  | setSongEndHandler (handler : Notification → σ → σ)
  | render (r : Rendering)
  | poll (meanwhile : List Rendering) (free : Bool)

def Call.SetsHandler : Call σ → Prop
  | setSongEndHandler _ => True
  | _ => False

/-- What a rendering asks of the sequencer. -/
def Rendering.request : Rendering → Request
  | frames count => .render count
  | interleaved length => .render (length / 2)

/-- What the control side asks of the sequencer, if the collection has the song. -/
def Control.request? (source : SongSource) : Control → Option Request
  | load index => (source.find index).toOption.map .load
  | play => some .play
  | pause policy => some (.pause policy)
  | stop => some .stop
  | seek target => some (.seek target)
  | setVolume volume => some (.setVolume volume)
  | setTrackMuted track muted => some (.setTrackMuted track muted)

def render (s : Session σ) : Rendering → Session σ
  | .frames count => (s.renderFrames count).2
  | .interleaved length => (s.renderInterleaved length).2

/-- A song that cannot be loaded changes nothing. -/
def perform (s : Session σ) : Control → Session σ
  | .load index =>
    match s.loadSong index with
    | .ok s' => s'
    | .error _ => s
  | .play => s.control (·.play)
  | .pause policy => s.control (·.pause policy)
  | .stop => s.control (·.stop)
  | .seek target => s.control (·.seek target)
  | .setVolume volume => s.control (·.setVolume volume)
  | .setTrackMuted track muted => (s.setTrackMuted track muted).2

/-- A rendering is a request, after which the mailbox is sent what waits. -/
theorem render_eq (s : Session σ) (r : Rendering) :
    s.render r = ({ s with sequencer := s.sequencer.answer r.request } : Session σ).forward := by
  cases r <;> rfl

/-- A control is a request, or none if the collection lacks the song. -/
theorem perform_eq (s : Session σ) (c : Control) :
    s.perform c =
      match c.request? s.source with
      | some r => { s with sequencer := s.sequencer.answer r }
      | none => s := by
  cases c with
  | load index =>
    unfold perform loadSong SongSource.loadInto
    simp only [Control.request?]
    cases s.source.find index with
    | error e => rfl
    | ok song =>
      simp only [Except.toOption, Option.map_some, Sequencer.answer, bind, Except.bind]
      cases s.sequencer.load song <;> rfl
  | _ => rfl

/-- The control side never takes notifications out of the queue. Only a poll does. -/
theorem leaves_of_request? {source : SongSource} {c : Control} {r : Request}
    (asked : c.request? source = some r) : ¬ r.TakesNotices := by
  cases c with
  | load index =>
    obtain ⟨song, -, rfl⟩ := Option.map_eq_some_iff.mp asked
    exact id
  | _ => cases asked; exact id

/-- What is heard in two pieces is heard as if it came in one. -/
theorem handle_append (s : Session σ) (l m : List Notification) (host : σ) :
    s.handle (l ++ m) host = s.handle m (s.handle l host) := by
  unfold handle
  cases s.songEndHandler with
  | none => rfl
  | some handler => simp only [List.filter_append, List.foldl_append]

theorem handle_congr {s s' : Session σ} (same : s'.songEndHandler = s.songEndHandler)
    (l : List Notification) (host : σ) : s'.handle l host = s.handle l host := by
  unfold handle
  rw [same]

@[simp] theorem handle_nil (s : Session σ) (host : σ) : s.handle [] host = host := by
  unfold handle
  cases s.songEndHandler <;> rfl

/-- The handler hears precisely what a poll answers. -/
theorem finishPoll_host (s : Session σ) (taken : List Notification) (free : Bool) (host : σ) :
    (s.finishPoll taken free host).2.1 = s.handle (s.finishPoll taken free host).1 host := by
  cases free <;> rfl

theorem songEndHandler_finishPoll (s : Session σ) (taken : List Notification) (free : Bool)
    (host : σ) : (s.finishPoll taken free host).2.2.songEndHandler = s.songEndHandler := by
  cases free <;> rfl

end Session

/-! ## What was raised and what was polled

`Delivery` adds two records to a session: all that was ever raised, and all that was ever polled.
They are made from what the sequencer tells at each request and from what a poll answers, and
nothing in the session depends on them. -/

/-- A session and its host, with the notifications that were raised and polled so far. -/
structure Delivery (σ : Type) where
  session : Session σ
  host : σ
  raised : List Notification := []
  /-- What all polls have answered, one behind the other. -/
  polled : List Notification := []
  /-- What a poll has taken from the mailbox and not answered yet. -/
  taken : List Notification := []
  /-- How many were raised since the sequencer's queue was last emptied. -/
  unforwarded : Nat := 0
  /-- How many were sent to the mailbox since it was last emptied. -/
  forwarded : Nat := 0
  /-- A queue was asked to hold more than it can. -/
  crowded : Bool := false

namespace Delivery

open Session (Rendering Control Call)

variable {σ : Type} {d : Delivery σ}

/-- The sequencer does what was asked of it, and tells of it. -/
def ask (d : Delivery σ) (r : Request) : Delivery σ :=
  let told := d.session.sequencer.noticesIn r
  { d with
    session := { d.session with sequencer := d.session.sequencer.answer r }
    raised := d.raised ++ told
    unforwarded := d.unforwarded + told.length
    crowded := d.crowded || decide (Notices.capacity < d.unforwarded + told.length) }

def perform (d : Delivery σ) (c : Control) : Delivery σ :=
  match c.request? d.session.source with
  | some r => { d.ask r with session := d.session.perform c }
  | none => { d with session := d.session.perform c }

/-- The render side sends to the mailbox what waits in the sequencer. -/
def forward (d : Delivery σ) : Delivery σ :=
  let sent := d.session.sequencer.notices.waiting.length
  { d with
    session := d.session.forward
    unforwarded := 0
    forwarded := d.forwarded + sent
    crowded := d.crowded || decide (Session.mailboxCapacity < d.forwarded + sent) }

def render (d : Delivery σ) (r : Rendering) : Delivery σ :=
  { (d.ask r.request).forward with session := d.session.render r }

/-- The first step of a poll: the mailbox. -/
def emptyMailbox (d : Delivery σ) : Delivery σ :=
  let (taken, session) := d.session.takeMailbox
  { d with session, taken, forwarded := 0 }

/-- The second step of a poll: the sequencer, if it can be had, the handler and the answer. -/
def finishPoll (free : Bool) (d : Delivery σ) : Delivery σ :=
  let (answer, host, session) := d.session.finishPoll d.taken free d.host
  { d with
    session, host
    taken := []
    polled := d.polled ++ answer
    unforwarded := if free then 0 else d.unforwarded }

def poll (d : Delivery σ) (meanwhile : List Rendering) (free : Bool) : Delivery σ :=
  (meanwhile.foldl render d.emptyMailbox).finishPoll free

/-- What happens when a call is made. -/
def call (d : Delivery σ) : Call σ → Delivery σ
  | .control c => d.perform c
  | .setSongEndHandler handler => { d with session := d.session.setSongEndHandler handler }
  | .render r => d.render r
  | .poll meanwhile free => d.poll meanwhile free

def after (d : Delivery σ) (calls : List (Call σ)) : Delivery σ := calls.foldl call d

def start (source : SongSource) (config : Config) (host : σ) : Delivery σ where
  session := .start source config
  host := host

theorem perform_eq (c : Control) :
    d.perform c =
      match c.request? d.session.source with
      | some r => d.ask r
      | none => d := by
  unfold perform
  rw [Session.perform_eq]
  split <;> rfl

theorem render_eq (r : Rendering) : d.render r = (d.ask r.request).forward := by
  unfold render
  rw [Session.render_eq]
  rfl

/-! ## Order

`pending` puts the places where a notification can wait behind one another. Raising adds to its end,
forwarding and polling move things from one place to the next, and where a queue is full something
is left out. Hence a sublist at all times, and all of it as long as nothing was left out. -/

/-- The notifications that have been raised and not polled, in the order in which they would be. -/
def pending (d : Delivery σ) : List Notification :=
  d.taken ++ (d.session.mailbox ++ d.session.sequencer.notices.waiting)

/-- What was polled and what is pending is in the order in which it was raised, and it is all that
was raised unless a queue was crowded. -/
structure InOrder (d : Delivery σ) : Prop where
  /-- Nothing comes twice, and nothing comes before what was raised before it. -/
  ordered : (d.polled ++ d.pending).Sublist d.raised
  /-- Nothing is lost unless a queue was crowded. -/
  complete : d.crowded = false → d.raised = d.polled ++ d.pending
  waiting_le : d.crowded = false → d.session.sequencer.notices.waiting.length ≤ d.unforwarded
  mailbox_le : d.crowded = false → d.session.mailbox.length ≤ d.forwarded

theorem inOrder_start (source : SongSource) (config : Config) (host : σ) :
    (start source config host).InOrder :=
  ⟨.refl _, fun _ => rfl, fun _ => Nat.le_refl 0, fun _ => Nat.le_refl 0⟩

/-- What is told goes to the end of the queue, where the oldest may make room for it. -/
theorem InOrder.ask (h : d.InOrder) {r : Request} (leaves : ¬ r.TakesNotices) :
    (d.ask r).InOrder := by
  have notices : (d.session.sequencer.answer r).notices.waiting =
      (d.session.sequencer.notices.pushAll (d.session.sequencer.noticesIn r)).waiting :=
    congrArg Notices.waiting (Sequencer.notices_answer leaves)
  -- a calm queue has room for what is told, so nothing makes room for it
  have kept (calm : (d.ask r).crowded = false) : d.crowded = false ∧
      (d.session.sequencer.answer r).notices.waiting =
        d.session.sequencer.notices.waiting ++ d.session.sequencer.noticesIn r := by
    simp only [Delivery.ask, Bool.or_eq_false_iff, decide_eq_false_iff_not, Nat.not_lt] at calm
    have before := h.waiting_le calm.1
    exact ⟨calm.1, by rw [notices, Notices.waiting_pushAll (by omega)]⟩
  refine ⟨?_, fun calm => ?_, fun calm => ?_, fun calm => h.mailbox_le (kept calm).1⟩
  · have longer : (d.ask r).pending.Sublist (d.pending ++ d.session.sequencer.noticesIn r) := by
      simp only [pending, Delivery.ask, notices, List.append_assoc]
      exact ((Notices.sublist_waiting_pushAll _ _).append_left _).append_left _
    exact ((longer.append_left d.polled).trans (by rw [← List.append_assoc])).trans
      (h.ordered.append_right _)
  · simp only [pending, Delivery.ask, (kept calm).2, h.complete (kept calm).1, List.append_assoc]
  · have before := h.waiting_le (kept calm).1
    simp only [Delivery.ask, (kept calm).2, List.length_append]
    omega

/-- The mailbox takes as many as it has room for, the oldest first. -/
theorem pending_forward : d.forward.pending = d.taken ++
    (d.session.mailbox ++ d.session.sequencer.notices.waiting).take Session.mailboxCapacity := by
  simp [pending, Delivery.forward, Session.forward, Sequencer.drainNotices]

/-- What the mailbox turns away are the newest, so what is left is in order. -/
theorem InOrder.forward (h : d.InOrder) : d.forward.InOrder := by
  -- a calm mailbox has room for what is sent, so nothing is turned away
  have kept (calm : d.forward.crowded = false) : d.crowded = false ∧
      d.session.mailbox.length + d.session.sequencer.notices.waiting.length ≤ d.forward.forwarded ∧
      d.forward.pending = d.pending := by
    simp only [Delivery.forward, Bool.or_eq_false_iff, decide_eq_false_iff_not, Nat.not_lt] at calm
    have before := h.mailbox_le calm.1
    refine ⟨calm.1, Nat.add_le_add_right before _, ?_⟩
    rw [pending_forward, List.take_of_length_le, pending]
    rw [List.length_append]
    omega
  refine ⟨?_, fun calm => ?_, fun _ => Nat.le_refl 0, fun calm => ?_⟩
  · rw [pending_forward]
    exact (((List.take_sublist _ _).append_left d.taken).append_left d.polled).trans h.ordered
  · rw [(kept calm).2.2]
    exact h.complete (kept calm).1
  · refine Nat.le_trans ?_ (kept calm).2.1
    simp only [Delivery.forward, Session.forward, List.length_take, List.length_append,
      Sequencer.drainNotices]
    omega

theorem InOrder.render (h : d.InOrder) (r : Rendering) : (d.render r).InOrder := by
  rw [render_eq]
  exact (h.ask (by cases r <;> exact id)).forward

/-- To hand notifications on from one place to the next keeps them in order. -/
theorem InOrder.handOn {e : Delivery σ} (h : d.InOrder) (raised : e.raised = d.raised)
    (crowded : e.crowded = d.crowded) (same : e.polled ++ e.pending = d.polled ++ d.pending)
    (waiting_le : e.crowded = false →
      e.session.sequencer.notices.waiting.length ≤ e.unforwarded)
    (mailbox_le : e.crowded = false → e.session.mailbox.length ≤ e.forwarded) : e.InOrder where
  ordered := by
    rw [same, raised]
    exact h.ordered
  complete := by
    rw [same, raised, crowded]
    exact h.complete
  waiting_le := waiting_le
  mailbox_le := mailbox_le

/-- What is taken from the mailbox stands in front of all that comes later. -/
theorem InOrder.emptyMailbox (h : d.InOrder) (idle : d.taken = []) : d.emptyMailbox.InOrder := by
  refine h.handOn rfl rfl ?_ h.waiting_le fun _ => Nat.le_refl 0
  simp [Delivery.emptyMailbox, Session.takeMailbox, pending, idle]

/-- When a poll comes to the sequencer, the mailbox or the sequencer's queue is empty: whatever was
rendered meanwhile has moved everything to the mailbox. -/
theorem pending_meanwhile (meanwhile : List Rendering) (empty : d.session.mailbox = []) :
    (meanwhile.foldl render d).session.mailbox = [] ∨
      (meanwhile.foldl render d).session.sequencer.notices.waiting = [] := by
  obtain rfl | ⟨before, r, rfl⟩ := List.eq_nil_or_concat' meanwhile
  · exact .inl empty
  · rw [List.foldl_append, List.foldl_cons, List.foldl_nil, render_eq]
    exact .inr rfl

/-- The answer of a poll: what was taken, and then what waits in the sequencer. -/
theorem InOrder.finishPoll (h : d.InOrder) (free : Bool)
    (one : d.session.mailbox = [] ∨ d.session.sequencer.notices.waiting = []) :
    (d.finishPoll free).InOrder := by
  cases free with
  | false =>
    refine h.handOn rfl rfl ?_ h.waiting_le h.mailbox_le
    simp [Delivery.finishPoll, Session.finishPoll, pending]
  | true =>
    refine h.handOn rfl rfl ?_ (fun _ => Nat.le_refl 0) h.mailbox_le
    -- the sequencer's overtake the mailbox's, which is in order only if there are none of one sort
    obtain none | none := one <;>
      simp [Delivery.finishPoll, Session.finishPoll, Session.takeWaiting, Sequencer.drainNotices,
        pending, none]

/-- A poll keeps the order even if something is rendered in the midst of it. -/
theorem InOrder.poll (h : d.InOrder) (idle : d.taken = []) (meanwhile : List Rendering)
    (free : Bool) : (d.poll meanwhile free).InOrder := by
  -- while the poll waits for the sequencer, every rendering keeps the order
  have rendered : (meanwhile.foldl Delivery.render d.emptyMailbox).InOrder := by
    have := h.emptyMailbox idle
    generalize d.emptyMailbox = e at this
    induction meanwhile generalizing e with
    | nil => exact this
    | cons r meanwhile ih => exact ih _ (this.render r)
  exact rendered.finishPoll free (pending_meanwhile meanwhile rfl)

/-- Between two calls no poll goes on. -/
theorem taken_call (idle : d.taken = []) (c : Call σ) : (d.call c).taken = [] := by
  cases c with
  | control c =>
    show (d.perform c).taken = []
    rw [perform_eq]
    split <;> exact idle
  | setSongEndHandler handler => exact idle
  | render r => exact idle
  | poll meanwhile free => rfl

/-- No poll is half done after any number of calls. -/
theorem taken_after (idle : d.taken = []) (calls : List (Call σ)) : (d.after calls).taken = [] := by
  induction calls generalizing d with
  | nil => exact idle
  | cons c calls ih => exact ih (taken_call idle c)

/-- Every call keeps the order, whichever side makes it. -/
theorem InOrder.call (h : d.InOrder) (idle : d.taken = []) (c : Call σ) : (d.call c).InOrder := by
  cases c with
  | control c =>
    show (d.perform c).InOrder
    rw [perform_eq]
    split
    · next asked => exact h.ask (Session.leaves_of_request? asked)
    · exact h
  | setSongEndHandler handler => exact ⟨h.ordered, h.complete, h.waiting_le, h.mailbox_le⟩
  | render r => exact h.render r
  | poll meanwhile free => exact h.poll idle meanwhile free

theorem InOrder.after (h : d.InOrder) (idle : d.taken = []) (calls : List (Call σ)) :
    (d.after calls).InOrder := by
  induction calls generalizing d with
  | nil => exact h
  | cons c calls ih => exact ih (h.call idle c) (taken_call idle c)

/-! ## The song end handler

The handler is called by a poll and by nothing else. So between two changes of the handler it has
heard what was polled, in the same order. -/

/-- Between two moments the handler in force has heard what was polled. -/
structure Heard (d e : Delivery σ) (new : List Notification) : Prop where
  polled : e.polled = d.polled ++ new
  /-- The handler is called once for each, in the same order. -/
  host : e.host = d.session.handle new d.host
  handler : e.session.songEndHandler = d.session.songEndHandler

/-- The handler that hears the second part is still the one that heard the first. -/
theorem Heard.trans {e f : Delivery σ} {new newer : List Notification} (first : Heard d e new)
    (second : Heard e f newer) : Heard d f (new ++ newer) where
  polled := by rw [second.polled, first.polled, List.append_assoc]
  host := by
    rw [second.host, first.host, Session.handle_append, Session.handle_congr first.handler]
  handler := second.handler.trans first.handler

theorem heard_refl : Heard d d [] := ⟨by simp, by simp, rfl⟩

/-- A control is answered without the handler. -/
theorem heard_perform (c : Control) : Heard d (d.perform c) [] := by
  rw [perform_eq]
  split <;> exact ⟨by simp [ask], by simp [ask], rfl⟩

/-- The render side never calls the handler. -/
theorem heard_render (r : Rendering) : Heard d (d.render r) [] := by
  rw [render_eq]
  exact ⟨by simp [forward, ask], by simp [forward, ask], rfl⟩

theorem heard_emptyMailbox : Heard d d.emptyMailbox [] :=
  ⟨by simp [emptyMailbox], by simp [emptyMailbox], rfl⟩

/-- The handler is called where a poll answers, and for what it answers. -/
theorem heard_finishPoll (free : Bool) :
    Heard d (d.finishPoll free) (d.session.finishPoll d.taken free d.host).1 where
  polled := rfl
  host := d.session.finishPoll_host d.taken free d.host
  handler := d.session.songEndHandler_finishPoll d.taken free d.host

/-- In a poll the handler hears what is answered at its end, and nothing before. -/
theorem heard_poll (meanwhile : List Rendering) (free : Bool) :
    ∃ new, Heard d (d.poll meanwhile free) new := by
  have rendered (e : Delivery σ) : Heard e (meanwhile.foldl render e) [] := by
    induction meanwhile generalizing e with
    | nil => exact heard_refl
    | cons r meanwhile ih => exact (heard_render r).trans (ih _)
  exact ⟨_, (heard_emptyMailbox.trans (rendered _)).trans (heard_finishPoll free)⟩

/-- The same over many calls, as long as nobody sets another handler. -/
theorem heard_after {calls : List (Call σ)} (keep : ∀ c ∈ calls, ¬ c.SetsHandler) :
    ∃ new, Heard d (d.after calls) new := by
  induction calls generalizing d with
  | nil => exact ⟨[], heard_refl⟩
  | cons c calls ih =>
    -- the later calls go on from a session with the same handler
    obtain ⟨newer, later⟩ := ih (d := d.call c) fun c' hc => keep c' (List.mem_cons_of_mem _ hc)
    obtain ⟨new, first⟩ : ∃ new, Heard d (d.call c) new := by
      cases c with
      | control c => exact ⟨[], heard_perform c⟩
      | setSongEndHandler handler => exact absurd trivial (keep _ List.mem_cons_self)
      | render r => exact ⟨[], heard_render r⟩
      | poll meanwhile free => exact heard_poll meanwhile free
    exact ⟨new ++ newer, first.trans later⟩

/-! ## Delivery

The invariant at every moment, from the start on, together with what the handler has heard. -/

/-- Whatever is called, and in whatever order: what was polled is a sublist of what was raised. As
long as no queue is crowded it is a prefix, and the rest is pending. And while nobody sets another
handler, the one in force is called for the turns of the song that are polled, once each and in
order. A poll that nothing comes between is `Session.poll`: it answers what is pending, and nothing
is pending behind it. -/
theorem notifications_delivered (source : SongSource) (config : Config) (host : σ)
    (calls later : List (Call σ)) (keep : ∀ c ∈ later, ¬ c.SetsHandler) :
    let d := (start source config host).after calls
    let e := d.after later
    d.polled.Sublist d.raised ∧
      (d.crowded = false → d.raised =
        d.polled ++ (d.session.mailbox ++ d.session.sequencer.notices.waiting)) ∧
      (∃ new, e.polled = d.polled ++ new ∧
        e.host =
          match d.session.songEndHandler with
          | some handler =>
            (new.filter fun n => n.IsTurn).foldl (fun host n => handler n host) d.host
          | none => d.host) ∧
      let (answer, host, session) := d.session.poll d.host
      let p := d.call (.poll [] true)
      p.session = session ∧ p.host = host ∧ p.polled = d.polled ++ answer ∧
        answer = d.session.mailbox ++ d.session.sequencer.notices.waiting ∧
        session.mailbox = [] ∧ session.sequencer.notices.waiting = [] := by
  intro d e
  have idle : d.taken = [] := taken_after rfl calls
  have inOrder : d.InOrder := (inOrder_start source config host).after rfl calls
  have complete := inOrder.complete
  rw [pending, idle, List.nil_append] at complete
  obtain ⟨new, heard⟩ : ∃ new, Heard d e new := heard_after keep
  refine ⟨(List.sublist_append_left _ _).trans inOrder.ordered, complete, ?_, ?_⟩
  · exact ⟨new, heard.polled, heard.host⟩
  · exact ⟨rfl, rfl, rfl, rfl, rfl, rfl⟩

/-- A session with a song of one rest, whose host writes down what it hears. -/
def restHeard : Delivery (List Notification) :=
  start (.ofArray #[{ driver := .m4a, sources := [.ofBytes ⟨#[0x81, 0xB1]⟩] }]) {} []

theorem notifications_delivered_restHeard :
    let d := restHeard.after [.setSongEndHandler fun n heard => heard ++ [n], .control (.load 0)]
    let e := d.after [.control (.seek 5), .poll [.frames 2] true, .poll [] true]
    e.raised = [.songEnded] ∧ e.crowded = false ∧ e.polled = [.songEnded] ∧
      e.host = [.songEnded] := by
  intro d e
  have counted : e.raised = [.songEnded] ∧ e.crowded = false ∧ e.polled = [.songEnded] := by
    decide +kernel
  obtain ⟨-, -, ⟨new, polled, host⟩, -⟩ := notifications_delivered
    (.ofArray #[{ driver := .m4a, sources := [.ofBytes ⟨#[0x81, 0xB1]⟩] }]) {} []
    [.setSongEndHandler fun n heard => heard ++ [n], .control (.load 0)]
    [.control (.seek 5), .poll [.frames 2] true, .poll [] true]
    (by simp [Call.SetsHandler])
  -- nothing was polled before, and the handler is the one that writes down
  have heard : new = [.songEnded] := polled.symm.trans counted.2.2
  subst heard
  exact ⟨counted.1, counted.2.1, counted.2.2, host⟩

end Delivery
end Chiptune
