import AeProxy.Lib.Pipe
import AeProxy.Loop.Wakeup
import AeProxy.Packet.Stream

/-! Packets that any threads write through the loop to one connection, and the reader at its other
end. -/
namespace AeProxy
open Lib Packet

namespace Channel

/-- What a thread writes, of a size that is one for libuv too. -/
structure Message (fmt : Format) extends Segment fmt where
  size : toSegment.bytes.length < 2 ^ 32

/-- A run of the lambda of `write_in_loop`: what it writes, whether it was queued, and whether libuv
has taken it. -/
structure Write (fmt : Format) where
  message : Message fmt
  queued : Bool
  taken : Bool

/-- `rst` is what `uv_write` returns, should the step call it. -/
inductive Event (fmt : Format) where
  | loop (event : EventLoop.Event (Message fmt)) (rst : Int)
  | disconnect
  | read (n : Nat)

end Channel
open Channel

/-- The loop of the writers, the connection, and the stream to its other end. -/
structure Channel (fmt : Format) where
  loop : EventLoop (Message fmt)
  connected : Bool
  writes : List (Write fmt)
  pipe : Pipe UInt8 Packet

namespace Channel
variable {fmt : Format}

def new (fmt : Format) : Channel fmt := ⟨.new, true, [], .empty⟩

/-- The tasks a step of the loop has run, and whether they were queued. -/
def ran {α : Type*} (s t : EventLoop α) : List (α × Bool) :=
  (t.executed.drop s.executed.length).map (·, true) ++
    (t.inlined.drop s.inlined.length).map (·, false)

/-- `TcpConnection::write`. -/
def write (rst : Int) (self : Channel fmt) (task : Message fmt × Bool) : Channel fmt :=
  if self.connected && rst = 0 then
    { self with
      writes := self.writes ++ [⟨task.1, task.2, true⟩], pipe := self.pipe.write task.1.bytes }
  else { self with writes := self.writes ++ [⟨task.1, task.2, false⟩] }

def step : Step (Channel fmt) (Event fmt) := fun self event =>
  match event with
  | .loop event rst =>
    (EventLoop.step self.loop event).map fun loop =>
      (ran self.loop loop).foldl (write rst) { self with loop := loop }
  | .disconnect => some { self with connected := false }
  | .read n => some { self with pipe := self.pipe.read (reader fmt) n }

/-- What libuv has taken, in the order it has. -/
def sent (self : Channel fmt) : List (Message fmt) :=
  (self.writes.filter Write.taken).map Write.message

def queued (self : Channel fmt) : List (Message fmt) :=
  (self.writes.filter Write.queued).map Write.message

def inlined (self : Channel fmt) : List (Message fmt) :=
  (self.writes.filter fun w => !w.queued).map Write.message

/-- The stream of what libuv has taken. -/
def outgoing (self : Channel fmt) : List UInt8 := stream (self.sent.map Message.toSegment) []

/-- What `get_data` and `data_size` give of a packet. -/
def contents (packet : Packet) : List UInt8 := packet.getData.take packet.dataSize.toNat

/-- These tasks have been run, and what was taken of them flows to the reader. -/
structure Flows (executed inlined : List (Message fmt)) (s : Channel fmt) : Prop where
  queued : s.queued = executed
  inlined : s.inlined = inlined
  carries : s.pipe.Carries (reader fmt) s.outgoing

section flows
variable {s t : Channel fmt} {executed inlined : List (Message fmt)}

theorem stream_concat (segments : List (Segment fmt)) (g : Segment fmt) :
    stream (segments ++ [g]) [] = stream segments [] ++ g.bytes := by
  simp only [stream, List.map_append, List.map_singleton, List.flatten_concat, List.append_nil]

theorem Flows.write (h : Flows executed inlined s) (rst : Int) (g : Message fmt) (queued : Bool) :
    Flows (executed ++ if queued then [g] else []) (inlined ++ if queued then [] else [g])
      (s.write rst (g, queued)) := by
  have hrun (taken : Bool) (pipe : Pipe UInt8 Packet)
      (hc : pipe.Carries (reader fmt)
        (stream ((s.sent ++ if taken then [g] else []).map Message.toSegment) [])) :
      Flows (executed ++ if queued then [g] else []) (inlined ++ if queued then [] else [g])
        { s with writes := s.writes ++ [⟨g, queued, taken⟩], pipe := pipe } := by
    refine ⟨?_, ?_, ?_⟩
    · rw [← h.queued, Channel.queued, List.filter_append, List.map_append]
      cases queued <;> rfl
    · rw [← h.inlined, Channel.inlined, List.filter_append, List.map_append]
      cases queued <;> rfl
    · rw [outgoing, sent, List.filter_append, List.map_append]
      cases taken <;> exact hc
  by_cases ht : (s.connected && rst = 0) = true
  · rw [Channel.write, if_pos ht]
    apply hrun true
    rw [if_pos rfl, List.map_append, List.map_singleton, stream_concat]
    exact h.carries.write g.bytes
  · rw [Channel.write, if_neg ht]
    apply hrun false
    rw [if_neg Bool.false_ne_true, List.append_nil]
    exact h.carries

theorem Flows.foldl (h : Flows executed inlined s) (rst : Int) (tasks : List (Message fmt × Bool)) :
    Flows (executed ++ (tasks.filter (·.2)).map (·.1))
      (inlined ++ (tasks.filter fun task => !task.2).map (·.1))
      (tasks.foldl (Channel.write rst) s) := by
  induction tasks generalizing s executed inlined with
  | nil => simpa using h
  | cons task tasks ih =>
    obtain ⟨g, queued⟩ := task
    have hnext := ih (h.write rst g queued)
    cases queued <;> simpa using hnext

theorem foldl_loop (s : Channel fmt) (rst : Int) (tasks : List (Message fmt × Bool)) :
    (tasks.foldl (write rst) s).loop = s.loop := by
  induction tasks generalizing s with
  | nil => rfl
  | cons task tasks ih =>
    rw [List.foldl_cons, ih, Channel.write]
    split <;> rfl

/-- Nothing the loop has run is ever taken back. -/
theorem ran_of_step {α : Type*} {s t : EventLoop α} {event : EventLoop.Event α}
    (ht : EventLoop.step s event = some t) : s.executed <+: t.executed ∧ s.inlined <+: t.inlined := by
  have hsame {u : EventLoop α} (hu : some u = some t) (he : u.executed = s.executed)
      (hi : u.inlined = s.inlined) : s.executed <+: t.executed ∧ s.inlined <+: t.inlined := by
    obtain rfl := Option.some.inj hu
    exact ⟨he ▸ List.prefix_refl _, hi ▸ List.prefix_refl _⟩
  cases event with
  | exec =>
    simp only [EventLoop.step] at ht
    split at ht
    next =>
      obtain rfl := Option.some.inj ht
      exact ⟨List.prefix_append _ _, List.prefix_refl _⟩
    next => cases ht
  | call thread func =>
    simp only [EventLoop.step] at ht
    split at ht
    next =>
      obtain rfl := Option.some.inj ht
      rcases EventLoop.runInThisLoop_cases s thread func with he | ⟨f, he⟩ | ⟨f, he⟩
      all_goals rw [he]
      · exact ⟨List.prefix_refl _, List.prefix_refl _⟩
      · exact ⟨List.prefix_refl _, List.prefix_append _ _⟩
      · exact ⟨List.prefix_refl _, List.prefix_refl _⟩
    next => cases ht
  | enter | leave =>
    simp only [EventLoop.step] at ht
    split at ht
    next =>
      obtain ⟨-, ht⟩ := Option.ite_none_right_eq_some.mp ht
      exact hsame ht rfl rfl
    next => cases ht
  | push | check | send =>
    simp only [EventLoop.step] at ht
    split at ht
    next => exact hsame ht rfl rfl
    next => cases ht
  | stop =>
    simp only [EventLoop.step] at ht
    split at ht
    next => exact hsame ht rfl rfl
    next => exact hsame ht rfl rfl
  | _ =>
    obtain ⟨-, ht⟩ := Option.ite_none_right_eq_some.mp ht
    exact hsame ht rfl rfl

theorem ran_eq {α : Type*} {s t : EventLoop α} (he : s.executed <+: t.executed)
    (hi : s.inlined <+: t.inlined) :
    s.executed ++ ((ran s t).filter (·.2)).map (·.1) = t.executed ∧
      s.inlined ++ ((ran s t).filter fun task => !task.2).map (·.1) = t.inlined := by
  obtain ⟨executed, he⟩ := he
  obtain ⟨inlined, hi⟩ := hi
  rw [ran, ← he, ← hi, List.drop_left, List.drop_left]
  simp [List.filter_append, List.filter_map, Function.comp_def]

theorem Flows.step {event : Event fmt} (h : Flows s.loop.executed s.loop.inlined s)
    (ht : Channel.step s event = some t) : Flows t.loop.executed t.loop.inlined t := by
  cases event with
  | loop event rst =>
    obtain ⟨loop, hloop, rfl⟩ := Option.map_eq_some_iff.mp ht
    obtain ⟨he, hi⟩ := ran_of_step hloop
    obtain ⟨hexecuted, hinlined⟩ := ran_eq he hi
    have hstart : Flows s.loop.executed s.loop.inlined { s with loop := loop } :=
      ⟨h.queued, h.inlined, h.carries⟩
    have hflows := hstart.foldl rst (ran s.loop loop)
    rw [hexecuted, hinlined] at hflows
    rwa [foldl_loop]
  | disconnect =>
    obtain rfl := Option.some.inj ht
    exact ⟨h.queued, h.inlined, h.carries⟩
  | read n =>
    obtain rfl := Option.some.inj ht
    exact ⟨h.queued, h.inlined, h.carries.read n⟩

theorem fifo_of_step {event : Event fmt} (h : EventLoop.Fifo s.loop)
    (ht : Channel.step s event = some t) : EventLoop.Fifo t.loop := by
  cases event with
  | loop event rst =>
    obtain ⟨loop, hloop, rfl⟩ := Option.map_eq_some_iff.mp ht
    rw [foldl_loop]
    exact EventLoop.fifo_step h hloop
  | disconnect =>
    obtain rfl := Option.some.inj ht
    exact h
  | read n =>
    obtain rfl := Option.some.inj ht
    exact h

end flows

theorem contents_packed (g : Segment fmt) : contents g.packed = g.payload.bytes := by
  rw [contents, g.packed_dataSize, g.packed_getData, List.take_left]

/-- The reader takes the payloads off the stream. -/
theorem drain_outgoing (s : Channel fmt) :
    ((reader fmt).drain s.outgoing).1.map contents = s.sent.map (·.payload.bytes) := by
  rw [outgoing, drain_stream _ [] List.not_mem_nil, List.map_map, List.map_map]
  exact List.map_congr_left fun g _ => contents_packed g.toSegment

/-- Whichever threads write packets, in whatever order they and the loop go on, and however the
stream is cut: the other end has received the packets libuv took, in that order, as far as they have
arrived. And once the loop has run what was queued, if libuv has taken all, and all has arrived,
then every packet ever handed over has been received once, the queued ones in their order. -/
theorem received_run (events : List (Event fmt)) {t : Channel fmt}
    (ht : Channel.step.run (new fmt) events = some t) :
    (t.pipe.received.map contents <+: t.sent.map (·.payload.bytes) ∧
      (t.pipe.wire = [] → t.pipe.received.map contents = t.sent.map (·.payload.bytes))) ∧
    t.queued <+: t.loop.posted ∧
    (t.loop.executed = t.loop.posted → (∀ w ∈ t.writes, w.taken = true) → t.pipe.wire = [] →
      (t.pipe.received.map contents).Perm
        ((t.loop.posted ++ t.loop.inlined).map (·.payload.bytes)) ∧
      (t.loop.posted.map (·.payload.bytes)).Sublist (t.pipe.received.map contents)) := by
  obtain ⟨hflows, hfifo⟩ := Step.run_invariant
    (I := fun s : Channel fmt => Flows s.loop.executed s.loop.inlined s ∧ EventLoop.Fifo s.loop)
    (fun _ _ _ h ht => ⟨h.1.step ht, fifo_of_step h.2 ht⟩)
    ⟨⟨rfl, rfl, Pipe.carries_empty _⟩, EventLoop.fifo_new⟩ ht
  have hclean : Clean fmt t.outgoing := clean_stream _ [] List.not_mem_nil
  have hall (hw : t.pipe.wire = []) :
      t.pipe.received.map contents = t.sent.map (·.payload.bytes) := by
    rw [hflows.carries.received_eq (reader_stable fmt) hclean hw, t.drain_outgoing]
  refine ⟨⟨?_, hall⟩, ?_, fun hran htaken hw => ?_⟩
  · have hprefix := hflows.carries.received_prefix (reader_stable fmt) hclean
    exact t.drain_outgoing ▸ hprefix.map contents
  · rw [hflows.queued, ← hfifo.order, List.append_assoc]
    exact List.prefix_append _ _
  · have hsent : t.sent = t.writes.map Write.message := by
      rw [sent, List.filter_eq_self.mpr htaken]
    have hqueued : t.queued = t.loop.posted := hflows.queued.trans hran
    rw [hall hw, hsent, ← hqueued, ← hflows.inlined]
    constructor
    · rw [queued, inlined, ← List.map_append]
      exact ((List.filter_append_perm Write.queued t.writes).map _).map _ |>.symm
    · exact (List.filter_sublist.map _).map _

/-- Two threads write, the one that calls first is queued second, and a read cuts a packet. -/
theorem received_run_two :
    let first : Message {} :=
      ⟨⟨[], ⟨[0x7e, 1], by decide⟩, Packet.new, by decide, by decide⟩, by decide⟩
    let second : Message {} := ⟨⟨[], ⟨[2], by decide⟩, Packet.new, by decide, by decide⟩, by decide⟩
    let loop : List (EventLoop.Event (Message {})) := [.run 0 false, .assign, .asyncInit, .asyncSend,
      .enter, .call 1 (some first), .call 2 (some second), .push 2, .push 1, .check 2, .check 1,
      .deliver, .swap, .exec, .exec, .drained]
    ∃ t, Channel.step.run (new {}) (loop.map (Event.loop · 0) ++ [.read 3, .read 100]) = some t ∧
      t.pipe.received.map contents = [[2], [0x7e, 1]] ∧
      t.pipe.received.map contents <+: t.sent.map (·.payload.bytes) := by
  intro first second loop
  have hs : (Channel.step.run (new {}) (loop.map (Event.loop · 0) ++ [.read 3, .read 100])).map
      (fun t => t.pipe.received.map contents) = some [[2], [0x7e, 1]] := by decide +kernel
  obtain ⟨t, ht, hreceived⟩ := Option.map_eq_some_iff.mp hs
  exact ⟨t, ht, hreceived, (received_run _ ht).1.1⟩

end Channel
end AeProxy
