import AeProxy.Lib.Heap
import AeProxy.Lib.Simulation
import Mathlib.Data.List.Forall2

/-! The string a `TcpConnection` has libuv read into. A message callback is given the memory of the
string and not a copy, and what it writes back from there libuv may send when the next message has
already been read into the same memory. -/
namespace AeProxy
open Lib

namespace EchoServer

/-- The bytes of a string by their index. -/
abbrev Storage := Nat → UInt8

/-- Where a byte lies that libuv has yet to send. -/
structure Address where
  base : Nat
  index : Nat

/-- libuv has room made for `size` bytes, with some to spare if the string must move, and reads
a message, of which the kernel takes a part at once; or the kernel takes more of what waits. -/
inductive Event where
  | read (size spare : Nat) (bytes : List UInt8) (now : Nat)
  | flush (count : Nat)

end EchoServer
open EchoServer

/-- A connection whose message callback writes back what it is given: the string `data_`, the
addresses of what waits to be sent, and what has been sent and received so far. A byte is `none` if
its storage had been freed. -/
structure EchoServer where
  heap : Heap Storage
  base : Nat
  length : Nat
  capacity : Nat
  waiting : List Address
  sent : List (Option UInt8)
  received : List UInt8

namespace EchoServer

/-- An empty string has the room the library gives it. -/
def new (capacity : Nat) : EchoServer :=
  let (heap, base) := (Heap.empty : Heap Storage).new fun _ => 0
  ⟨heap, base, 0, capacity, [], [], []⟩

/-- The indices `std::string::resize` sets to zero: up to a new end, and the one behind it. -/
def Zeroes (length size index : Nat) : Prop := min length size ≤ index ∧ index ≤ size ∧ length ≠ size

instance (length size index : Nat) : Decidable (Zeroes length size index) :=
  inferInstanceAs (Decidable (_ ∧ _))

def resized (storage : Storage) (length size : Nat) : Storage := fun index =>
  if Zeroes length size index then 0 else storage index

def overwritten (storage : Storage) (bytes : List UInt8) : Storage := fun index =>
  bytes.getD index (storage index)

/-- A string without room for that many moves, and its old storage is freed. -/
def resizeData (self : EchoServer) (size spare : Nat) : Option EchoServer :=
  (self.heap.read self.base).bind fun storage =>
    if size ≤ self.capacity then
      (self.heap.write self.base (resized storage self.length size)).map fun heap =>
        { self with heap := heap, length := size }
    else
      let (heap, base) := self.heap.new (resized storage self.length size)
      (heap.delete self.base).map fun heap =>
        { self with heap := heap, base := base, length := size, capacity := size + spare }

/-- What libuv reads it puts in front. -/
def receive (self : EchoServer) (bytes : List UInt8) : Option EchoServer :=
  (self.heap.read self.base).bind fun storage =>
    (self.heap.write self.base (overwritten storage bytes)).map fun heap =>
      { self with heap := heap, received := self.received ++ bytes }

def peek (self : EchoServer) (a : Address) : Option UInt8 :=
  (self.heap.read a.base).map fun storage => storage a.index

def flush (self : EchoServer) (count : Nat) : EchoServer :=
  { self with
    sent := self.sent ++ (self.waiting.take count).map self.peek
    waiting := self.waiting.drop count }

/-- `TcpConnection::write` on the buffer of the message; `uv_write` goes to the kernel at once if
nothing waits in front. -/
def write (self : EchoServer) (size now : Nat) : EchoServer :=
  { self with waiting := self.waiting ++ (List.range size).map (Address.mk self.base) }.flush
    (if self.waiting.isEmpty then now else 0)

/-- Behind `resize_data` follows `on_mesage_receive`, with nothing to do when nothing was read. -/
def step : Step EchoServer Event := fun self event =>
  match event with
  | .read size spare bytes now =>
    if bytes.length ≤ size then
      (self.resizeData size spare).bind fun self =>
        if bytes = [] then some self
        else (self.receive bytes).map fun self => self.write bytes.length now
    else none
  | .flush count => some (self.flush count)

/-- What a read does not leave as it was. -/
def Overwrites (s : EchoServer) (size : Nat) (bytes : List UInt8) (a : Address) : Prop :=
  s.capacity < size ∨ a.index < bytes.length ∨ Zeroes s.length size a.index

instance (s : EchoServer) (size : Nat) (bytes : List UInt8) (a : Address) :
    Decidable (s.Overwrites size bytes a) := inferInstanceAs (Decidable (_ ∨ _))

/-- No byte that waits to be sent is overwritten. -/
def Spares (s : EchoServer) : Event → Prop
  | .read size _ bytes _ => ∀ a ∈ s.waiting, ¬ s.Overwrites size bytes a
  | .flush _ => True

/-- What has gone out, and what goes out if nothing more is read. -/
def stream (self : EchoServer) : List (Option UInt8) := self.sent ++ self.waiting.map self.peek

/-- Everything received goes back as it came. -/
def Returned (s : EchoServer) : Prop := s.stream = s.received.map some

/-- The string has its storage, and what waits lies there, or nowhere any more. -/
structure Sound (s : EchoServer) : Prop where
  storage : ∃ storage, s.heap.read s.base = some storage
  waiting : ∀ a ∈ s.waiting, a.base < s.heap.next ∧ (a.base = s.base ∨ s.peek a = none)
  conserved : s.stream.length = s.received.length

variable {s t : EchoServer}

theorem peek_of_read {a : Address} {storage : Storage} (h : s.heap.read a.base = some storage) :
    s.peek a = some (storage a.index) := by rw [peek, h, Option.map_some]

theorem sound_new (capacity : Nat) : (new capacity).Sound :=
  ⟨⟨fun _ => 0, Heap.read_new (Heap.empty : Heap Storage) _⟩, nofun, rfl⟩

theorem stream_flush (s : EchoServer) (count : Nat) : (s.flush count).stream = s.stream := by
  have hp : (s.flush count).peek = s.peek := rfl
  rw [stream, hp, flush, stream, List.append_assoc, ← List.map_append, List.take_append_drop]

theorem peek_write (s : EchoServer) (size now : Nat) : (s.write size now).peek = s.peek := rfl

theorem stream_write (s : EchoServer) (size now : Nat) : (s.write size now).stream =
    s.stream ++ (List.range size).map fun index => s.peek ⟨s.base, index⟩ := by
  rw [write, stream_flush, stream, List.map_append, List.map_map, ← List.append_assoc]
  rfl

theorem Sound.flush (h : s.Sound) (count : Nat) : (s.flush count).Sound where
  storage := h.storage
  waiting a ha := h.waiting a (List.mem_of_mem_drop ha)
  conserved := by rw [stream_flush, h.conserved]; rfl

/-- Where the string and what waits lie, and the address the next storage gets. -/
structure Layout where
  base : Nat
  length : Nat
  capacity : Nat
  next : Nat
  waiting : List Address

def layout (self : EchoServer) : Layout :=
  ⟨self.base, self.length, self.capacity, self.heap.next, self.waiting⟩

namespace Layout

def resize (self : Layout) (size spare : Nat) : Layout :=
  if size ≤ self.capacity then { self with length := size }
  else { self with
    base := self.next, length := size, capacity := size + spare, next := self.next + 1 }

def flush (self : Layout) (count : Nat) : Layout :=
  { self with waiting := self.waiting.drop count }

def write (self : Layout) (size now : Nat) : Layout :=
  { self with waiting := self.waiting ++ (List.range size).map (Address.mk self.base) }.flush
    (if self.waiting.isEmpty then now else 0)

def after (self : Layout) : Event → Layout
  | .read size spare bytes now => (self.resize size spare).write bytes.length now
  | .flush count => self.flush count

theorem write_zero (l : Layout) (now : Nat) : l.write 0 now = l := by
  rcases l with ⟨base, length, capacity, next, waiting⟩
  cases waiting with
  | nil => simp [write, flush]
  | cons a waiting => simp [write, flush]

end Layout

/-- What `resize_data` does to the waiting bytes. -/
structure Resizes (s t : EchoServer) (size spare : Nat) : Prop where
  layout : t.layout = s.layout.resize size spare
  sent : t.sent = s.sent
  received : t.received = s.received
  storage : ∃ storage, t.heap.read t.base = some storage
  waiting : ∀ a ∈ s.waiting, a.base < t.heap.next ∧ (a.base = t.base ∨ t.peek a = none)
  peek : ∀ a ∈ s.waiting, t.peek a =
    if s.capacity < size then none
    else if a.base = s.base ∧ Zeroes s.length size a.index then some 0 else s.peek a

theorem resizeData_of_le (h : s.Sound) {size : Nat} (hc : size ≤ s.capacity) (spare : Nat) :
    ∃ t, s.resizeData size spare = some t ∧ Resizes s t size spare := by
  obtain ⟨storage, hs⟩ := h.storage
  obtain ⟨heap, hw, hn, hr⟩ := Heap.put_of_read hs (some (resized storage s.length size))
  refine ⟨{ s with heap := heap, length := size }, ?_, ?_, rfl, rfl,
    ⟨resized storage s.length size, ?_⟩, fun a ha => ?_, fun a ha => ?_⟩
  · rw [resizeData, hs, Option.bind_some, if_pos hc, Heap.write, hw, Option.map_some]
  · rw [layout, Layout.resize, layout, if_pos hc, hn]
  · exact hr ▸ Function.update_self ..
  · obtain ⟨hl, hb⟩ := h.waiting a ha
    refine ⟨hn ▸ hl, hb.imp_right fun hb => ?_⟩
    have hne : a.base ≠ s.base := by
      rintro he
      cases hb.symm.trans (peek_of_read (he ▸ hs))
    rw [EchoServer.peek, hr, Function.update_of_ne hne]
    exact hb
  · rw [if_neg (Nat.not_lt.mpr hc), EchoServer.peek, hr]
    by_cases hb : a.base = s.base
    · rw [hb, Function.update_self, Option.map_some, resized, peek_of_read (hb ▸ hs)]
      simp only [true_and, apply_ite some]
    · rw [Function.update_of_ne hb, if_neg fun hz => hb hz.1, EchoServer.peek]

theorem resizeData_of_lt (h : s.Sound) {size : Nat} (hc : s.capacity < size) (spare : Nat) :
    ∃ t, s.resizeData size spare = some t ∧ Resizes s t size spare := by
  obtain ⟨storage, hs⟩ := h.storage
  have hm := Heap.moves_new s.heap (resized storage s.length size)
  obtain ⟨-, hs'⟩ := hm.read_eq hs (Finset.notMem_empty _)
  obtain ⟨heap, hd, hn, hr⟩ := Heap.put_of_read hs' none
  have hgone : ∀ a ∈ s.waiting, heap.read a.base = none := by
    intro a ha
    obtain ⟨hl, hb⟩ := h.waiting a ha
    by_cases he : a.base = s.base
    · rw [hr, he, Function.update_self]
    · rw [hr, Function.update_of_ne he]
      exact hm.read_none (Option.map_eq_none_iff.mp (hb.resolve_left he)) hl (Finset.notMem_empty _)
  refine ⟨{ s with heap := heap, base := s.heap.next, length := size, capacity := size + spare },
    ?_, ?_, rfl, rfl, ⟨resized storage s.length size, ?_⟩,
    fun a ha => ⟨?_, .inr (Option.map_eq_none_iff.mpr (hgone a ha))⟩, fun a ha => ?_⟩
  · rw [resizeData, hs, Option.bind_some, if_neg (Nat.not_le.mpr hc)]
    exact congrArg (Option.map _) hd
  · rw [layout, Layout.resize, layout, if_neg (Nat.not_le.mpr hc), hn]
    rfl
  · rw [hr, Function.update_of_ne (Nat.ne_of_gt (Heap.lt_next hs))]
    exact Heap.read_new ..
  · exact Nat.lt_of_lt_of_le (h.waiting a ha).1 (hn ▸ hm.next_le)
  · rw [if_pos hc, EchoServer.peek, hgone a ha, Option.map_none]

theorem resizeData_spec (h : s.Sound) (size spare : Nat) :
    ∃ t, s.resizeData size spare = some t ∧ Resizes s t size spare :=
  (Nat.lt_or_ge s.capacity size).elim (resizeData_of_lt h · spare) (resizeData_of_le h · spare)

/-- What a read does to a message callback that writes it back. -/
structure Receives (s t : EchoServer) (bytes : List UInt8) (now : Nat) : Prop where
  layout : t.layout = s.layout.write bytes.length now
  stream : t.stream = s.sent ++ s.waiting.map t.peek ++ bytes.map some
  received : t.received = s.received ++ bytes
  storage : ∃ storage, t.heap.read t.base = some storage
  waiting : ∀ a ∈ t.waiting, a ∈ s.waiting ∨ a.base = t.base
  peek : ∀ a, t.peek a =
    if a.base = s.base ∧ a.index < bytes.length then bytes[a.index]? else s.peek a

theorem receive_spec (hs : ∃ storage, s.heap.read s.base = some storage) (bytes : List UInt8)
    (now : Nat) :
    ∃ u, s.receive bytes = some u ∧ Receives s (u.write bytes.length now) bytes now := by
  obtain ⟨storage, hs⟩ := hs
  obtain ⟨heap, hw, hn, hr⟩ := Heap.put_of_read hs (some (overwritten storage bytes))
  let u : EchoServer := { s with heap := heap, received := s.received ++ bytes }
  have hread : u.heap.read u.base = some (overwritten storage bytes) := hr ▸ Function.update_self ..
  have hpeek : ∀ a, u.peek a =
      if a.base = s.base ∧ a.index < bytes.length then bytes[a.index]? else s.peek a := by
    intro a
    by_cases hb : a.base = s.base
    · rw [peek_of_read (hb ▸ hread), peek_of_read (hb ▸ hs), overwritten, List.getD_eq_getElem?_getD]
      by_cases hi : a.index < bytes.length
      · rw [if_pos ⟨hb, hi⟩, List.getElem?_eq_getElem hi, Option.getD_some]
      · rw [if_neg fun h => hi h.2, List.getElem?_eq_none (Nat.le_of_not_lt hi), Option.getD_none]
    · rw [if_neg fun h => hb h.1, EchoServer.peek, EchoServer.peek, hr, Function.update_of_ne hb]
  have hnew : (List.range bytes.length).map (fun i => u.peek ⟨s.base, i⟩) = bytes.map some := by
    apply List.ext_getElem
    · simp
    · intro i hi _
      simp only [List.length_map, List.length_range] at hi
      simp [hpeek, hi]
  refine ⟨u, ?_, ?_, ?_, rfl, ⟨_, hread⟩, fun a ha => ?_, hpeek⟩
  · rw [receive, hs, Option.bind_some, Heap.write, hw, Option.map_some]
  · have hl : u.layout = s.layout := by rw [layout, hn, layout]
    exact congrArg (Layout.write · bytes.length now) hl
  · rw [peek_write, stream_write, ← hnew]
    rfl
  · rcases List.mem_append.mp (List.mem_of_mem_drop ha) with ha | ha
    · exact .inl ha
    · obtain ⟨i, -, rfl⟩ := List.mem_map.mp ha
      exact .inr rfl

theorem receives_nil (hs : ∃ storage, s.heap.read s.base = some storage) (now : Nat) :
    Receives s s [] now where
  layout := (s.layout.write_zero now).symm
  stream := by rw [List.map_nil, List.append_nil, stream]
  received := (List.append_nil _).symm
  storage := hs
  waiting _ ha := .inl ha
  peek a := (if_neg fun h => Nat.not_lt_zero _ h.2).symm

/-- What becomes of everything when a message is read. -/
structure Reads (s t : EchoServer) (size spare : Nat) (bytes : List UInt8) (now : Nat) : Prop where
  layout : t.layout = s.layout.after (.read size spare bytes now)
  stream : t.stream = s.sent ++ s.waiting.map t.peek ++ bytes.map some
  received : t.received = s.received ++ bytes
  sound : t.Sound
  peek : ∀ a ∈ s.waiting, t.peek a =
    if s.capacity < size then none
    else if a.base = s.base ∧ a.index < bytes.length then bytes[a.index]?
    else if a.base = s.base ∧ Zeroes s.length size a.index then some 0 else s.peek a

theorem Resizes.receives {u : EchoServer} {size spare now : Nat} {bytes : List UInt8} (h : s.Sound)
    (hu : Resizes s u size spare) (ht : Receives u t bytes now) : Reads s t size spare bytes now := by
  have hwaiting : u.waiting = s.waiting := by
    have he := congrArg Layout.waiting hu.layout
    rw [Layout.resize] at he
    split at he
    next => exact he
    next => exact he
  have hbase : u.base = if size ≤ s.capacity then s.base else s.heap.next := by
    have he := congrArg Layout.base hu.layout
    rw [Layout.resize, apply_ite Layout.base] at he
    exact he
  have hbase' : t.base = u.base := congrArg Layout.base ht.layout
  have hnext' : t.heap.next = u.heap.next := congrArg Layout.next ht.layout
  have hstream : t.stream = s.sent ++ s.waiting.map t.peek ++ bytes.map some := by
    rw [ht.stream, hu.sent, hwaiting]
  refine ⟨?_, hstream, by rw [ht.received, hu.received], ⟨ht.storage, fun a ha => ?_, ?_⟩,
    fun a ha => ?_⟩
  · rw [ht.layout, hu.layout, Layout.after]
  · rcases ht.waiting a ha with ha | ha
    · obtain ⟨hl, hb⟩ := hu.waiting a (hwaiting ▸ ha)
      refine ⟨hnext' ▸ hl, ?_⟩
      by_cases he : a.base = u.base
      · exact .inl (he.trans hbase'.symm)
      · rw [ht.peek, if_neg fun h => he h.1]
        exact .inr (hb.resolve_left he)
    · obtain ⟨storage, hs⟩ := ht.storage
      exact ⟨ha ▸ Heap.lt_next hs, .inl ha⟩
  · have hc := h.conserved
    rw [stream, List.length_append, List.length_map] at hc
    rw [hstream, ht.received, hu.received]
    simp only [List.length_append, List.length_map, ← hc]
  · rw [ht.peek, hu.peek a ha, hbase]
    by_cases hc : s.capacity < size
    · rw [if_neg (Nat.not_le.mpr hc), if_pos hc,
        if_neg fun he => Nat.ne_of_lt (h.waiting a ha).1 he.1, if_pos hc]
    · rw [if_pos (Nat.not_lt.mp hc), if_neg hc, if_neg hc]

theorem step_read (h : s.Sound) {size : Nat} {bytes : List UInt8} (hb : bytes.length ≤ size)
    (spare now : Nat) :
    ∃ t, step s (.read size spare bytes now) = some t ∧ Reads s t size spare bytes now := by
  obtain ⟨u, hu, hresizes⟩ := resizeData_spec h size spare
  rw [step, if_pos hb, hu, Option.bind_some]
  by_cases hbytes : bytes = []
  · subst hbytes
    exact ⟨u, if_pos rfl, hresizes.receives h (receives_nil hresizes.storage now)⟩
  · obtain ⟨v, hv, hreceives⟩ := receive_spec hresizes.storage bytes now
    rw [if_neg hbytes, hv, Option.map_some]
    exact ⟨_, rfl, hresizes.receives h hreceives⟩

def Event.bytes : Event → List UInt8
  | .read _ _ bytes _ => bytes
  | .flush _ => []

/-- What a byte has become that a read has not left as it was. -/
def Lost (bytes : List UInt8) (byte : Option UInt8) : Prop :=
  byte = none ∨ byte = some 0 ∨ ∃ b ∈ bytes, byte = some b

section reads
variable {size spare now : Nat} {bytes : List UInt8} {a : Address}

theorem Reads.kept (h : Reads s t size spare bytes now) (ha : a ∈ s.waiting)
    (ho : ¬ s.Overwrites size bytes a) : t.peek a = s.peek a := by
  obtain ⟨hc, ho⟩ := not_or.mp ho
  obtain ⟨hi, hz⟩ := not_or.mp ho
  rw [h.peek a ha, if_neg hc, if_neg fun h => hi h.2, if_neg fun h => hz h.2]

theorem lost_getElem? (hi : a.index < bytes.length) : Lost bytes bytes[a.index]? :=
  .inr (.inr ⟨_, List.getElem_mem hi, List.getElem?_eq_getElem hi⟩)

theorem Reads.lost (h : Reads s t size spare bytes now) (ha : a ∈ s.waiting) (hb : a.base = s.base)
    (ho : s.Overwrites size bytes a) : Lost bytes (t.peek a) := by
  rw [h.peek a ha]
  by_cases hc : s.capacity < size
  · rw [if_pos hc]
    exact .inl rfl
  by_cases hi : a.index < bytes.length
  · rw [if_neg hc, if_pos ⟨hb, hi⟩]
    exact lost_getElem? hi
  · rw [if_neg hc, if_neg fun h => hi h.2, if_pos ⟨hb, (ho.resolve_left hc).resolve_left hi⟩]
    exact .inr (.inl rfl)

theorem Reads.kept_or_lost (h : Reads s t size spare bytes now) (ha : a ∈ s.waiting) :
    t.peek a = s.peek a ∨ Lost bytes (t.peek a) := by
  rw [h.peek a ha]
  split
  next => exact .inr (.inl rfl)
  next =>
    split
    next hi => exact .inr (lost_getElem? hi.2)
    next =>
      split
      next => exact .inr (.inr (.inl rfl))
      next => exact .inl rfl

end reads

theorem Returned.base_eq (h : s.Returned) (hs : s.Sound) {a : Address} (ha : a ∈ s.waiting) :
    a.base = s.base := by
  refine (hs.waiting a ha).2.resolve_right fun hn => ?_
  have hm : none ∈ s.received.map some := by
    rw [← h, stream, ← hn]
    exact List.mem_append_right _ (List.mem_map_of_mem ha)
  obtain ⟨b, -, hb⟩ := List.mem_map.mp hm
  cases hb

/-- What becomes of everything behind an event. -/
structure Steps (s : EchoServer) (event : Event) (t : EchoServer) : Prop where
  layout : t.layout = s.layout.after event
  stream : t.stream = s.sent ++ s.waiting.map t.peek ++ event.bytes.map some
  received : t.received = s.received ++ event.bytes
  sound : t.Sound
  kept : Spares s event → ∀ a ∈ s.waiting, t.peek a = s.peek a
  lost : ∀ a ∈ s.waiting, t.peek a = s.peek a ∨ Lost event.bytes (t.peek a)
  spoilt : s.Returned → ¬ Spares s event → ∃ a ∈ s.waiting, Lost event.bytes (t.peek a)

theorem Reads.steps {size spare now : Nat} {bytes : List UInt8}
    (h : Reads s t size spare bytes now) (hs : s.Sound) :
    Steps s (.read size spare bytes now) t where
  layout := h.layout
  stream := h.stream
  received := h.received
  sound := h.sound
  kept hk a ha := h.kept ha (hk a ha)
  lost a ha := h.kept_or_lost ha
  spoilt hr hns := by
    simp only [Spares, not_forall, not_not] at hns
    obtain ⟨a, ha, ho⟩ := hns
    exact ⟨a, ha, h.lost ha (hr.base_eq hs ha) ho⟩

theorem Sound.steps (h : s.Sound) {event : Event} (ht : step s event = some t) :
    Steps s event t := by
  cases event with
  | read size spare bytes now =>
    by_cases hb : bytes.length ≤ size
    · obtain ⟨u, hu, hreads⟩ := step_read h hb spare now
      obtain rfl : u = t := Option.some.inj (hu.symm.trans ht)
      exact hreads.steps h
    · rw [step, if_neg hb] at ht
      cases ht
  | flush count =>
    obtain rfl := Option.some.inj ht
    have hstream := stream_flush s count
    exact ⟨rfl, by rw [hstream, stream]; exact (List.append_nil _).symm, (List.append_nil _).symm,
      h.flush count, fun _ _ _ => rfl, fun _ _ => .inl rfl, fun _ hns => absurd trivial hns⟩

theorem Returned.step (h : s.Returned) (hs : s.Sound) {event : Event} (hk : Spares s event)
    (ht : EchoServer.step s event = some t) : t.Returned := by
  have hsteps := hs.steps ht
  have hp : s.waiting.map t.peek = s.waiting.map s.peek := List.map_congr_left (hsteps.kept hk)
  rw [Returned, hsteps.stream, hsteps.received, hp, List.map_append]
  exact congrArg (· ++ _) h

/-- Events that differ in the bytes of the messages only. -/
inductive SameShape : Event → Event → Prop
  | read {size spare now : Nat} {bytes bytes' : List UInt8} (h : bytes.length = bytes'.length) :
    SameShape (.read size spare bytes now) (.read size spare bytes' now)
  | flush {count : Nat} : SameShape (.flush count) (.flush count)

/-- The same memory but for what is in it. -/
structure Alike (s t : EchoServer) : Prop where
  left : s.Sound
  right : t.Sound
  layout : s.layout = t.layout

variable {event event' : Event}

theorem SameShape.after (h : SameShape event event') (l : Layout) : l.after event = l.after event' := by
  cases h with
  | read h => rw [Layout.after, Layout.after, h]
  | flush => rfl

theorem Alike.spares_iff (h : Alike s t) (he : SameShape event event') :
    Spares s event ↔ Spares t event' := by
  have hwaiting : s.waiting = t.waiting := congrArg Layout.waiting h.layout
  have hcapacity : s.capacity = t.capacity := congrArg Layout.capacity h.layout
  have hlength : s.length = t.length := congrArg Layout.length h.layout
  cases he with
  | read hb => simp only [Spares, Overwrites, hwaiting, hcapacity, hlength, hb]
  | flush => exact Iff.rfl

theorem Alike.step (h : Alike s t) (he : SameShape event event') {u : EchoServer}
    (hu : EchoServer.step s event = some u) :
    ∃ v, EchoServer.step t event' = some v ∧ Alike u v := by
  have hleft := h.left.steps hu
  have hv : ∃ v, EchoServer.step t event' = some v := by
    cases he with
    | @read size _ _ bytes _ hb =>
      by_cases hsize : bytes.length ≤ size
      · obtain ⟨v, hv, -⟩ := step_read h.right (hb ▸ hsize) _ _
        exact ⟨v, hv⟩
      · rw [EchoServer.step, if_neg hsize] at hu
        cases hu
    | flush => exact ⟨_, rfl⟩
  obtain ⟨v, hv⟩ := hv
  have hright := h.right.steps hv
  exact ⟨v, hv, hleft.sound, hright.sound, by rw [hleft.layout, hright.layout, h.layout, he.after]⟩

section run
variable {events events' : List Event} {u : EchoServer}

theorem Alike.run (h : Alike s t) (hes : List.Forall₂ SameShape events events')
    (hu : EchoServer.step.run s events = some u) :
    ∃ v, EchoServer.step.run t events' = some v ∧ Alike u v :=
  Step.run_related (R := Alike) (E := SameShape) (fun _ _ _ _ _ h he => h.step he) h hes hu

theorem Alike.throughout_spares (h : Alike s t) (hes : List.Forall₂ SameShape events events')
    (hu : EchoServer.step.run s events = some u)
    (hk : EchoServer.step.Throughout Spares s events) :
    EchoServer.step.Throughout Spares t events' :=
  Step.throughout_related (R := Alike) (E := SameShape) (fun _ _ _ _ _ h he => h.step he)
    (fun _ _ _ _ h he => (h.spares_iff he).mp) h hes hu hk

end run

/-- The message filled with one byte. -/
def Event.fill (byte : UInt8) : Event → Event
  | .read size spare bytes now => .read size spare (List.replicate bytes.length byte) now
  | .flush count => .flush count

theorem sameShape_fill (byte : UInt8) (event : Event) : SameShape event (event.fill byte) := by
  cases event with
  | read => exact .read List.length_replicate.symm
  | flush => exact .flush

theorem mem_bytes_fill {byte b : UInt8} (hb : b ∈ (event.fill byte).bytes) : b = byte := by
  cases event with
  | read => exact List.eq_of_mem_replicate hb
  | flush => cases hb

/-- Some byte of ones has been lost. -/
def Bad (s : EchoServer) : Prop := s.stream.count (some 1) < s.received.count 1

theorem Lost.ne_one {bytes : List UInt8} {byte : Option UInt8} (h : Lost bytes byte)
    (hb : 1 ∉ bytes) : byte ≠ some 1 := by
  rintro rfl
  obtain h | h | ⟨b, hm, h⟩ := h
  · cases h
  · cases h
  · exact hb (Option.some.inj h ▸ hm)

theorem count_some {bytes : List UInt8} (hb : 1 ∉ bytes) : (bytes.map some).count (some 1) = 0 := by
  rw [List.count_eq_zero]
  rintro hm
  obtain ⟨b, hm, he⟩ := List.mem_map.mp hm
  exact hb (Option.some.inj he ▸ hm)

theorem Bad.step (h : s.Bad) (hs : s.Sound) (hb : 1 ∉ event.bytes)
    (ht : EchoServer.step s event = some t) : t.Bad := by
  have hsteps := hs.steps ht
  have hle : (s.waiting.map t.peek).count (some 1) ≤ (s.waiting.map s.peek).count (some 1) := by
    rw [List.count_eq_countP, List.count_eq_countP, List.countP_map, List.countP_map]
    refine List.countP_mono_left fun a ha hp => ?_
    simp only [Function.comp_apply, beq_iff_eq] at hp ⊢
    rcases hsteps.lost a ha with hk | hl
    · rw [← hk, hp]
    · exact absurd hp (hl.ne_one hb)
  rw [Bad, stream, List.count_append] at h
  rw [Bad, hsteps.stream, hsteps.received, List.count_append, List.count_append, List.count_append,
    count_some hb, List.count_eq_zero.mpr hb]
  omega

/-- With ones only so far, the step that overwrites what waits loses one. -/
theorem bad_of_not_spares (hs : s.Sound) (hr : s.Returned) (hones : ∀ b ∈ s.received, b = 1)
    (hb : 1 ∉ event.bytes) (hns : ¬ Spares s event) (ht : step s event = some t) : t.Bad := by
  have hsteps := hs.steps ht
  obtain ⟨a, ha, hl⟩ := hsteps.spoilt hr hns
  have hlt : (s.sent ++ s.waiting.map t.peek).count (some 1) <
      (s.sent ++ s.waiting.map t.peek).length := by
    refine Nat.lt_of_le_of_ne List.count_le_length fun he => hl.ne_one hb ?_
    exact (List.count_eq_length.mp he _ (List.mem_append_right _ (List.mem_map_of_mem ha))).symm
  have hlen := hs.conserved
  rw [stream, List.length_append, List.length_map] at hlen
  rw [List.length_append, List.length_map, hlen, List.count_append] at hlt
  rw [Bad, hsteps.stream, hsteps.received, List.count_append, List.count_append, List.count_append,
    count_some hb, List.count_eq_zero.mpr hb, List.count_eq_length.mpr fun b hb => (hones b hb).symm]
  exact hlt

theorem Returned.not_bad (h : s.Returned) : ¬ s.Bad := by
  rw [Bad, h, List.count_map_of_injective _ _ (Option.some_injective _)]
  exact Nat.lt_irrefl _

theorem forall₂_fill (byte : UInt8) (events : List Event) :
    List.Forall₂ SameShape events (events.map (Event.fill byte)) :=
  List.forall₂_map_right_iff.mpr (List.forall₂_same.mpr fun event _ => sameShape_fill byte event)

theorem notMem_bytes_fill (event : Event) : 1 ∉ (event.fill 2).bytes := fun h =>
  absurd (mem_bytes_fill h) (by decide)

theorem ones_of_run {events : List Event} (hs : s.Sound) (hr : s.received = [])
    (ht : step.run s (events.map (Event.fill 1)) = some t) : ∀ b ∈ t.received, b = 1 := by
  refine (Step.run_invariant_of (I := fun s => s.Sound ∧ ∀ b ∈ s.received, b = 1)
    (C := fun _ event => ∀ b ∈ event.bytes, b = 1) (fun s event t h he ht => ?_) ⟨hs, ?_⟩
    (Step.throughout_of_forall fun event he _ => ?_) ht).2
  · have hsteps := h.1.steps ht
    refine ⟨hsteps.sound, fun b hb => ?_⟩
    rw [hsteps.received] at hb
    exact (List.mem_append.mp hb).elim (h.2 b) (he b)
  · rw [hr]
    exact nofun
  · obtain ⟨event, -, rfl⟩ := List.mem_map.mp he
    exact fun b => mem_bytes_fill

theorem Bad.run {events : List Event} (h : s.Bad) (hs : s.Sound)
    (ht : EchoServer.step.run s (events.map (Event.fill 2)) = some t) : t.Bad := by
  refine (Step.run_invariant_of (I := fun s => s.Sound ∧ s.Bad)
    (C := fun _ event => 1 ∉ event.bytes) (fun s event t h he ht => ?_) ⟨hs, h⟩
    (Step.throughout_of_forall fun event he _ => ?_) ht).2
  · exact ⟨(h.1.steps ht).sound, h.2.step h.1 he ht⟩
  · obtain ⟨event, -, rfl⟩ := List.mem_map.mp he
    exact notMem_bytes_fill event

/-- Along a run of a given shape, however the kernel takes the bytes: all messages go back as they
came, whatever is in them, exactly if no read overwrites a byte that waits to be sent. -/
theorem returned_iff_spares (capacity : Nat) (events : List Event)
    (hr : step.run (new capacity) events = some t) :
    (∀ events' t', List.Forall₂ SameShape events events' →
        step.run (new capacity) events' = some t' → t'.Returned) ↔
      step.Throughout Spares (new capacity) events := by
  have hnew := sound_new capacity
  have halike : Alike (new capacity) (new capacity) := ⟨hnew, hnew, rfl⟩
  have hreturned {es : List Event} {u : EchoServer} (hk : step.Throughout Spares (new capacity) es)
      (hu : step.run (new capacity) es = some u) : u.Sound ∧ u.Returned :=
    Step.run_invariant_of (I := fun s => s.Sound ∧ s.Returned) (fun s e t hs hk ht =>
      ⟨(hs.1.steps ht).sound, hs.2.step hs.1 hk ht⟩) ⟨hnew, rfl⟩ hk hu
  constructor
  · intro h
    by_contra hn
    obtain ⟨before, event, after, s, rfl, hs, hk, hns⟩ := Step.exists_of_not_throughout hr hn
    -- ones up to the step that overwrites, twos from there on
    have hes := List.rel_append (forall₂_fill 1 before) (forall₂_fill 2 (event :: after))
    obtain ⟨t', ht', -⟩ := halike.run hes hr
    obtain ⟨s', hs', hrest⟩ := Step.run_append_eq_some.mp ht'
    obtain ⟨u, hu, hafter⟩ := Step.run_cons_eq_some.mp hrest
    obtain ⟨s'', hs'', hss⟩ := halike.run (forall₂_fill 1 before) hs
    obtain rfl : s'' = s' := Option.some.inj (hs''.symm.trans hs')
    obtain ⟨hsound, hret⟩ := hreturned (halike.throughout_spares (forall₂_fill 1 before) hs hk) hs'
    have hones : ∀ b ∈ s''.received, b = 1 := ones_of_run hnew rfl hs'
    have hbad : u.Bad := bad_of_not_spares hsound hret hones (notMem_bytes_fill event)
      (mt (hss.spares_iff (sameShape_fill 2 event)).mpr hns) hu
    exact (h _ t' hes ht').not_bad (hbad.run (hsound.steps hu).sound hafter)
  · intro hk events' t' hes ht'
    exact (hreturned (halike.throughout_spares hes hr hk) ht').2

theorem returned_iff_spares_drained :
    let events : List Event := [.read 64 64 [104, 105] 1, .flush 1, .read 64 0 [106] 1]
    ∃ t, step.run (new 15) events = some t ∧
      ((∀ events' t', List.Forall₂ SameShape events events' →
        step.run (new 15) events' = some t' → t'.Returned) ↔
        step.Throughout Spares (new 15) events) :=
  ⟨_, rfl, returned_iff_spares 15 _ rfl⟩

/-- A second message read over the first goes out in its place. -/
example : (step.run (new 15) [.read 64 64 [104, 105] 0, .read 64 0 [106] 0, .flush 3]).map
    EchoServer.sent = some [some 106, some 105, some 106] := by decide +kernel

end EchoServer
end AeProxy
