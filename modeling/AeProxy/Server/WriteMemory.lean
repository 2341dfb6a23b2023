import AeProxy.Lib.Heap
import AeProxy.Server.Write
import Mathlib.Algebra.Order.Group.Multiset
import Mathlib.Tactic.Abel

/-! Whose the bytes of a write are: neither the connection nor libuv copies them, so that they must be
there until the callback runs, and a caller that frees them does so in it. -/
namespace AeProxy.Write
open Lib

def Entry.size : Entry → Int
  | .connectionWrite _ size => size
  | .connectionWriteInLoop _ size => size
  | .serverWrite _ size => size.toNat
  | .serverWriteByName _ size => size.toNat
  | .serverWriteInLoop _ size => size.toNat
  | .serverWriteInLoopByName _ size => size.toNat
  | .clientWrite size => size.toNat
  | .clientWriteInLoop size => size.toNat

/-- A buffer that is to be freed in a callback, if there is one. -/
def lent (callback : Option Nat) (buf : Nat) : Option Nat := callback.map fun _ => buf

namespace State

/-- The buffers of the callbacks that have yet to run. -/
def pending (self : State) : Multiset Nat :=
  (self.requests.filterMap fun r => lent r.callback r.buf) +
    (self.tasks.filterMap fun task => lent task.callback task.buf)

/-- What is true of the buffer, the size and the callback of every write under way. -/
structure Holds (P : Nat → Int → Option Nat → Prop) (s : State) : Prop where
  requests : ∀ r ∈ s.requests, ∃ size, P r.buf size r.callback ∧ r.len = (size % 2 ^ 32).toNat
  tasks : ∀ task ∈ s.tasks, P task.buf task.size task.callback

/-- A step that deals with one write: its buffer is pending, or has been reported. -/
structure Passes (s : State) (callback : Option Nat) (buf : Nat) (size : Int) (t : State) : Prop where
  reports : ∃ out : List (Nat × WriteInfo), t.invoked = s.invoked ++ out ∧
    t.pending + (out.map (·.2.buf) : Multiset Nat) = s.pending + ((lent callback buf).toList : Multiset Nat)
  holds : ∀ P, Holds P s → P buf size callback → Holds P t

theorem coe_filterMap_concat {α β : Type*} (f : α → Option β) (l : List α) (x : α) :
    ((l ++ [x]).filterMap f : Multiset β) = (l.filterMap f : Multiset β) + ((f x).toList : Multiset β) := by
  rw [List.filterMap_append, ← Multiset.coe_add]
  cases hx : f x with
  | none => rw [List.filterMap_cons_none hx]; rfl
  | some y => rw [List.filterMap_cons_some hx]; rfl

section passes
variable {s t : State} {callback : Option Nat} {buf thread : Nat} {size rst : Int}

theorem Holds.invoke {P : Nat → Int → Option Nat → Prop} (h : Holds P s) (callback : Option Nat)
    (info : WriteInfo) : Holds P (s.invoke callback info) := by
  cases callback with
  | none => exact h
  | some w => exact ⟨h.requests, h.tasks⟩

theorem passes_invoke (s : State) (callback : Option Nat) (size : Int) {info : WriteInfo}
    (hb : info.buf = buf) : s.Passes callback buf size (s.invoke callback info) := by
  refine ⟨?_, fun _ h _ => h.invoke callback info⟩
  subst hb
  cases callback with
  | none => exact ⟨[], (List.append_nil _).symm, rfl⟩
  | some w => exact ⟨[(w, info)], rfl, rfl⟩

theorem passes_write (s : State) (c buf : Nat) (size : Int) (callback : Option Nat) (rst : Int) :
    s.Passes callback buf size (s.write c buf size callback rst) := by
  rw [write]
  split
  · split
    · refine ⟨⟨[], (List.append_nil _).symm, ?_⟩, fun P h hp => ⟨fun r hr => ?_, h.tasks⟩⟩
      · simp only [pending, coe_filterMap_concat, List.map_nil, Multiset.coe_nil, add_zero]
        exact add_right_comm _ _ _
      · rcases List.mem_append.mp hr with hr | hr
        · exact h.requests r hr
        · obtain rfl := List.mem_singleton.mp hr
          exact ⟨size, hp, rfl⟩
    · exact s.passes_invoke callback size rfl
  · exact s.passes_invoke callback size rfl

theorem passes_runTask {task : WriteTask} (h : s.runTask task rst = some t) :
    s.Passes task.callback task.buf task.size t := by
  rw [runTask] at h
  split at h
  next =>
    obtain rfl := Option.some.inj h
    exact s.passes_write ..
  next =>
    split at h
    next w hw =>
      obtain rfl := Option.some.inj h
      rw [hw]
      exact s.passes_invoke (some w) task.size rfl
    next => cases h

theorem passes_runInThisLoop {task : WriteTask} (h : s.runInThisLoop thread task rst = some t) :
    s.Passes task.callback task.buf task.size t := by
  rw [runInThisLoop] at h
  split at h
  next => exact passes_runTask h
  next =>
    obtain rfl := Option.some.inj h
    refine ⟨⟨[], (List.append_nil _).symm, ?_⟩, fun P h hp => ⟨h.requests, fun task' hm => ?_⟩⟩
    · simp only [pending, coe_filterMap_concat, List.map_nil, Multiset.coe_nil, add_zero]
      exact (add_assoc _ _ _).symm
    · rcases List.mem_append.mp hm with hm | hm
      · exact h.tasks task' hm
      · obtain rfl := List.mem_singleton.mp hm
        exact hp

theorem passes_ownerWrite (s : State) (connection : Option Nat) (buf : Nat) (size : UInt32)
    (callback : Option Nat) (rst : Int) :
    s.Passes callback buf size.toNat (s.ownerWrite connection buf size callback rst) := by
  cases connection with
  | some c => exact s.passes_write ..
  | none => exact s.passes_invoke callback _ rfl

theorem passes_ownerWriteInLoop {connection : Option Nat} {size : UInt32}
    (h : s.ownerWriteInLoop thread connection buf size callback rst = some t) :
    s.Passes callback buf size.toNat t := by
  cases connection with
  | some c => exact passes_runInThisLoop h
  | none =>
    obtain rfl := Option.some.inj h
    exact s.passes_invoke callback _ rfl

theorem passes_enter {entry : Entry} (h : s.enter thread buf callback rst entry = some t) :
    s.Passes callback buf entry.size t := by
  cases entry with
  | connectionWrite c size =>
    obtain rfl := Option.some.inj h
    exact s.passes_write ..
  | connectionWriteInLoop c size => exact passes_runInThisLoop h
  | serverWrite connection size =>
    obtain rfl := Option.some.inj h
    exact s.passes_ownerWrite ..
  | serverWriteByName name size =>
    obtain rfl := Option.some.inj h
    exact s.passes_ownerWrite ..
  | serverWriteInLoop connection size => exact passes_ownerWriteInLoop h
  | serverWriteInLoopByName name size => exact passes_ownerWriteInLoop h
  | clientWrite size =>
    obtain rfl := Option.some.inj h
    exact s.passes_ownerWrite ..
  | clientWriteInLoop size => exact passes_ownerWriteInLoop h

/-- Of one that libuv has completed, the request goes and the callback is run. -/
theorem afterWrite_reports {i : Nat} {request : WriteReq} (hi : s.requests[i]? = some request)
    (status : Int) (ht : ({ s with requests := s.requests.eraseIdx i } : State).afterWrite request
      status = t) :
    ∃ out : List (Nat × WriteInfo), t.invoked = s.invoked ++ out ∧
      t.pending + (out.map (·.2.buf) : Multiset Nat) = s.pending := by
  subst ht
  obtain ⟨hlt, hget⟩ := List.getElem?_eq_some_iff.mp hi
  have hperm : (s.requests.filterMap fun r => lent r.callback r.buf : Multiset Nat) =
      ((s.requests.eraseIdx i).filterMap fun r => lent r.callback r.buf : Multiset Nat) +
        ((lent request.callback request.buf).toList : Multiset Nat) := by
    rw [← coe_filterMap_concat, Multiset.coe_eq_coe]
    refine List.Perm.filterMap _ ?_
    rw [← hget]
    exact (List.getElem_cons_eraseIdx_perm hlt).symm.trans (List.perm_append_singleton _ _).symm
  obtain ⟨⟨out, ho, hp⟩, -⟩ := passes_invoke { s with
      requests := s.requests.eraseIdx i
      completed := s.completed ++ request.callback.toList.map (·, status) }
    request.callback request.len (rfl : WriteInfo.buf ⟨status, request.buf, request.len⟩ = _)
  refine ⟨out, ho, hp.trans ?_⟩
  rw [pending, pending, hperm]
  exact add_right_comm _ _ _

theorem Holds.afterWrite {P : Nat → Int → Option Nat → Prop} (h : Holds P s) (i : Nat)
    (request : WriteReq) (status : Int) :
    Holds P (({ s with requests := s.requests.eraseIdx i } : State).afterWrite request status) := by
  have hrest : Holds P { s with
      requests := s.requests.eraseIdx i
      completed := s.completed ++ request.callback.toList.map (·, status) } :=
    ⟨fun r hr => h.requests r (List.mem_of_mem_eraseIdx hr), h.tasks⟩
  exact hrest.invoke ..

theorem Holds.mono {P Q : Nat → Int → Option Nat → Prop} (h : Holds P s)
    (hpq : ∀ buf size callback, P buf size callback → Q buf size callback) : Holds Q s where
  requests r hr := (h.requests r hr).imp fun _ hp => ⟨hpq _ _ _ hp.1, hp.2⟩
  tasks task ht := hpq _ _ _ (h.tasks task ht)

theorem passes_call {entry : Entry} {callback : Bool}
    (ht : step s (.call thread entry buf callback rst) = some t) :
    ∃ w : Option Nat, w.isSome = callback ∧ s.Passes w buf entry.size t := by
  cases callback with
  | true =>
    have hp := passes_enter ht
    exact ⟨_, rfl, hp.reports, fun P h => hp.holds P ⟨h.requests, h.tasks⟩⟩
  | false => exact ⟨none, rfl, passes_enter ht⟩

/-- What other events than calls do: they add no buffer. -/
theorem step_reports {event : Write.Event} (ht : step s event = some t)
    (hcall : ∀ thread entry buf callback rst, event ≠ .call thread entry buf callback rst) :
    (∃ out : List (Nat × WriteInfo), t.invoked = s.invoked ++ out ∧
      t.pending + (out.map (·.2.buf) : Multiset Nat) = s.pending) ∧
    ∀ P, Holds P s → Holds P t := by
  cases event with
  | call thread entry buf callback rst => exact absurd rfl (hcall thread entry buf callback rst)
  | complete i status =>
    simp only [step] at ht
    split at ht
    next request hi =>
      obtain rfl := Option.some.inj ht
      exact ⟨afterWrite_reports hi status rfl, fun P h => h.afterWrite i request status⟩
    next => cases ht
  | runTask rst =>
    simp only [step] at ht
    split at ht
    next task tasks htasks =>
      obtain ⟨⟨out, ho, hp⟩, hholds⟩ := passes_runTask ht
      refine ⟨⟨out, ho, hp.trans ?_⟩, fun P h => hholds P ⟨h.requests, fun task' hm => ?_⟩ ?_⟩
      · have hperm : ((tasks ++ [task]).filterMap fun task => lent task.callback task.buf : Multiset Nat) =
            (s.tasks.filterMap fun task => lent task.callback task.buf : Multiset Nat) :=
          Multiset.coe_eq_coe.mpr (htasks ▸ (List.perm_append_singleton task tasks).filterMap _)
        rw [pending, pending, ← hperm, coe_filterMap_concat]
        exact add_assoc _ _ _
      · exact h.tasks task' (htasks ▸ List.mem_cons_of_mem task hm)
      · exact h.tasks task (htasks ▸ List.mem_cons_self)
    next => cases ht
  | world world =>
    obtain rfl := Option.some.inj ht
    exact ⟨⟨[], (List.append_nil _).symm, add_zero _⟩, fun P h => ⟨h.requests, h.tasks⟩⟩

end passes
end State

/-- Callers that allocate what they write: the buffers with their bytes, those of the calls without
a callback, which nobody frees, and what libuv has sent of which buffer. -/
structure Callers where
  state : State
  heap : Heap (List UInt8)
  given : List (Nat × List UInt8)
  kept : List Nat
  sent : List (Nat × List UInt8)

namespace Callers

inductive Event where
  | call (thread : Nat) (entry : Entry) (bytes : List UInt8) (callback : Bool) (rst : Int)
  | complete (request : Nat) (status : Int)
  | runTask (rst : Int)
  | world (world : World)

def new (world : World) : Callers := ⟨.new world, .empty, [], [], []⟩

/-- The buffer of a call is the next one allocated. -/
def write (self : Callers) : Event → Write.Event
  | .call thread entry _ callback rst => .call thread entry self.heap.next callback rst
  | .complete request status => .complete request status
  | .runTask rst => .runTask rst
  | .world world => .world world

def allocate (self : Callers) (bytes : List UInt8) (callback : Bool) : Callers :=
  let (heap, buf) := self.heap.new bytes
  { self with
    heap := heap
    given := self.given ++ [(buf, bytes)]
    kept := if callback then self.kept else self.kept ++ [buf] }

/-- libuv reads what it sends; here and below `none` is an access to memory that is not there. -/
def transmit (self : Callers) (request : Nat) (status : Int) : Option Callers :=
  match self.state.requests[request]? with
  | some r =>
    if status = 0 then
      (self.heap.read r.buf).map fun bytes =>
        { self with sent := self.sent ++ [(r.buf, bytes.take r.len)] }
    else some self
  | none => some self

/-- The callbacks that have been run free what they are handed. -/
def free (self : Callers) (state : State) : Option Callers :=
  let reports := state.invoked.drop self.state.invoked.length
  ((reports.map (·.2.buf)).foldlM Heap.delete self.heap).map fun heap =>
    { self with state := state, heap := heap }

def step : Step Callers Event := fun self event =>
  (State.step self.state (self.write event)).bind fun state =>
    match event with
    | .call _ _ bytes callback _ => (self.allocate bytes callback).free state
    | .complete request status => (self.transmit request status).bind fun self => self.free state
    | .runTask _ => self.free state
    | .world _ => self.free state

/-- The size given with the call is that of the buffer. -/
def Event.Fits : Event → Prop
  | .call _ entry bytes _ _ => entry.size = bytes.length
  | _ => True

/-- The buffers in use. -/
def owned (self : Callers) : Multiset Nat := self.state.pending + self.kept

/-- A write under way is of a buffer that was given, in its whole size; without a callback, of one
that is kept. -/
def Genuine (p : Callers) (buf : Nat) (size : Int) (callback : Option Nat) : Prop :=
  (∃ bytes, (buf, bytes) ∈ p.given ∧ size = bytes.length) ∧ (callback = none → buf ∈ p.kept)

/-- What holds of every buffer but for who still needs it. -/
structure Tracked (p : Callers) : Prop where
  fresh : ∀ x ∈ p.given, x.1 < p.heap.next
  intact : ∀ x ∈ p.given, p.heap.read x.1 = some x.2 ∨ p.heap.read x.1 = none
  nodup : (p.given.map Prod.fst).Nodup
  sent : ∀ x ∈ p.sent, ∃ bytes, (x.1, bytes) ∈ p.given ∧ x.2 = bytes.take (bytes.length % 2 ^ 32)

/-- The buffers there are those somebody needs. -/
structure Accounted (p : Callers) : Prop where
  tracked : p.Tracked
  cells : p.heap.Exactly p.owned
  writes : p.state.Holds p.Genuine

variable {p q : Callers} {state : State}

theorem accounted_new (world : World) : (new world).Accounted where
  tracked := ⟨nofun, nofun, List.nodup_nil, nofun⟩
  cells := Heap.exactly_empty
  writes := ⟨nofun, nofun⟩

/-- Behind a step of the writes, the callbacks free what is not needed any more. -/
theorem Tracked.free (h : p.Tracked) {out : List (Nat × WriteInfo)}
    (ho : state.invoked = p.state.invoked ++ out)
    (hc : p.heap.Exactly ((out.map (·.2.buf) : Multiset Nat) + (state.pending + p.kept)))
    (hw : state.Holds p.Genuine) : ∃ q, p.free state = some q ∧ q.Accounted ∧ q.state = state := by
  obtain ⟨heap, hd, hm, hc⟩ := hc.deletes
  refine ⟨{ p with state := state, heap := heap }, ?_, ⟨⟨fun x hx => ?_, fun x hx => ?_, h.nodup, h.sent⟩,
    hc, hw⟩, rfl⟩
  · rw [Callers.free, ho, List.drop_left, hd, Option.map_some]
  · exact Nat.lt_of_lt_of_le (h.fresh x hx) hm.next_le
  · by_cases ha : x.1 ∈ (out.map (·.2.buf)).toFinset
    · exact .inr (hm.freed _ ha (Finset.notMem_empty _))
    · rw [hm.others _ ha (Finset.notMem_empty _)]
      exact h.intact x hx

theorem Accounted.allocate (h : p.Accounted) (bytes : List UInt8) (callback : Bool) :
    (p.allocate bytes callback).Tracked ∧
      (∀ buf size w, p.Genuine buf size w → (p.allocate bytes callback).Genuine buf size w) := by
  have hm := Heap.moves_new p.heap bytes
  have hne : ∀ x ∈ p.given, x.1 ∉ ({p.heap.next} : Finset Nat) := fun x hx he =>
    Nat.ne_of_lt (h.tracked.fresh x hx) (Finset.mem_singleton.mp he)
  refine ⟨⟨fun x hx => ?_, fun x hx => ?_, ?_, fun x hx => ?_⟩, fun buf size w hg => ⟨?_, fun hw => ?_⟩⟩
  · rcases List.mem_append.mp hx with hx | hx
    · exact Nat.lt_succ_of_lt (h.tracked.fresh x hx)
    · obtain rfl := List.mem_singleton.mp hx
      exact Nat.lt_succ_self _
  · rcases List.mem_append.mp hx with hx | hx
    · have hr := hm.others x.1 (Finset.notMem_empty _) (hne x hx)
      exact hr ▸ h.tracked.intact x hx
    · obtain rfl := List.mem_singleton.mp hx
      exact .inl (Heap.read_new ..)
  · rw [Callers.allocate, List.map_append, List.map_singleton, ← List.concat_eq_append]
    refine h.tracked.nodup.concat fun hx => ?_
    obtain ⟨x, hx, he⟩ := List.mem_map.mp hx
    exact hne x hx (Finset.mem_singleton.mpr he)
  · obtain ⟨bytes', hb, he⟩ := h.tracked.sent x hx
    exact ⟨bytes', List.mem_append_left _ hb, he⟩
  · obtain ⟨bytes', hb, he⟩ := hg.1
    exact ⟨bytes', List.mem_append_left _ hb, he⟩
  · rw [Callers.allocate]
    cases callback with
    | true => exact hg.2 hw
    | false => exact List.mem_append_left _ (hg.2 hw)

/-- The buffers in use with the one of a call, who needs them now. -/
theorem owned_of_call {callback : Bool} {w : Option Nat} (hw : w.isSome = callback)
    {out : Multiset Nat} (hp : state.pending + out =
      p.state.pending + ((lent w p.heap.next).toList : Multiset Nat)) (bytes : List UInt8) :
    p.heap.next ::ₘ p.owned = out + (state.pending + (p.allocate bytes callback).kept) := by
  subst hw
  rw [owned, ← Multiset.singleton_add]
  cases w with
  | some w =>
    have hkept : (p.allocate bytes (some w).isSome).kept = p.kept := rfl
    have hp : state.pending + out = p.state.pending + {p.heap.next} := hp
    calc {p.heap.next} + (p.state.pending + p.kept)
      _ = p.state.pending + {p.heap.next} + p.kept := by abel
      _ = state.pending + out + p.kept := by rw [hp]
      _ = out + (state.pending + (p.allocate bytes (some w).isSome).kept) := by rw [hkept]; abel
  | none =>
    have hkept : ((p.allocate bytes (none : Option Nat).isSome).kept : Multiset Nat) =
      p.kept + {p.heap.next} := (Multiset.coe_add ..).symm
    have hp : state.pending + out = p.state.pending + 0 := hp
    calc {p.heap.next} + (p.state.pending + p.kept)
      _ = p.state.pending + 0 + (p.kept + {p.heap.next}) := by abel
      _ = out + (state.pending + (p.allocate bytes (none : Option Nat).isSome).kept) := by
        rw [← hp, hkept]
        abel

theorem Accounted.read (h : p.Accounted) {r : WriteReq} (hr : r ∈ p.state.requests) :
    ∃ bytes, (r.buf, bytes) ∈ p.given ∧ p.heap.read r.buf = some bytes ∧
      r.len = bytes.length % 2 ^ 32 := by
  obtain ⟨size, ⟨⟨bytes, hg, rfl⟩, hk⟩, hlen⟩ := h.writes.requests r hr
  have hlive : r.buf ∈ p.owned := by
    refine Multiset.mem_add.mpr ?_
    cases hcb : r.callback with
    | none => exact .inr (hk hcb)
    | some w =>
      refine .inl (Multiset.mem_add.mpr (.inl (List.mem_filterMap.mpr ⟨r, hr, ?_⟩)))
      rw [hcb]
      rfl
  have hsome := (h.cells.live r.buf).mp hlive
  refine ⟨bytes, hg, (h.tracked.intact _ hg).resolve_right fun hn => ?_, by omega⟩
  rw [hn] at hsome
  cases hsome

theorem Accounted.transmit (h : p.Accounted) (request : Nat) (status : Int) :
    ∃ sent, p.transmit request status = some { p with sent := sent } ∧
      Tracked { p with sent := sent } := by
  have hsame : Tracked { p with sent := p.sent } := h.tracked
  cases hi : p.state.requests[request]? with
  | none => exact ⟨p.sent, by rw [Callers.transmit, hi], hsame⟩
  | some r =>
    by_cases hs : status = 0
    · obtain ⟨bytes, hg, hr, hlen⟩ := h.read (List.mem_of_getElem? hi)
      refine ⟨p.sent ++ [(r.buf, bytes.take r.len)], ?_, ⟨h.tracked.fresh, h.tracked.intact,
        h.tracked.nodup, fun x hx => ?_⟩⟩
      · simp only [Callers.transmit, hi, if_pos hs, hr, Option.map_some]
      · rcases List.mem_append.mp hx with hx | hx
        · exact h.tracked.sent x hx
        · obtain rfl := List.mem_singleton.mp hx
          exact ⟨bytes, hg, by rw [hlen]⟩
    · exact ⟨p.sent, by simp only [Callers.transmit, hi, if_neg hs], hsame⟩

/-- A step the writes can take is no fault. -/
theorem Accounted.step (h : p.Accounted) {event : Event} (hfits : event.Fits)
    (hs : State.step p.state (p.write event) = some state) :
    ∃ q, Callers.step p event = some q ∧ q.Accounted ∧ q.state = state := by
  rw [Callers.step, hs, Option.bind_some]
  have hother (hcall : ∀ thread entry buf callback rst,
      p.write event ≠ .call thread entry buf callback rst) (sent : List (Nat × List UInt8))
      (htracked : Tracked { p with sent := sent }) :
      ∃ q, free { p with sent := sent } state = some q ∧ q.Accounted ∧ q.state = state := by
    obtain ⟨⟨out, ho, hp⟩, hholds⟩ := State.step_reports hs hcall
    refine htracked.free ho ?_ (hholds _ h.writes)
    have hc := h.cells
    rw [owned, ← hp] at hc
    rwa [← add_assoc, add_comm _ state.pending]
  cases event with
  | call thread entry bytes callback rst =>
    obtain ⟨w, hw, ⟨out, ho, hp⟩, hholds⟩ := State.passes_call hs
    obtain ⟨htracked, hgenuine⟩ := h.allocate bytes callback
    refine htracked.free ho ?_ (hholds _ (h.writes.mono hgenuine) ⟨⟨bytes, ?_, hfits⟩, fun hn => ?_⟩)
    · rw [← owned_of_call hw hp bytes]
      exact h.cells.new bytes
    · exact List.mem_append_right _ (List.mem_singleton.mpr rfl)
    · subst hw hn
      exact List.mem_append_right _ (List.mem_singleton.mpr rfl)
  | complete request status =>
    obtain ⟨sent, hsent, htracked⟩ := h.transmit request status
    simp only [hsent, Option.bind_some]
    exact hother (fun _ _ _ _ _ => nofun) sent htracked
  | runTask rst => exact hother (fun _ _ _ _ _ => nofun) p.sent h.tracked
  | world world => exact hother (fun _ _ _ _ _ => nofun) p.sent h.tracked

/-- Callers that free what they write in its callback, whatever they call in whatever state of the
connections: no step the writes can take is a fault, what libuv sends is what was given, up to the
size it has been told, and there are just the buffers whose callback has yet to run, and those given
without one. -/
theorem freed_run (world : World) (events : List Event) (hfits : ∀ event ∈ events, event.Fits)
    (hr : step.run (new world) events = some p) :
    p.heap.Exactly p.owned ∧ (p.given.map Prod.fst).Nodup ∧
      (∀ x ∈ p.sent, ∃ bytes, (x.1, bytes) ∈ p.given ∧ x.2 = bytes.take (bytes.length % 2 ^ 32)) ∧
      ∀ event : Event, event.Fits →
        ((step p event).isSome ↔ (State.step p.state (p.write event)).isSome) := by
  have hp : p.Accounted := by
    refine Step.run_invariant_of (C := fun _ event => event.Fits) (fun p event q h hf hq => ?_)
      (accounted_new world) (Step.throughout_of_forall fun event he _ => hfits event he) hr
    obtain ⟨state, hs, -⟩ := Option.bind_eq_some_iff.mp hq
    obtain ⟨q', hq', hacc, -⟩ := h.step hf hs
    exact Option.some.inj (hq'.symm.trans hq) ▸ hacc
  refine ⟨hp.cells, hp.tracked.nodup, hp.tracked.sent, fun event hf => ?_⟩
  constructor
  · intro h
    obtain ⟨q, hq⟩ := Option.isSome_iff_exists.mp h
    obtain ⟨state, hs, -⟩ := Option.bind_eq_some_iff.mp hq
    exact hs ▸ rfl
  · intro h
    obtain ⟨state, hs⟩ := Option.isSome_iff_exists.mp h
    obtain ⟨q, hq, -⟩ := hp.step hf hs
    exact hq ▸ rfl

/-- A write that libuv completes, one through the queue that it refuses, and one without a callback,
whose buffer stays. -/
theorem freed_run_three :
    let events : List Event := [.call 7 (.serverWriteByName "10.0.0.1:4000" 2) [104, 105] true 0,
      .call 3 (.connectionWriteInLoop 0 1) [106] true 0, .call 7 (.connectionWrite 0 1) [107] false 0,
      .complete 0 0, .runTask (-32)]
    ∃ p, step.run (new oneConnection) events = some p ∧ p.sent = [(0, [104, 105])] ∧
      p.owned = {2} ∧ p.heap.Exactly p.owned := by
  intro events
  have hfits : ∀ event ∈ events, event.Fits := by simp [events, Event.Fits, Entry.size]
  exact ⟨_, rfl, rfl, rfl, (freed_run oneConnection events hfits rfl).1⟩

end Callers
end AeProxy.Write
