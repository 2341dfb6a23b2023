import Mathlib.Algebra.Group.Int.Defs
import Mathlib.Data.List.AList
import Mathlib.Data.List.Perm.Basic
import AeProxy.Lib.Simulation
import AeProxy.Loop.EventLoop

/-! The completion of writes: a call goes through up to four layers, of the server or the client, of
the connection, of the loop's queue and of libuv, and each way out reports to its callback. -/
namespace AeProxy.Write
open Lib

structure WriteInfo where
  status : Int
  buf : Nat
  size : Nat
  deriving DecidableEq, Repr

/-- `WriteInfo::Disconnected`. -/
def disconnected : Int := -1

/-- A request libuv has accepted. -/
structure WriteReq where
  buf : Nat
  len : Nat
  callback : Option Nat

/-- The lambda `write_in_loop` queues, with its weak pointer. -/
structure WriteTask where
  connection : Nat
  buf : Nat
  size : Int
  callback : Option Nat

/-- What the paths of a write depend on, and others change: the server's map, the client's
connection, which connections are up and which still exist, and the state of the loop. -/
structure World where
  connnections : AList fun _ : String => Nat
  connection_ : Option Nat
  connected : Nat → Bool
  alive : Nat → Bool
  status : EventLoop.Status
  loopThreadId : Option Nat

/-- The requests and tasks outstanding, the callbacks run, the writes libuv has completed, and how
many calls with a callback have been made. -/
structure State where
  world : World
  requests : List WriteReq
  tasks : List WriteTask
  invoked : List (Nat × WriteInfo)
  completed : List (Nat × Int)
  issued : Nat

inductive Entry where
  | connectionWrite (connection : Nat) (size : Int)
  | connectionWriteInLoop (connection : Nat) (size : Int)
  | serverWrite (connection : Option Nat) (size : UInt32)
  | serverWriteByName (name : String) (size : UInt32)
  | serverWriteInLoop (connection : Option Nat) (size : UInt32)
  | serverWriteInLoopByName (name : String) (size : UInt32)
  | clientWrite (size : UInt32)
  | clientWriteInLoop (size : UInt32)

/-- `rst` is what `uv_write` returns, should the step call it. -/
inductive Event where
  | call (thread : Nat) (entry : Entry) (buf : Nat) (callback : Bool) (rst : Int)
  | complete (request : Nat) (status : Int)
  | runTask (rst : Int)
  | world (world : World)

/-- The event is a call with a callback. -/
def Event.asks : Event → Bool
  | .call _ _ _ callback _ => callback
  | _ => false

namespace State

def new (world : World) : State := ⟨world, [], [], [], [], 0⟩

/-- Run the callback, if there is one. -/
def invoke (self : State) (callback : Option Nat) (info : WriteInfo) : State :=
  match callback with
  | some w => { self with invoked := self.invoked ++ [(w, info)] }
  | none => self

/-- `TcpConnection::write`; the size is cast to an `unsigned int` for libuv, and to an
`unsigned long` for a report of its own. -/
def write (self : State) (c buf : Nat) (size : Int) (callback : Option Nat) (rst : Int) : State :=
  if self.world.connected c then
    if rst = 0 then
      { self with requests := self.requests ++ [⟨buf, (size % 2 ^ 32).toNat, callback⟩] }
    else self.invoke callback ⟨rst, buf, (size % 2 ^ 64).toNat⟩
  else self.invoke callback ⟨disconnected, buf, (size % 2 ^ 64).toNat⟩

/-- The body of the queued lambda, which runs its callback unchecked if the connection is gone;
`none` is the exception of an empty one. -/
def runTask (self : State) (task : WriteTask) (rst : Int) : Option State :=
  if self.world.alive task.connection then
    some (self.write task.connection task.buf task.size task.callback rst)
  else
    match task.callback with
    | some w => some (self.invoke (some w) ⟨disconnected, task.buf, (task.size % 2 ^ 64).toNat⟩)
    | none => none

/-- `EventLoop::run_in_this_loop`. -/
def runInThisLoop (self : State) (thread : Nat) (task : WriteTask) (rst : Int) : Option State :=
  if self.world.status = .started ∧ self.world.loopThreadId = some thread ∨
      self.world.status = .stopped then
    self.runTask task rst
  else some { self with tasks := self.tasks ++ [task] }

/-- `TcpConnection::write_in_loop`. -/
def writeInLoop (self : State) (thread c buf : Nat) (size : Int) (callback : Option Nat)
    (rst : Int) : Option State :=
  self.runInThisLoop thread ⟨c, buf, size, callback⟩ rst

def getConnection (self : State) (name : String) : Option Nat :=
  self.world.connnections.lookup name

/-- `TcpServer::write` and, through its connection, `TcpClient::write`. -/
def ownerWrite (self : State) (connection : Option Nat) (buf : Nat) (size : UInt32)
    (callback : Option Nat) (rst : Int) : State :=
  match connection with
  | some c => self.write c buf size.toNat callback rst
  | none => self.invoke callback ⟨disconnected, buf, size.toNat⟩

/-- `TcpServer::write_in_loop` and, through its connection, `TcpClient::write_in_loop`. -/
def ownerWriteInLoop (self : State) (thread : Nat) (connection : Option Nat) (buf : Nat)
    (size : UInt32) (callback : Option Nat) (rst : Int) : Option State :=
  match connection with
  | some c => self.writeInLoop thread c buf size.toNat callback rst
  | none => some (self.invoke callback ⟨disconnected, buf, size.toNat⟩)

def enter (self : State) (thread buf : Nat) (callback : Option Nat) (rst : Int) :
    Entry → Option State
  | .connectionWrite c size => some (self.write c buf size callback rst)
  | .connectionWriteInLoop c size => self.writeInLoop thread c buf size callback rst
  | .serverWrite connection size => some (self.ownerWrite connection buf size callback rst)
  | .serverWriteByName name size =>
    some (self.ownerWrite (self.getConnection name) buf size callback rst)
  | .serverWriteInLoop connection size =>
    self.ownerWriteInLoop thread connection buf size callback rst
  | .serverWriteInLoopByName name size =>
    self.ownerWriteInLoop thread (self.getConnection name) buf size callback rst
  | .clientWrite size => some (self.ownerWrite self.world.connection_ buf size callback rst)
  | .clientWriteInLoop size =>
    self.ownerWriteInLoop thread self.world.connection_ buf size callback rst

/-- The callback of `uv_write`. -/
def afterWrite (self : State) (request : WriteReq) (status : Int) : State :=
  { self with completed := self.completed ++ request.callback.toList.map (·, status) }.invoke
    request.callback ⟨status, request.buf, request.len⟩

/-- A call with a callback is numbered, requests complete in any order, tasks run in theirs. -/
def step : Step State Event := fun self event =>
  match event with
  | .call thread entry buf true rst =>
    { self with issued := self.issued + 1 }.enter thread buf (some self.issued) rst entry
  | .call thread entry buf false rst => self.enter thread buf none rst entry
  | .complete i status =>
    match self.requests[i]? with
    | some request =>
      some ({ self with requests := self.requests.eraseIdx i }.afterWrite request status)
    | none => none
  | .runTask rst =>
    match self.tasks with
    | task :: tasks => { self with tasks := tasks }.runTask task rst
    | [] => none
  | .world world => some { self with world := world }

/-- The write with a callback that libuv completes with an event. -/
def completions (self : State) : Event → List (Nat × Int)
  | .complete i status => (self.requests[i]?.bind WriteReq.callback).toList.map (·, status)
  | _ => []

/-- How often the callback of a call has run, and in how many requests and tasks it waits. -/
def reports (self : State) (w : Nat) : Nat := self.invoked.countP (·.1 = w)

def outstanding (self : State) (w : Nat) : Nat := self.requests.countP (·.callback = some w)

def queued (self : State) (w : Nat) : Nat := self.tasks.countP (·.callback = some w)

/-- All of these: what is done and still to be done about a call. -/
def owed (self : State) (w : Nat) : Nat := self.reports w + self.outstanding w + self.queued w

/-- Success is reported only of writes libuv has completed with status 0. -/
def Honest (self : State) : Prop :=
  ∀ w info, (w, info) ∈ self.invoked → info.status = 0 → (w, 0) ∈ self.completed

/-- A step that deals with one call, in one of the three ways and truthfully. -/
structure Deals (s : State) (callback : Option Nat) (t : State) : Prop where
  owed : ∀ w, t.owed w = s.owed w + if callback = some w then 1 else 0
  issued : t.issued = s.issued
  completed : t.completed = s.completed
  honest : s.Honest → t.Honest

theorem countP_append_one {β : Type*} (l : List β) (p : β → Bool) (x : β) :
    (l ++ [x]).countP p = l.countP p + if p x then 1 else 0 := by
  rw [List.countP_append, List.countP_singleton]

theorem deals_invoke (s : State) (callback : Option Nat) {info : WriteInfo}
    (h : info.status ≠ 0) : s.Deals callback (s.invoke callback info) := by
  cases callback with
  | none => exact ⟨fun w => by simp [invoke], rfl, rfl, id⟩
  | some v =>
    refine ⟨fun w => ?_, rfl, rfl, fun hs w info' hm h0 => ?_⟩
    · show (s.invoked ++ [(v, info)]).countP _ + s.outstanding w + s.queued w = _
      rw [countP_append_one, owed, reports]
      simp only [decide_eq_true_eq, Option.some.injEq]
      omega
    · rcases List.mem_append.mp hm with hm | hm
      · exact hs w info' hm h0
      · cases List.mem_singleton.mp hm
        exact absurd h0 h

/-- `TcpConnection::write`: accepted by libuv, refused by it, or not even tried. -/
theorem deals_write (s : State) (c buf : Nat) (size : Int) (callback : Option Nat) (rst : Int) :
    s.Deals callback (s.write c buf size callback rst) := by
  unfold write
  split
  · split
    · refine ⟨fun w => ?_, rfl, rfl, id⟩
      show s.reports w + (s.requests ++ [_]).countP _ + s.queued w = _
      rw [countP_append_one, owed, outstanding]
      simp only [decide_eq_true_eq]
      omega
    · rename_i hrst
      exact s.deals_invoke callback hrst
  · apply s.deals_invoke callback
    exact Int.noConfusion

theorem deals_runTask {s t : State} {task : WriteTask} {rst : Int}
    (h : s.runTask task rst = some t) : s.Deals task.callback t := by
  unfold runTask at h
  split at h
  · cases h
    exact s.deals_write ..
  · split at h
    · rename_i w hw
      cases h
      rw [hw]
      apply s.deals_invoke
      exact Int.noConfusion
    · cases h

/-- The queue counts for the call until its task runs. -/
theorem deals_runInThisLoop {s t : State} {thread : Nat} {task : WriteTask} {rst : Int}
    (h : s.runInThisLoop thread task rst = some t) : s.Deals task.callback t := by
  unfold runInThisLoop at h
  split at h
  · exact deals_runTask h
  · cases h
    refine ⟨fun w => ?_, rfl, rfl, id⟩
    show s.reports w + s.outstanding w + (s.tasks ++ [task]).countP _ = _
    rw [countP_append_one, owed, queued]
    simp only [decide_eq_true_eq]
    omega

theorem deals_ownerWrite (s : State) (connection : Option Nat) (buf : Nat) (size : UInt32)
    (callback : Option Nat) (rst : Int) :
    s.Deals callback (s.ownerWrite connection buf size callback rst) := by
  cases connection with
  | some c => exact s.deals_write ..
  | none =>
    apply s.deals_invoke callback
    exact Int.noConfusion

theorem deals_ownerWriteInLoop {s t : State} {thread : Nat} {connection : Option Nat} {buf : Nat}
    {size : UInt32} {callback : Option Nat} {rst : Int}
    (h : s.ownerWriteInLoop thread connection buf size callback rst = some t) :
    s.Deals callback t := by
  cases connection with
  | some c => exact deals_runInThisLoop h
  | none =>
    cases h
    apply s.deals_invoke callback
    exact Int.noConfusion

/-- Every entry point. -/
theorem deals_enter {s t : State} {thread buf : Nat} {callback : Option Nat} {rst : Int}
    {entry : Entry} (h : s.enter thread buf callback rst entry = some t) : s.Deals callback t := by
  cases entry with
  | connectionWrite c size =>
    cases h
    exact s.deals_write ..
  | connectionWriteInLoop c size => exact deals_runInThisLoop h
  | serverWrite connection size =>
    cases h
    exact s.deals_ownerWrite ..
  | serverWriteByName name size =>
    cases h
    exact s.deals_ownerWrite ..
  | serverWriteInLoop connection size => exact deals_ownerWriteInLoop h
  | serverWriteInLoopByName name size => exact deals_ownerWriteInLoop h
  | clientWrite size =>
    cases h
    exact s.deals_ownerWrite ..
  | clientWriteInLoop size => exact deals_ownerWriteInLoop h

/-- What libuv has completed is reported, with its status. -/
theorem afterWrite_owed (s : State) (request : WriteReq) (status : Int) (w : Nat) :
    (s.afterWrite request status).owed w =
      s.owed w + if request.callback = some w then 1 else 0 := by
  rcases hcb : request.callback with _ | v
  · simp [afterWrite, hcb, invoke, owed, reports, outstanding, queued]
  · have hrun : s.afterWrite request status = { s with
        completed := s.completed ++ [(v, status)],
        invoked := s.invoked ++ [(v, ⟨status, request.buf, request.len⟩)] } := by
      simp [afterWrite, hcb, invoke]
    rw [hrun]
    show (s.invoked ++ [_]).countP _ + s.outstanding w + s.queued w = _
    rw [countP_append_one, owed, reports]
    simp only [decide_eq_true_eq, Option.some.injEq]
    omega

theorem afterWrite_honest {s : State} (h : s.Honest) (request : WriteReq) (status : Int) :
    (s.afterWrite request status).Honest := by
  rcases hcb : request.callback with _ | v
  · have hrun : s.afterWrite request status = s := by simp [afterWrite, hcb, invoke]
    rwa [hrun]
  · have hrun : s.afterWrite request status = { s with
        completed := s.completed ++ [(v, status)],
        invoked := s.invoked ++ [(v, ⟨status, request.buf, request.len⟩)] } := by
      simp [afterWrite, hcb, invoke]
    rw [hrun]
    intro w info hm h0
    rcases List.mem_append.mp hm with hm | hm
    · exact List.mem_append_left _ (h w info hm h0)
    · cases List.mem_singleton.mp hm
      have hstatus : status = 0 := h0
      rw [hstatus]
      exact List.mem_append_right _ (List.mem_singleton.mpr rfl)

theorem afterWrite_logs (s : State) (request : WriteReq) (status : Int) :
    (s.afterWrite request status).issued = s.issued ∧
      (s.afterWrite request status).completed =
        s.completed ++ request.callback.toList.map (·, status) := by
  unfold afterWrite invoke
  split
  · exact ⟨rfl, rfl⟩
  · exact ⟨rfl, rfl⟩

/-- What a step adds to the count of the calls and to the writes completed. -/
theorem step_logs {s t : State} {event : Event} (ht : step s event = some t) :
    t.issued = s.issued + (if event.asks then 1 else 0) ∧
      t.completed = s.completed ++ s.completions event := by
  cases event with
  | call thread entry buf callback rst =>
    cases callback with
    | false => exact ⟨(deals_enter ht).issued, (deals_enter ht).completed.trans (List.append_nil _).symm⟩
    | true => exact ⟨(deals_enter ht).issued, (deals_enter ht).completed.trans (List.append_nil _).symm⟩
  | complete i status =>
    simp only [step] at ht
    split at ht
    · rename_i request hi
      cases ht
      rw [completions, hi]
      exact afterWrite_logs _ request status
    · cases ht
  | runTask rst =>
    simp only [step] at ht
    split at ht
    · have hd := deals_runTask ht
      exact ⟨hd.issued, hd.completed.trans (List.append_nil _).symm⟩
    · cases ht
  | world world =>
    cases ht
    exact ⟨rfl, (List.append_nil _).symm⟩

theorem run_logs {s t : State} {events : List Event} (ht : step.run s events = some t) :
    t.issued = s.issued + events.countP Event.asks ∧
      t.completed = s.completed ++ step.trace completions s events := by
  induction events generalizing s with
  | nil =>
    cases ht
    exact ⟨rfl, (List.append_nil _).symm⟩
  | cons event events ih =>
    obtain ⟨u, hu, ht⟩ := Step.run_cons_eq_some.mp ht
    obtain ⟨hissued, hcompleted⟩ := step_logs hu
    obtain ⟨hissued', hcompleted'⟩ := ih ht
    constructor
    · rw [hissued', hissued, List.countP_cons]
      omega
    · rw [hcompleted', hcompleted, Step.trace_cons hu, List.append_assoc]

/-- Each call made so far counts once, and no other does. -/
structure Conserved (s : State) : Prop where
  owed : ∀ w, s.owed w = if w < s.issued then 1 else 0
  honest : s.Honest

theorem conserved_new (world : World) : Conserved (new world) :=
  ⟨fun _ => rfl, fun _ _ hm => absurd hm List.not_mem_nil⟩

theorem Deals.conserved {s t : State} (h : s.Deals none t) (hs : s.Conserved) : t.Conserved := by
  refine ⟨fun w => ?_, h.honest hs.honest⟩
  rw [h.owed, h.issued, hs.owed]
  simp

theorem conserved_step {s t : State} (hs : s.Conserved) {event : Event}
    (ht : step s event = some t) : t.Conserved := by
  cases event with
  | call thread entry buf callback rst =>
    cases callback with
    | false => exact (deals_enter ht).conserved hs
    | true =>
      have hd := deals_enter ht
      refine ⟨fun w => ?_, hd.honest hs.honest⟩
      have howed : ({ s with issued := s.issued + 1 } : State).owed w = s.owed w := rfl
      rw [hd.owed, hd.issued, howed, hs.owed]
      simp only [Option.some.injEq]
      split <;> split <;> split <;> omega
  | complete i status =>
    simp only [step] at ht
    split at ht
    · rename_i request hi
      cases ht
      obtain ⟨hlt, hget⟩ := List.getElem?_eq_some_iff.mp hi
      have hhonest : ({ s with requests := s.requests.eraseIdx i } : State).Honest := hs.honest
      refine ⟨fun w => ?_, afterWrite_honest hhonest request status⟩
      have hperm := (List.getElem_cons_eraseIdx_perm hlt).countP_eq
        (fun request => decide (request.callback = some w))
      rw [hget, List.countP_cons] at hperm
      simp only [decide_eq_true_eq] at hperm
      rw [(afterWrite_logs _ request status).1, afterWrite_owed, ← hs.owed w]
      show s.reports w + (s.requests.eraseIdx i).countP _ + s.queued w + _ = _
      rw [owed, outstanding, ← hperm]
      omega
    · cases ht
  | runTask rst =>
    simp only [step] at ht
    split at ht
    · rename_i task tasks htasks
      have hd := deals_runTask ht
      refine ⟨fun w => ?_, hd.honest hs.honest⟩
      rw [hd.owed, hd.issued, ← hs.owed w]
      show s.reports w + s.outstanding w + tasks.countP _ + _ = _
      rw [owed, queued, htasks, List.countP_cons]
      simp only [decide_eq_true_eq]
      omega
    · cases ht
  | world world =>
    cases ht
    exact ⟨hs.owed, hs.honest⟩

end State
open State

/-- In every state of every run, of all the calls made with a callback each has been reported, or one
request or task waits for it, and it is told success only of a write that libuv has completed with
status 0. -/
theorem reported_once (world : World) (events : List Event) {s : State}
    (hr : step.run (.new world) events = some s) :
    s.issued = events.countP Event.asks ∧
    s.completed = step.trace completions (.new world) events ∧
    (∀ w < s.issued, s.reports w + s.outstanding w + s.queued w = 1) ∧
    ∀ w info, (w, info) ∈ s.invoked → info.status = 0 → (w, 0) ∈ s.completed := by
  have hs : s.Conserved :=
    Step.run_invariant (fun _ _ _ hs ht => conserved_step hs ht) (conserved_new world) hr
  obtain ⟨hissued, hcompleted⟩ := run_logs hr
  refine ⟨hissued.trans (Nat.zero_add _), hcompleted, fun w hw => ?_, hs.honest⟩
  exact (hs.owed w).trans (if_pos hw)

/-- One connection that is up, and a loop that runs. -/
def oneConnection : World :=
  ⟨AList.insert "10.0.0.1:4000" 0 ∅, none, fun _ => true, fun _ => true, .started, some 7⟩

/-- One write by name that libuv completes, and one through the queue that it refuses. -/
theorem reported_once_two : ∃ s, step.run (.new oneConnection)
      [.call 7 (.serverWriteByName "10.0.0.1:4000" 5) 100 true 0,
        .call 3 (.connectionWriteInLoop 0 5) 200 true 0, .complete 0 0, .runTask (-32)] = some s ∧
    s.issued = 2 ∧ s.completed = [(0, 0)] ∧
    s.invoked = [(0, ⟨0, 100, 5⟩), (1, ⟨-32, 200, 5⟩)] ∧
    (∀ w < 2, s.reports w + s.outstanding w + s.queued w = 1) ∧
    ∀ w info, (w, info) ∈ s.invoked → info.status = 0 → (w, 0) ∈ s.completed := by
  obtain ⟨hissued, hcompleted, honce, hhonest⟩ := reported_once oneConnection
    [.call 7 (.serverWriteByName "10.0.0.1:4000" 5) 100 true 0,
      .call 3 (.connectionWriteInLoop 0 5) 200 true 0, .complete 0 0, .runTask (-32)] rfl
  exact ⟨_, rfl, hissued, hcompleted, rfl, honce, hhonest⟩

end AeProxy.Write
