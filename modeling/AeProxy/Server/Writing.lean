import AeProxy.Server.Callbacks

/-! As to the writes, a run of all the classes together is a run of `Write`: the calls that have a
callback are numbered, and every report to a number is one to the callback of that call. -/
namespace AeProxy.Write
open Lib

/-- What the paths of a write test is the same. -/
structure World.Alike (world world' : World) : Prop where
  connected : world.connected = world'.connected
  alive : world.alive = world'.alive
  status : world.status = world'.status
  loopThreadId : world.loopThreadId = world'.loopThreadId

namespace State

/-- The same in another world, where callback `w` is `f w`, and without the count of calls. -/
def renamed (self : State) (f : Nat → Nat) (world : World) : State where
  world := world
  requests := self.requests.map fun request => { request with callback := request.callback.map f }
  tasks := self.tasks.map fun task => { task with callback := task.callback.map f }
  invoked := self.invoked.map fun report => (f report.1, report.2)
  completed := self.completed.map fun completion => (f completion.1, completion.2)
  issued := 0

variable {s : State} {f : Nat → Nat} {world : World}

theorem renamed_invoke (callback : Option Nat) (info : WriteInfo) :
    (s.renamed f world).invoke (callback.map f) info = (s.invoke callback info).renamed f world := by
  cases callback with
  | none => rfl
  | some w => simp only [Option.map_some, invoke, renamed, List.map_append, List.map_cons, List.map_nil]

theorem renamed_write (h : world.Alike s.world) (c buf : Nat) (size : Int) (callback : Option Nat)
    (rst : Int) : (s.renamed f world).write c buf size (callback.map f) rst =
      (s.write c buf size callback rst).renamed f world := by
  have hconnected : (s.renamed f world).world.connected c = s.world.connected c := by
    rw [← h.connected]
    rfl
  simp only [write, hconnected, renamed_invoke]
  split
  next =>
    split
    next => simp only [renamed, List.map_append, List.map_cons, List.map_nil]
    next => rfl
  next => rfl

theorem renamed_runTask (h : world.Alike s.world) (task : WriteTask) (rst : Int) :
    (s.renamed f world).runTask { task with callback := task.callback.map f } rst =
      (s.runTask task rst).map (·.renamed f world) := by
  have halive : (s.renamed f world).world.alive task.connection = s.world.alive task.connection := by
    rw [← h.alive]
    rfl
  simp only [runTask, halive, renamed_write h]
  split
  next => rfl
  next =>
    cases task.callback with
    | none => rfl
    | some w => exact congrArg some (renamed_invoke (some w) _)

theorem renamed_writeInLoop (h : world.Alike s.world) (thread c buf : Nat) (size : Int)
    (callback : Option Nat) (rst : Int) :
    (s.renamed f world).writeInLoop thread c buf size (callback.map f) rst =
      (s.writeInLoop thread c buf size callback rst).map (·.renamed f world) := by
  have hhere : ((s.renamed f world).world.status = .started ∧
      (s.renamed f world).world.loopThreadId = some thread ∨
      (s.renamed f world).world.status = .stopped) = (s.world.status = .started ∧
      s.world.loopThreadId = some thread ∨ s.world.status = .stopped) := by
    rw [← h.status, ← h.loopThreadId]
    rfl
  simp only [writeInLoop, runInThisLoop, hhere]
  split
  next => exact renamed_runTask h ⟨c, buf, size, callback⟩ rst
  next => simp only [renamed, Option.map_some, List.map_append, List.map_cons, List.map_nil]

theorem renamed_ownerWrite (h : world.Alike s.world) (connection : Option Nat) (buf : Nat)
    (size : UInt32) (callback : Option Nat) (rst : Int) :
    (s.renamed f world).ownerWrite connection buf size (callback.map f) rst =
      (s.ownerWrite connection buf size callback rst).renamed f world := by
  cases connection with
  | none => exact renamed_invoke callback _
  | some c => exact renamed_write h c buf _ callback rst

theorem renamed_ownerWriteInLoop (h : world.Alike s.world) (thread : Nat)
    (connection : Option Nat) (buf : Nat) (size : UInt32) (callback : Option Nat) (rst : Int) :
    (s.renamed f world).ownerWriteInLoop thread connection buf size (callback.map f) rst =
      (s.ownerWriteInLoop thread connection buf size callback rst).map (·.renamed f world) := by
  cases connection with
  | none => exact congrArg some (renamed_invoke callback _)
  | some c => exact renamed_writeInLoop h thread c buf _ callback rst

theorem renamed_afterWrite (request : WriteReq) (status : Int) :
    (s.renamed f world).afterWrite { request with callback := request.callback.map f } status =
      (s.afterWrite request status).renamed f world := by
  rcases request with ⟨buf, len, _ | w⟩ <;>
    simp [afterWrite, invoke, renamed]

/-- A call with a callback named `f issued` takes the step of one that is numbered. -/
theorem call_renamed (s : State) (call : Callbacks.WriteCall)
    (hf : ∀ k, call.callback = some k → f s.issued = k) (entry : Entry) :
    ∃ (s' : State) (callback : Option Nat), callback.map f = call.callback ∧
      step s (.call call.thread entry call.buf call.callback.isSome call.rst) =
        s'.enter call.thread call.buf callback call.rst entry ∧
      s'.world = s.world ∧ ∀ world, s'.renamed f world = s.renamed f world := by
  rcases hcallback : call.callback with _ | k
  · exact ⟨s, none, rfl, rfl, rfl, fun _ => rfl⟩
  · refine ⟨{ s with issued := s.issued + 1 }, some s.issued, ?_, rfl, rfl, fun _ => rfl⟩
    exact congrArg some (hf k hcallback)

end State
end AeProxy.Write

namespace AeProxy.Callbacks.World
open Lib

/-- What the paths of a write test, with the map of a server or the connection of a client. -/
def seen (self : World) (connnections : AList fun _ : String => Nat) (connection_ : Option Nat) :
    Write.World :=
  { self.view.world with connnections := connnections, connection_ := connection_ }

/-- The write an event calls, if its connection still exists. -/
def writeCall (self : World) : Event → Option (Write.World × Write.Entry × WriteCall)
  | .server s (.write c size call) =>
    if c.all fun c => (self.connection c).alive then
      some (self.seen (self.server s).connnections_ none, .serverWrite c size, call)
    else none
  | .server s (.writeByName name size call) =>
    if (self.getConnection s name).all fun c => (self.connection c).alive then
      some (self.seen (self.server s).connnections_ none, .serverWriteByName name size, call)
    else none
  | .server s (.writeInLoop c size call) =>
    if c.all fun c => (self.connection c).alive then
      some (self.seen (self.server s).connnections_ none, .serverWriteInLoop c size, call)
    else none
  | .server s (.writeInLoopByName name size call) =>
    if (self.getConnection s name).all fun c => (self.connection c).alive then
      some (self.seen (self.server s).connnections_ none, .serverWriteInLoopByName name size, call)
    else none
  | .client k (.write size call) =>
    if (self.client k).connection_.all fun c => (self.connection c).alive then
      some (self.seen ∅ (self.client k).connection_, .clientWrite size, call)
    else none
  | .client k (.writeInLoop size call) =>
    if (self.client k).connection_.all fun c => (self.connection c).alive then
      some (self.seen ∅ (self.client k).connection_, .clientWriteInLoop size, call)
    else none
  | .connection c (.write size call) =>
    if (self.connection c).alive then
      some (self.seen ∅ none, .connectionWrite c size, call)
    else none
  | .connection c (.writeInLoop size call) =>
    if (self.connection c).alive then
      some (self.seen ∅ none, .connectionWriteInLoop c size, call)
    else none
  | _ => none

/-- The completion of a write, and the run of a task. -/
def served (self : World) : Event → List Write.Event
  | .writeDone i status => if i < self.writes.requests.length then [.complete i status] else []
  | .runTask rst => if self.writes.tasks = [] then [] else [.world (self.seen ∅ none), .runTask rst]
  | _ => []

/-- What an event is to the writes. -/
def writing (self : World) (event : Event) : List Write.Event :=
  match self.writeCall event with
  | some (world, entry, call) =>
    [.world world, .call call.thread entry call.buf call.callback.isSome call.rst]
  | none => self.served event

/-- The callback of the write an event calls. -/
def asked (self : World) (event : Event) : List Nat :=
  match self.writeCall event with
  | some (_, _, call) => call.callback.toList
  | none => []

theorem seen_alike (self : World) (connnections : AList fun _ : String => Nat)
    (connection_ : Option Nat) : self.view.world.Alike (self.seen connnections connection_) :=
  ⟨rfl, rfl, rfl, rfl⟩

section simulation
variable {self : World} {s : Write.State} {f : Nat → Nat}

theorem view_renamed (h : self.writes = s.renamed f self.writes.world) (world : Write.World) :
    self.view = { s with world := world }.renamed f self.view.world := by
  rw [view, h]
  rfl

theorem ownerWrite_renamed (hview : self.view = s.renamed f self.view.world)
    (hworld : self.view.world.Alike s.world) {c : Option Nat}
    (hc : c.all (fun c => (self.connection c).alive) = true) (size : UInt32) {call : WriteCall}
    {callback : Option Nat} (hcallback : callback.map f = call.callback) :
    self.ownerWrite c size call = some (self.setWrites
      ((s.ownerWrite c call.buf size callback call.rst).renamed f self.view.world)) := by
  rw [← Write.State.renamed_ownerWrite hworld, hcallback, ← hview]
  exact if_pos hc

theorem ownerWriteInLoop_renamed (hview : self.view = s.renamed f self.view.world)
    (hworld : self.view.world.Alike s.world) {c : Option Nat}
    (hc : c.all (fun c => (self.connection c).alive) = true) (size : UInt32) {call : WriteCall}
    {callback : Option Nat} (hcallback : callback.map f = call.callback) :
    self.ownerWriteInLoop c size call =
      (s.ownerWriteInLoop call.thread c call.buf size callback call.rst).map
        fun t => self.setWrites (t.renamed f self.view.world) := by
  have hrenamed := Write.State.renamed_ownerWriteInLoop hworld call.thread c call.buf size callback
    call.rst (f := f)
  rw [hcallback, ← hview] at hrenamed
  rw [ownerWriteInLoop, if_pos hc, hrenamed, Option.map_map]
  rfl

/-- A call of a write is the numbered one. -/
theorem step_writeCall {event : Event} {world : Write.World} {entry : Write.Entry} {call : WriteCall}
    (h : self.writes = s.renamed f self.writes.world)
    (hcall : self.writeCall event = some (world, entry, call))
    (hf : ∀ k, call.callback = some k → f s.issued = k) :
    step self event = (Write.State.step { s with world := world }
      (.call call.thread entry call.buf call.callback.isSome call.rst)).map
        fun t => self.setWrites (t.renamed f self.view.world) := by
  obtain ⟨s', callback, hcallback, hstep, hworld, hsame⟩ :=
    Write.State.call_renamed { s with world := world } call hf entry
  have hview : self.view = s'.renamed f self.view.world := by
    rw [hsame]
    exact view_renamed h world
  rw [hstep]
  cases event with
  | server k event =>
    cases event with
    | write c size call' =>
      obtain ⟨halive, heq⟩ := Option.ite_none_right_eq_some.mp hcall
      cases heq
      exact ownerWrite_renamed hview (hworld ▸ self.seen_alike _ _) halive size hcallback
    | writeByName name size call' =>
      obtain ⟨halive, heq⟩ := Option.ite_none_right_eq_some.mp hcall
      cases heq
      have hname : s'.getConnection name = self.getConnection k name := by
        rw [Write.State.getConnection, hworld]
        rfl
      rw [Write.State.enter, hname]
      exact ownerWrite_renamed hview (hworld ▸ self.seen_alike _ _) halive size hcallback
    | writeInLoop c size call' =>
      obtain ⟨halive, heq⟩ := Option.ite_none_right_eq_some.mp hcall
      cases heq
      exact ownerWriteInLoop_renamed hview (hworld ▸ self.seen_alike _ _) halive size hcallback
    | writeInLoopByName name size call' =>
      obtain ⟨halive, heq⟩ := Option.ite_none_right_eq_some.mp hcall
      cases heq
      have hname : s'.getConnection name = self.getConnection k name := by
        rw [Write.State.getConnection, hworld]
        rfl
      rw [Write.State.enter, hname]
      exact ownerWriteInLoop_renamed hview (hworld ▸ self.seen_alike _ _) halive size hcallback
    | _ => cases hcall
  | client k event =>
    cases event with
    | write size call' =>
      obtain ⟨halive, heq⟩ := Option.ite_none_right_eq_some.mp hcall
      cases heq
      rw [Write.State.enter, hworld]
      exact ownerWrite_renamed hview (hworld ▸ self.seen_alike _ _) halive size hcallback
    | writeInLoop size call' =>
      obtain ⟨halive, heq⟩ := Option.ite_none_right_eq_some.mp hcall
      cases heq
      rw [Write.State.enter, hworld]
      exact ownerWriteInLoop_renamed hview (hworld ▸ self.seen_alike _ _) halive size hcallback
    | _ => cases hcall
  | connection c event =>
    cases event with
    | write size call' =>
      obtain ⟨halive, heq⟩ := Option.ite_none_right_eq_some.mp hcall
      cases heq
      have hwrite := Write.State.renamed_write (f := f) (hworld ▸ self.seen_alike ∅ none :
        self.view.world.Alike s'.world) c call.buf size callback call.rst
      rw [hcallback, ← hview] at hwrite
      refine (if_pos halive).trans ?_
      rw [connectionStep, hwrite]
      rfl
    | writeInLoop size call' =>
      obtain ⟨halive, heq⟩ := Option.ite_none_right_eq_some.mp hcall
      cases heq
      have hwrite := Write.State.renamed_writeInLoop (f := f) (hworld ▸ self.seen_alike ∅ none :
        self.view.world.Alike s'.world) call.thread c call.buf size callback call.rst
      rw [hcallback, ← hview] at hwrite
      refine (if_pos halive).trans ?_
      rw [connectionStep, hwrite, Option.map_map]
      rfl
    | _ => cases hcall
  | _ => cases hcall

end simulation
section frame
variable {self : World} {writes : Write.State}

/-- The writes behind a step, if it throws nothing. -/
def Keeps (writes : Write.State) (next : Option World) : Prop :=
  ∀ v, next = some v → v.writes = writes

theorem keeps_some {v : World} (h : v.writes = writes) : Keeps writes (some v) := by
  rintro _ ⟨⟩
  exact h

theorem keeps_call (h : self.writes = writes) (callback : Option Nat) :
    Keeps writes (self.call callback) := by
  cases callback with
  | none => exact nofun
  | some callback => exact keeps_some h

theorem keeps_ifSet {κ : Type} (h : self.writes = writes) {call : Option κ → Option World}
    (hcall : ∀ callback, Keeps writes (call callback)) (callback : Option κ) :
    Keeps writes (self.ifSet callback call) := by
  cases callback with
  | none => exact keeps_some h
  | some callback => exact hcall (some callback)

theorem keeps_complete {κ : Type} (h : self.writes = writes) {call : Option κ → Option World}
    (hcall : ∀ callback, Keeps writes (call callback)) (effect : CloseEffect κ) :
    Keeps writes (self.complete effect call) := by
  cases effect with
  | uvClose => exact keeps_some h
  | complete callback => exact keeps_ifSet h hcall callback

theorem keeps_connectionClosed (h : self.writes = writes) (s : Nat) (name : String) :
    Keeps writes (self.connectionClosed s name) := by
  unfold connectionClosed
  split
  next =>
    intro v hv
    obtain ⟨u, hu, rfl⟩ := Option.map_eq_some_iff.mp hv
    exact keeps_ifSet h (keeps_call h) _ u hu
  next => exact keeps_some h

theorem keeps_runConnectCallback (h : self.writes = writes) (k : Nat) :
    Keeps writes (self.runConnectCallback k) :=
  keeps_ifSet h (keeps_call h) _

theorem keeps_closeComplete (h : self.writes = writes) (c : Nat) :
    Keeps writes (self.closeComplete c) := by
  refine keeps_ifSet h (fun callback => ?_) _
  rcases callback with _ | callback | s | k | callback
  · exact nofun
  · exact keeps_some h
  · exact keeps_connectionClosed h s _
  · exact keeps_runConnectCallback h k
  · exact keeps_ifSet h (keeps_call h) callback

theorem keeps_closeHandle (h : self.writes = writes) (c : Nat)
    (callback : Option ConnectionClosed) : Keeps writes (self.closeHandle c callback) := by
  unfold closeHandle
  dsimp only
  split
  next => exact keeps_some h
  next =>
    apply keeps_closeComplete
    exact h

theorem keeps_closeConnection (h : self.writes = writes) (s : Nat) (name : String) :
    Keeps writes (self.closeConnection s name) := by
  unfold closeConnection
  split
  next c _ => exact keeps_closeHandle h c _
  next => exact keeps_some h

theorem keeps_onSocketClose (h : self.writes = writes) (c : Nat) :
    Keeps writes (self.onSocketClose c) := by
  refine keeps_ifSet h (fun callback => ?_) _
  rcases callback with _ | callback | s | k
  · exact nofun
  · exact keeps_some h
  · exact keeps_closeConnection h s _
  · simp only [callConnectClose, onConnectClose]
    split
    next c _ => exact keeps_closeHandle h c _
    next => exact keeps_some h

theorem keeps_foldlM {α : Type} {f : World → α → Option World}
    (hf : ∀ u a, u.writes = writes → Keeps writes (f u a)) (h : self.writes = writes)
    (l : List α) : Keeps writes (l.foldlM f self) := by
  induction l generalizing self with
  | nil => exact keeps_some h
  | cons a l ih =>
    intro v hv
    rw [List.foldlM_cons] at hv
    obtain ⟨u, hu, hv⟩ := Option.bind_eq_some_iff.mp hv
    exact ih (hf self a h u hu) v hv

theorem keeps_callAcceptorClosed (h : self.writes = writes) (callback : Option AcceptorClosed) :
    Keeps writes (self.callAcceptorClosed callback) := by
  rcases callback with _ | callback | ⟨s, callback⟩
  · exact nofun
  · exact keeps_some h
  · intro v hv
    obtain ⟨u, hu, hv⟩ := Option.bind_eq_some_iff.mp hv
    exact keeps_call (keeps_foldlM (fun w entry hw => keeps_onSocketClose hw entry.2) h _ u hu) _ v hv

theorem keeps_closeAcceptor (h : self.writes = writes) (a : Nat)
    (callback : Option AcceptorClosed) : Keeps writes (self.closeAcceptor a callback) := by
  apply keeps_complete
  · exact h
  · apply keeps_callAcceptorClosed
    exact h

theorem keeps_onMesageReceive (h : self.writes = writes) (c : Nat) (input : TcpServer.Input) :
    Keeps writes (self.onMesageReceive c input) := by
  cases input with
  | data =>
    refine keeps_ifSet h (fun callback => ?_) _
    rcases callback with _ | callback | s | k
    · exact nofun
    · exact keeps_some h
    · exact keeps_ifSet h (keeps_call h) _
    · exact keeps_ifSet h (keeps_call h) _
  | error =>
    apply keeps_onSocketClose
    exact h
  | eof accepted => exact keeps_some h

theorem keeps_onNewConnect (h : self.writes = writes) (a : Nat) (name : String) :
    Keeps writes (self.onNewConnect a name) := by
  refine keeps_ifSet h (fun callback => ?_) _
  rcases callback with _ | callback | s
  · exact nofun
  · exact keeps_some h
  · have hadded : ((self.makeConnection name (some (.server s))).addConnection s name
        self.connections).writes = writes := by
      rw [addConnection]
      split <;> exact h
    exact keeps_ifSet hadded (keeps_call hadded) _

theorem keeps_onConnect (h : self.writes = writes) (k : Nat) (success isClosing : Bool) :
    Keeps writes (self.onConnect k success isClosing) := by
  unfold onConnect
  split
  next =>
    apply keeps_runConnectCallback
    exact h
  next => split <;> exact keeps_some h

theorem keeps_onTimeOut (h : self.writes = writes) (i : TimerName) (expired : List Nat) :
    Keeps writes (self.onTimeOut i expired) := by
  refine keeps_ifSet h (fun callback => ?_) _
  rcases callback with _ | callback | _
  · exact nofun
  · exact keeps_some h
  · refine keeps_foldlM (fun u c hu => ?_) h expired
    unfold expire
    split
    next => exact keeps_onSocketClose hu c
    next => exact keeps_some hu

end frame

section step
variable {self : World}

theorem keeps_ownerWrite {c : Option Nat} (size : UInt32) (call : WriteCall)
    (hgone : ¬ c.all (fun c => (self.connection c).alive) = true) :
    Keeps self.writes (self.ownerWrite c size call) ∧
      Keeps self.writes (self.ownerWriteInLoop c size call) := by
  rw [ownerWrite, ownerWriteInLoop, if_neg hgone, if_neg hgone]
  exact ⟨keeps_some rfl, keeps_some rfl⟩

theorem keeps_serverStep {s : Nat} {event : ServerEvent}
    (hcall : self.writeCall (.server s event) = none) :
    Keeps self.writes (self.serverStep s event) := by
  cases event with
  | close callback =>
    simp only [serverStep, close]
    split
    next a _ => exact keeps_closeAcceptor rfl a _
    next => exact keeps_some rfl
  | closeConnection name => exact keeps_closeConnection rfl s name
  | write c size call =>
    exact (keeps_ownerWrite size call fun ha => nomatch ite_eq_right_iff.mp hcall ha).1
  | writeByName name size call =>
    exact (keeps_ownerWrite size call fun ha => nomatch ite_eq_right_iff.mp hcall ha).1
  | writeInLoop c size call =>
    exact (keeps_ownerWrite size call fun ha => nomatch ite_eq_right_iff.mp hcall ha).2
  | writeInLoopByName name size call =>
    exact (keeps_ownerWrite size call fun ha => nomatch ite_eq_right_iff.mp hcall ha).2
  | _ => exact keeps_some rfl

theorem keeps_clientStep {k : Nat} {event : ClientEvent}
    (hcall : self.writeCall (.client k event) = none) :
    Keeps self.writes (self.clientStep k event) := by
  cases event with
  | connectDone success isClosing =>
    simp only [clientStep]
    split
    next =>
      apply keeps_onConnect
      rfl
    next => exact keeps_some rfl
  | afterConnectFail =>
    simp only [clientStep]
    split
    next =>
      apply keeps_runConnectCallback
      rfl
    next => exact keeps_some rfl
  | close callback =>
    simp only [clientStep, closeClient]
    split
    next c _ => exact keeps_closeHandle rfl c _
    next => exact keeps_ifSet rfl (keeps_call rfl) callback
  | write size call =>
    exact (keeps_ownerWrite size call fun ha => nomatch ite_eq_right_iff.mp hcall ha).1
  | writeInLoop size call =>
    exact (keeps_ownerWrite size call fun ha => nomatch ite_eq_right_iff.mp hcall ha).2
  | _ => exact keeps_some rfl

theorem keeps_connectionStep {c : Nat} {event : ConnectionEvent}
    (ha : (self.connection c).alive = true)
    (hcall : self.writeCall (.connection c event) = none) :
    Keeps self.writes (self.connectionStep c event) := by
  cases event with
  | onSocketClose => exact keeps_onSocketClose rfl c
  | close callback => exact keeps_closeHandle rfl c _
  | write size call => exact nomatch ite_eq_right_iff.mp hcall ha
  | writeInLoop size call => exact nomatch ite_eq_right_iff.mp hcall ha
  | read input =>
    simp only [connectionStep]
    split
    next => exact keeps_onMesageReceive rfl c input
    next => exact keeps_some rfl
  | shutdownDone =>
    simp only [connectionStep]
    split
    next =>
      apply keeps_onSocketClose
      rfl
    next => exact keeps_some rfl
  | closed =>
    simp only [connectionStep]
    split
    next =>
      apply keeps_closeComplete
      rfl
    next => exact keeps_some rfl
  | destroy =>
    simp only [connectionStep]
    split <;> exact keeps_some rfl
  | _ => exact keeps_some rfl

theorem keeps_acceptorStep (a : Nat) (event : AcceptorEvent) :
    Keeps self.writes (self.acceptorStep a event) := by
  cases event with
  | close callback => exact keeps_closeAcceptor rfl a _
  | newConnect name =>
    simp only [acceptorStep]
    split
    next => exact keeps_onNewConnect rfl a name
    next => exact keeps_some rfl
  | closed =>
    simp only [acceptorStep]
    split
    next =>
      apply keeps_ifSet
      · rfl
      · apply keeps_callAcceptorClosed
        rfl
    next => exact keeps_some rfl
  | _ => exact keeps_some rfl

theorem keeps_timerStep (i : TimerName) (event : TimerEvent) :
    Keeps self.writes (self.timerStep i event) := by
  cases event with
  | construct callback => cases i <;> exact keeps_some rfl
  | timeOut expired =>
    simp only [timerStep]
    split
    next => exact keeps_onTimeOut rfl i expired
    next => exact keeps_some rfl
  | close callback =>
    cases i with
    | wheel s => exact keeps_some rfl
    | user i =>
      apply keeps_complete
      · rfl
      · apply keeps_call
        rfl
  | closed =>
    simp only [timerStep]
    split
    next =>
      apply keeps_ifSet
      · rfl
      · apply keeps_call
        rfl
    next => exact keeps_some rfl

theorem keeps_socketStep (u : Nat) (event : SocketEvent) :
    Keeps self.writes (self.socketStep u event) := by
  cases event with
  | setMessageCallback callback => exact keeps_some rfl
  | message =>
    simp only [socketStep]
    split
    next => exact keeps_ifSet rfl (keeps_call rfl) _
    next => exact keeps_some rfl
  | close callback =>
    apply keeps_complete
    · rfl
    · apply keeps_call
      rfl
  | closed =>
    simp only [socketStep]
    split
    next =>
      apply keeps_ifSet
      · rfl
      · apply keeps_call
        rfl
    next => exact keeps_some rfl

end step

section run
variable {self v : World} {s : Write.State} {f : Nat → Nat}

/-- The writes among the classes, `s` being what `Write` has come to. -/
def Numbered (f : Nat → Nat) (self : World) (s : Write.State) : Prop :=
  self.writes = s.renamed f self.writes.world

theorem Numbered.keep (h : Numbered f self s) (hv : v.writes = self.writes) : Numbered f v s := by
  rw [Numbered, hv]
  exact h

theorem Numbered.call {event : Event} {world : Write.World} {entry : Write.Entry} {call : WriteCall}
    (h : Numbered f self s) (hcall : self.writeCall event = some (world, entry, call))
    (hf : ∀ k ∈ self.asked event, f s.issued = k) (hv : step self event = some v) :
    ∃ t, Write.State.step.run s (self.writing event) = some t ∧ Numbered f v t ∧
      t.issued = s.issued + (self.asked event).length := by
  have hwriting : self.writing event = [.world world,
      .call call.thread entry call.buf call.callback.isSome call.rst] := by
    unfold writing
    rw [hcall]
  have hasked : self.asked event = call.callback.toList := by
    unfold asked
    rw [hcall]
  rw [hasked] at hf ⊢
  rw [step_writeCall h hcall fun k hk => hf k (Option.mem_toList.mpr hk)] at hv
  obtain ⟨t, ht, rfl⟩ := Option.map_eq_some_iff.mp hv
  refine ⟨t, ?_, rfl, ?_⟩
  · rw [hwriting]
    exact Step.run_cons_eq_some.mpr ⟨_, rfl, Step.run_cons_eq_some.mpr ⟨t, ht, rfl⟩⟩
  · rw [(Write.State.step_logs ht).1]
    cases call.callback <;> rfl

theorem Numbered.writeDone {i : Nat} {status : Int} (h : Numbered f self s)
    (hv : step self (.writeDone i status) = some v) :
    ∃ t, Write.State.step.run s (self.served (.writeDone i status)) = some t ∧ Numbered f v t ∧
      t.issued = s.issued := by
  have hrequests : self.writes.requests = s.requests.map fun request =>
      { request with callback := request.callback.map f } := congrArg Write.State.requests h
  have hview : self.view.requests = self.writes.requests := rfl
  simp only [step, hview, hrequests, List.getElem?_map] at hv
  simp only [served, hrequests, List.length_map]
  rcases hi : s.requests[i]? with _ | request
  · rw [hi] at hv
    cases hv
    rw [if_neg (Nat.not_lt.mpr (List.getElem?_eq_none_iff.mp hi))]
    exact ⟨s, rfl, h, rfl⟩
  · rw [hi] at hv
    cases hv
    rw [if_pos (List.getElem?_eq_some_iff.mp hi).1]
    refine ⟨{ s with requests := s.requests.eraseIdx i }.afterWrite request status, ?_, ?_,
      (Write.State.afterWrite_logs _ request status).1⟩
    · simp only [Step.run, Write.State.step, hi, Option.bind_some]
    · have herased : { self.view with
          requests := (s.requests.map fun request =>
            { request with callback := request.callback.map f }).eraseIdx i } =
          { s with requests := s.requests.eraseIdx i }.renamed f self.view.world := by
        rw [view_renamed h s.world]
        simp only [Write.State.renamed, List.eraseIdx_map]
      rw [herased, Write.State.renamed_afterWrite]
      rfl

theorem Numbered.runTask {rst : Int} (h : Numbered f self s)
    (hv : step self (.runTask rst) = some v) :
    ∃ t, Write.State.step.run s (self.served (.runTask rst)) = some t ∧ Numbered f v t ∧
      t.issued = s.issued := by
  have htasks : self.writes.tasks = s.tasks.map fun task =>
      { task with callback := task.callback.map f } := congrArg Write.State.tasks h
  have hview : self.view.tasks = self.writes.tasks := rfl
  simp only [step, hview, htasks] at hv
  simp only [served, htasks, List.map_eq_nil_iff]
  rcases hs : s.tasks with _ | ⟨task, tasks⟩
  · rw [hs] at hv
    cases hv
    exact ⟨s, rfl, h, rfl⟩
  · rw [hs] at hv
    have hpopped : { self.view with
        tasks := tasks.map fun task => { task with callback := task.callback.map f } } =
        { s with world := self.seen ∅ none, tasks := tasks }.renamed f self.view.world := by
      rw [view_renamed h (self.seen ∅ none)]
      rfl
    have hrun := Write.State.renamed_runTask (f := f)
      (s := { s with world := self.seen ∅ none, tasks := tasks }) (self.seen_alike ∅ none) task rst
    simp only [List.map_cons] at hv
    rw [hpopped, hrun, Option.map_map] at hv
    obtain ⟨t, ht, rfl⟩ := Option.map_eq_some_iff.mp hv
    refine ⟨t, ?_, rfl, (Write.State.deals_runTask ht).issued⟩
    rw [if_neg (List.cons_ne_nil _ _)]
    refine Step.run_cons_eq_some.mpr ⟨{ s with world := self.seen ∅ none }, rfl, ?_⟩
    refine Step.run_cons_eq_some.mpr ⟨t, ?_, rfl⟩
    simp only [Write.State.step, hs]
    exact ht

theorem Numbered.step {event : Event} (h : Numbered f self s)
    (hf : ∀ k ∈ self.asked event, f s.issued = k) (hv : step self event = some v) :
    ∃ t, Write.State.step.run s (self.writing event) = some t ∧ Numbered f v t ∧
      t.issued = s.issued + (self.asked event).length := by
  rcases hcall : self.writeCall event with _ | ⟨world, entry, call⟩
  · have hwriting : self.writing event = self.served event := by
      unfold writing
      rw [hcall]
    have hasked : self.asked event = [] := by
      unfold asked
      rw [hcall]
    have hkeep (hk : Keeps self.writes (World.step self event))
        (hserved : self.served event = []) :
        ∃ t, Write.State.step.run s (self.served event) = some t ∧ Numbered f v t ∧
          t.issued = s.issued := by
      rw [hserved]
      exact ⟨s, rfl, h.keep (hk v hv), rfl⟩
    rw [hwriting, hasked]
    cases event with
    | writeDone i status => exact h.writeDone hv
    | runTask rst => exact h.runTask hv
    | server s event => exact hkeep (keeps_serverStep hcall) rfl
    | client k event => exact hkeep (keeps_clientStep hcall) rfl
    | connection c event =>
      refine hkeep ?_ rfl
      simp only [World.step]
      split
      next ha => exact keeps_connectionStep ha hcall
      next => exact keeps_some rfl
    | acceptor a event => exact hkeep (keeps_acceptorStep a event) rfl
    | timer i event => exact hkeep (keeps_timerStep i event) rfl
    | socket u event => exact hkeep (keeps_socketStep u event) rfl
    | makeConnection name => exact hkeep (keeps_some rfl) rfl
    | makeAcceptor => exact hkeep (keeps_some rfl) rfl
    | loop status loopThreadId =>
      cases hv
      exact ⟨s, rfl, by rw [Numbered, setWrites, h]; rfl, rfl⟩
  · exact h.call hcall hf hv

end run

theorem asked_eq_of_mem {self : World} {event : Event} {k : Nat} (hk : k ∈ self.asked event) :
    self.asked event = [k] := by
  unfold asked at hk ⊢
  split
  next world entry call hcall =>
    rw [hcall] at hk
    rw [Option.mem_toList.mp hk]
    rfl
  next hcall =>
    rw [hcall] at hk
    cases hk

/-- The names of the callbacks are those of the calls as they are made. -/
theorem Numbered.run {f : Nat → Nat} {self v : World} {s : Write.State} {events : List Event}
    (h : Numbered f self s)
    (hf : ∀ i k, (World.step.trace asked self events)[i]? = some k → f (s.issued + i) = k)
    (hr : World.step.run self events = some v) :
    ∃ t, Write.State.step.run s (World.step.trace writing self events) = some t ∧
      Numbered f v t ∧ t.issued = s.issued + (World.step.trace asked self events).length := by
  induction events generalizing self s with
  | nil =>
    cases hr
    exact ⟨s, rfl, h, rfl⟩
  | cons event events ih =>
    obtain ⟨u, hu, hr⟩ := Step.run_cons_eq_some.mp hr
    rw [Step.trace_cons hu] at hf
    have hnow (k : Nat) (hk : k ∈ self.asked event) : f s.issued = k := by
      apply hf 0
      rw [asked_eq_of_mem hk]
      rfl
    obtain ⟨t, ht, hnumbered, hissued⟩ := h.step hnow hu
    have hlater (i k : Nat) (hk : (World.step.trace asked u events)[i]? = some k) :
        f (t.issued + i) = k := by
      rw [hissued, Nat.add_assoc]
      apply hf
      rw [List.getElem?_append_right (Nat.le_add_right _ _), Nat.add_sub_cancel_left]
      exact hk
    obtain ⟨t', ht', hnumbered', hissued'⟩ := ih hnumbered hlater hr
    rw [Step.trace_cons hu, Step.trace_cons hu]
    refine ⟨t', Step.run_append_eq_some.mpr ⟨t, ht, ht'⟩, hnumbered', ?_⟩
    rw [hissued', hissued, List.length_append, Nat.add_assoc]

end AeProxy.Callbacks.World

namespace AeProxy.Write.State

/-- The callbacks run, and those that wait in a request or a task. -/
def callbacks (self : State) : List Nat :=
  self.invoked.map Prod.fst ++ self.requests.filterMap WriteReq.callback ++
    self.tasks.filterMap WriteTask.callback

theorem count_callbacks (s : State) (w : Nat) : s.callbacks.count w = s.owed w := by
  have hrequests : (s.requests.filterMap WriteReq.callback).count w = s.outstanding w := by
    rw [List.count, List.countP_filterMap]
    refine List.countP_congr fun request _ => ?_
    cases request.callback <;> simp
  have htasks : (s.tasks.filterMap WriteTask.callback).count w = s.queued w := by
    rw [List.count, List.countP_filterMap]
    refine List.countP_congr fun task _ => ?_
    cases task.callback <;> simp
  have hinvoked : (s.invoked.map Prod.fst).count w = s.reports w := by
    rw [List.count, List.countP_map]
    refine List.countP_congr fun report _ => ?_
    simp
  rw [callbacks, List.count_append, List.count_append, hinvoked, hrequests, htasks]
  rfl

/-- One for each call so far. -/
theorem Conserved.callbacks {s : State} (h : s.Conserved) : s.callbacks.Perm (List.range s.issued) := by
  rw [List.perm_iff_count]
  intro w
  rw [count_callbacks, h.owed, List.nodup_range.count]
  simp only [List.mem_range]

theorem callbacks_renamed (s : State) (f : Nat → Nat) (world : World) :
    (s.renamed f world).callbacks = s.callbacks.map f := by
  simp [callbacks, renamed, List.map_filterMap, List.filterMap_map, Function.comp_def]

end AeProxy.Write.State

namespace AeProxy.Callbacks.World
open Lib

/-- The writes in any run of all the classes are a run of `Write`, so that of the callbacks asked
for each has run once, or waits in one request or one task. -/
theorem run_writing {events : List Event} {v : World} (hr : step.run World.new events = some v) :
    ∃ t, Write.State.step.run (.new World.new.writes.world)
        (step.trace writing World.new events) = some t ∧
      v.writes.callbacks.Perm (step.trace asked World.new events) := by
  let names := step.trace asked World.new events
  have hnew : Numbered (fun i => names[i]?.getD 0) World.new (.new World.new.writes.world) := rfl
  have hnames (i k : Nat) (hk : names[i]? = some k) : names[0 + i]?.getD 0 = k := by
    rw [Nat.zero_add, hk]
    rfl
  obtain ⟨t, ht, hnumbered, hissued⟩ := hnew.run hnames hr
  have hconserved : t.Conserved := Step.run_invariant
    (fun _ _ _ hs ht => Write.State.conserved_step hs ht) (Write.State.conserved_new _) ht
  have hall : (List.range t.issued).map (fun i => names[i]?.getD 0) = names := by
    apply List.ext_getElem
    · rw [List.length_map, List.length_range, hissued]
      exact Nat.zero_add _
    · intro i _ hi
      rw [List.getElem_map, List.getElem_range, List.getElem?_eq_getElem hi, Option.getD_some]
  refine ⟨t, ht, ?_⟩
  rw [hnumbered, Write.State.callbacks_renamed]
  exact (hconserved.callbacks.map _).trans (.of_eq hall)

end AeProxy.Callbacks.World
