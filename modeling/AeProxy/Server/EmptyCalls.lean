import AeProxy.Server.Callbacks

/-! Which calls can find an empty function: of all the places only two do not look first. -/
namespace AeProxy.Callbacks.World
open Lib

/-- What `TcpServer::close` was given is called untested when its acceptor is closed, and what
`write_in_loop` was given when its task finds the connection gone. -/
def Filled (self : World) : Event → Prop
  | .server s (.close callback) => ∀ a, (self.server s).accetper_ = some a →
      (self.acceptor a).handle ≠ .opened → callback ≠ none
  | .acceptor a .closed => (self.acceptor a).handle = .closing →
      ∀ s callback, (self.acceptor a).onCloseCompletCallback = some (.server s callback) →
        callback ≠ none
  | .runTask _ => ∀ task tasks, self.writes.tasks = task :: tasks →
      (self.connection task.connection).alive = false → task.callback ≠ none
  | _ => True

section safe
variable {κ : Type} (self : World)

/-- A call behind its test. -/
theorem ifSet_isSome {call : Option κ → Option World} (h : ∀ k, (call (some k)).isSome)
    (callback : Option κ) : (self.ifSet callback call).isSome := by
  cases callback with
  | none => rfl
  | some k => exact h k

theorem complete_isSome {call : Option κ → Option World} (h : ∀ k, (call (some k)).isSome)
    (effect : CloseEffect κ) : (self.complete effect call).isSome := by
  cases effect with
  | uvClose => rfl
  | complete callback => exact self.ifSet_isSome h callback

theorem connectionClosed_isSome (s : Nat) (name : String) :
    (self.connectionClosed s name).isSome := by
  unfold connectionClosed
  split
  next =>
    rw [Option.isSome_map]
    exact self.ifSet_isSome (fun _ => rfl) _
  next => rfl

theorem runConnectCallback_isSome (k : Nat) : (self.runConnectCallback k).isSome :=
  self.ifSet_isSome (fun _ => rfl) _

theorem closeComplete_isSome (c : Nat) : (self.closeComplete c).isSome := by
  refine self.ifSet_isSome (fun callback => ?_) _
  cases callback with
  | user callback => rfl
  | server s => exact self.connectionClosed_isSome s _
  | onClose k => exact self.runConnectCallback_isSome k
  | close callback => exact self.ifSet_isSome (fun _ => rfl) callback

theorem closeHandle_isSome (c : Nat) (callback : Option ConnectionClosed) :
    (self.closeHandle c callback).isSome := by
  unfold closeHandle
  dsimp only
  split
  next => rfl
  next => exact closeComplete_isSome _ c

theorem closeConnection_isSome (s : Nat) (name : String) : (self.closeConnection s name).isSome := by
  unfold closeConnection
  split
  next c _ => exact self.closeHandle_isSome c _
  next => rfl

theorem onSocketClose_isSome (c : Nat) : (self.onSocketClose c).isSome := by
  refine self.ifSet_isSome (fun callback => ?_) _
  cases callback with
  | user callback => rfl
  | server s => exact self.closeConnection_isSome s _
  | client k =>
    simp only [callConnectClose, onConnectClose]
    split
    next c _ => exact self.closeHandle_isSome c _
    next => rfl

theorem foldlM_isSome {α : Type} {f : World → α → Option World} (h : ∀ w a, (f w a).isSome)
    (l : List α) : (l.foldlM f self).isSome := by
  induction l generalizing self with
  | nil => rfl
  | cons a l ih =>
    obtain ⟨w, hw⟩ := Option.isSome_iff_exists.mp (h self a)
    rw [List.foldlM_cons, hw]
    exact ih w

/-- Only the last call of the sweep can fail. -/
theorem sweep_isSome_iff (s : Nat) (callback : Option Nat) :
    (self.sweep s callback).isSome ↔ callback ≠ none := by
  obtain ⟨w, hw⟩ := Option.isSome_iff_exists.mp (self.foldlM_isSome
    (fun (world : World) (entry : Sigma fun _ : String => Nat) => world.onSocketClose_isSome entry.2)
    (self.server s).connnections_.entries)
  rw [sweep, hw, Option.bind_some]
  cases callback with
  | none => exact iff_of_false nofun fun h => h rfl
  | some callback => exact iff_of_true rfl nofun

theorem callAcceptorClosed_isSome_iff (callback : Option AcceptorClosed) :
    (self.ifSet callback self.callAcceptorClosed).isSome ↔
      ∀ s inner, callback = some (.server s inner) → inner ≠ none := by
  rcases callback with _ | callback | ⟨s, inner⟩
  · exact iff_of_true rfl nofun
  · exact iff_of_true rfl nofun
  · refine (self.sweep_isSome_iff s inner).trans ⟨?_, fun h => h s inner rfl⟩
    rintro h _ _ ⟨⟩
    exact h

/-- An acceptor that is open is only asked to close. -/
theorem closeAcceptor_isSome_iff (a : Nat) (callback : Option AcceptorClosed) :
    (self.closeAcceptor a callback).isSome ↔ ((self.acceptor a).handle ≠ .opened →
      ∀ s inner, callback = some (.server s inner) → inner ≠ none) := by
  rcases eq_or_ne (self.acceptor a).handle .opened with ho | ho
  · obtain ⟨-, -, heff⟩ := TcpAcceptor.closeSlot.close_opened
      (s := (self.acceptor a).toTcpAcceptor) ho callback
    have heff' : ((self.acceptor a).close callback).2 = .uvClose := heff
    refine iff_of_true ?_ fun hne => absurd ho hne
    simp only [closeAcceptor, heff', complete, Option.isSome_some]
  · obtain ⟨-, -, heff⟩ := TcpAcceptor.closeSlot.close_closing
      (s := (self.acceptor a).toTcpAcceptor) ho callback
    have heff' : ((self.acceptor a).close callback).2 = .complete callback := heff
    simp only [closeAcceptor, heff', complete, callAcceptorClosed_isSome_iff, forall_prop_of_true ho]

theorem onMesageReceive_isSome (c : Nat) (input : TcpServer.Input) :
    (self.onMesageReceive c input).isSome := by
  cases input with
  | data =>
    refine self.ifSet_isSome (fun callback => ?_) _
    cases callback with
    | user callback => rfl
    | server s => exact self.ifSet_isSome (fun _ => rfl) _
    | client k => exact self.ifSet_isSome (fun _ => rfl) _
  | error => exact onSocketClose_isSome _ c
  | eof accepted => rfl

theorem onNewConnect_isSome (a : Nat) (name : String) : (self.onNewConnect a name).isSome := by
  refine self.ifSet_isSome (fun callback => ?_) _
  cases callback with
  | user callback => rfl
  | server s => exact ifSet_isSome _ (fun _ => rfl) _

theorem onConnect_isSome (k : Nat) (success isClosing : Bool) :
    (self.onConnect k success isClosing).isSome := by
  unfold onConnect
  split
  next => exact runConnectCallback_isSome _ k
  next => split <;> rfl

theorem closeClient_isSome (k : Nat) (callback : Option Nat) :
    (self.closeClient k callback).isSome := by
  unfold closeClient
  split
  next c _ => exact self.closeHandle_isSome c _
  next => exact self.ifSet_isSome (fun _ => rfl) callback

theorem onTimeOut_isSome (i : TimerName) (expired : List Nat) :
    (self.onTimeOut i expired).isSome := by
  refine self.ifSet_isSome (fun callback => ?_) _
  cases callback with
  | user callback => rfl
  | wheel =>
    refine self.foldlM_isSome (fun w c => ?_) expired
    unfold expire
    split
    next => exact w.onSocketClose_isSome c
    next => rfl

theorem closeTimer_isSome (i : TimerName) (callback : Option Nat) :
    (self.closeTimer i callback).isSome :=
  complete_isSome _ (fun _ => rfl) _

theorem closeSocket_isSome (u : Nat) (callback : Option Nat) :
    (self.closeSocket u callback).isSome :=
  complete_isSome _ (fun _ => rfl) _

end safe

section writes
variable {s : Write.State}

/-- A task looks for its callback only if its connection is there. -/
theorem runTask_isSome_iff (task : Write.WriteTask) (rst : Int) :
    (s.runTask task rst).isSome ↔
      (s.world.alive task.connection = false → task.callback ≠ none) := by
  unfold Write.State.runTask
  split
  next ha => exact iff_of_true rfl fun hf => absurd ha (ne_true_of_eq_false hf)
  next ha =>
    cases task.callback with
    | none => exact iff_of_false nofun fun h => h (Bool.eq_false_iff.mpr ha) rfl
    | some w => exact iff_of_true rfl fun _ => nofun

theorem writeInLoop_isSome {c : Nat} (ha : s.world.alive c = true) (thread buf : Nat) (size : Int)
    (callback : Option Nat) (rst : Int) :
    (s.writeInLoop thread c buf size callback rst).isSome := by
  unfold Write.State.writeInLoop Write.State.runInThisLoop
  split
  next => exact (runTask_isSome_iff _ rst).mpr fun hf => absurd ha (ne_true_of_eq_false hf)
  next => rfl

theorem ownerWriteInLoop_isSome (self : World) (c : Option Nat) (size : UInt32) (call : WriteCall) :
    (self.ownerWriteInLoop c size call).isSome := by
  unfold ownerWriteInLoop
  split
  next ha =>
    rw [Option.isSome_map]
    cases c with
    | none => rfl
    | some c => exact writeInLoop_isSome ha ..
  next => rfl

end writes

theorem ownerWrite_isSome (self : World) (c : Option Nat) (size : UInt32) (call : WriteCall) :
    (self.ownerWrite c size call).isSome := by
  unfold ownerWrite
  split <;> rfl

section step
variable (self : World)

theorem serverStep_isSome_iff (s : Nat) (event : ServerEvent) :
    (self.serverStep s event).isSome ↔ self.Filled (.server s event) := by
  cases event with
  | close callback =>
    simp only [serverStep, close, Filled]
    rcases (self.server s).accetper_ with _ | a
    · exact iff_of_true rfl nofun
    · refine (self.closeAcceptor_isSome_iff a _).trans ⟨?_, ?_⟩
      · rintro h _ ⟨⟩ ho
        exact h ho s callback rfl
      · rintro h ho _ _ ⟨⟩
        exact h a rfl ho
  | closeConnection name => exact iff_of_true (self.closeConnection_isSome s name) trivial
  | write c size call => exact iff_of_true (self.ownerWrite_isSome c size call) trivial
  | writeByName name size call => exact iff_of_true (self.ownerWrite_isSome _ size call) trivial
  | writeInLoop c size call => exact iff_of_true (self.ownerWriteInLoop_isSome c size call) trivial
  | writeInLoopByName name size call =>
    exact iff_of_true (self.ownerWriteInLoop_isSome _ size call) trivial
  | _ => exact iff_of_true rfl trivial

theorem clientStep_isSome (k : Nat) (event : ClientEvent) : (self.clientStep k event).isSome := by
  cases event with
  | connectDone success isClosing =>
    simp only [clientStep]
    split
    next => exact onConnect_isSome _ k success isClosing
    next => rfl
  | afterConnectFail =>
    simp only [clientStep]
    split
    next => exact runConnectCallback_isSome _ k
    next => rfl
  | close callback => exact self.closeClient_isSome k callback
  | write size call => exact self.ownerWrite_isSome _ size call
  | writeInLoop size call => exact self.ownerWriteInLoop_isSome _ size call
  | _ => rfl

theorem connectionStep_isSome {c : Nat} (ha : (self.connection c).alive = true)
    (event : ConnectionEvent) : (self.connectionStep c event).isSome := by
  cases event with
  | onSocketClose => exact self.onSocketClose_isSome c
  | close callback => exact self.closeHandle_isSome c _
  | writeInLoop size call =>
    simp only [connectionStep, Option.isSome_map]
    exact writeInLoop_isSome ha ..
  | read input =>
    simp only [connectionStep]
    split
    next => exact self.onMesageReceive_isSome c input
    next => rfl
  | shutdownDone =>
    simp only [connectionStep]
    split
    next => exact onSocketClose_isSome _ c
    next => rfl
  | closed =>
    simp only [connectionStep]
    split
    next => exact closeComplete_isSome _ c
    next => rfl
  | destroy =>
    simp only [connectionStep]
    split <;> rfl
  | _ => rfl

theorem acceptorStep_isSome_iff (a : Nat) (event : AcceptorEvent) :
    (self.acceptorStep a event).isSome ↔ self.Filled (.acceptor a event) := by
  cases event with
  | setNewConnectionCallback callback => exact iff_of_true rfl trivial
  | close callback =>
    refine iff_of_true ((self.closeAcceptor_isSome_iff a _).mpr fun _ s inner he => ?_) trivial
    cases callback <;> exact nomatch he
  | newConnect name =>
    simp only [acceptorStep]
    split
    next => exact iff_of_true (self.onNewConnect_isSome a name) trivial
    next => exact iff_of_true rfl trivial
  | closed =>
    simp only [acceptorStep, Filled]
    split
    next hc =>
      rw [forall_prop_of_true hc]
      exact callAcceptorClosed_isSome_iff _ (self.acceptor a).onCloseCompletCallback
    next hc => exact iff_of_true rfl fun h => absurd h hc

theorem timerStep_isSome (i : TimerName) (event : TimerEvent) : (self.timerStep i event).isSome := by
  cases event with
  | construct callback => cases i <;> rfl
  | timeOut expired =>
    simp only [timerStep]
    split
    next => exact self.onTimeOut_isSome i expired
    next => rfl
  | close callback =>
    cases i with
    | wheel s => rfl
    | user n => exact self.closeTimer_isSome _ callback
  | closed =>
    simp only [timerStep]
    split
    next => exact ifSet_isSome _ (fun _ => rfl) _
    next => rfl

theorem socketStep_isSome (u : Nat) (event : SocketEvent) : (self.socketStep u event).isSome := by
  cases event with
  | setMessageCallback callback => rfl
  | message =>
    simp only [socketStep]
    split
    next => exact self.ifSet_isSome (fun _ => rfl) _
    next => rfl
  | close callback => exact self.closeSocket_isSome u callback
  | closed =>
    simp only [socketStep]
    split
    next => exact ifSet_isSome _ (fun _ => rfl) _
    next => rfl

/-- A step calls an empty function in the two places that do not look, and nowhere else. -/
theorem step_isSome_iff (event : Event) : (step self event).isSome ↔ self.Filled event := by
  cases event with
  | server s event => exact self.serverStep_isSome_iff s event
  | client k event => exact iff_of_true (self.clientStep_isSome k event) trivial
  | connection c event =>
    simp only [step]
    split
    next ha => exact iff_of_true (self.connectionStep_isSome ha event) trivial
    next => exact iff_of_true rfl trivial
  | acceptor a event => exact self.acceptorStep_isSome_iff a event
  | timer i event => exact iff_of_true (self.timerStep_isSome i event) trivial
  | socket u event => exact iff_of_true (self.socketStep_isSome u event) trivial
  | writeDone i status =>
    simp only [step]
    split <;> exact iff_of_true rfl trivial
  | runTask rst =>
    have hview : self.view.tasks = self.writes.tasks := rfl
    simp only [step, Filled, hview]
    rcases self.writes.tasks with _ | ⟨task, tasks⟩
    · exact iff_of_true rfl nofun
    · rw [Option.isSome_map]
      refine (runTask_isSome_iff task rst).trans ⟨?_, fun h => h task tasks rfl⟩
      rintro h _ _ ⟨⟩
      exact h
  | _ => exact iff_of_true rfl trivial

end step

/-- In every run: no empty function is called exactly if those two places are given one each. -/
theorem run_isSome_iff_filled (events : List Event) :
    (step.run .new events).isSome ↔ step.Throughout Filled .new events :=
  Step.run_isSome_iff step_isSome_iff

/-- A server is closed without a callback; a client's connection is gone when the task of a write
without one runs. -/
theorem not_run_empty :
    step.run .new [.server 0 (.listen true), .server 0 (.close none), .acceptor 0 .closed] = none ∧
    step.run .new [.server 0 (.listen true), .acceptor 0 (.newConnect "10.0.0.1:4000"),
      .loop .started (some 7), .connection 0 (.writeInLoop 5 ⟨3, 100, none, 0⟩),
      .server 0 (.closeConnection "10.0.0.1:4000"), .connection 0 .closed, .connection 0 .destroy,
      .runTask 0] = none := by
  constructor <;> rfl

end AeProxy.Callbacks.World
