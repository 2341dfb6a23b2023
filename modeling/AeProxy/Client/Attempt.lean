import AeProxy.Client.TcpClient

/-! The life of an attempt to connect, and that a client whose earlier attempts are all over lives
the life of its last one. -/
namespace AeProxy.TcpClient
open Lib

/-- How far an attempt has come. A report has `ended` it, or it is `finished` without one. -/
inductive Stage where
  | ended
  | refused
  | waiting
  | failing
  | up
  | closing (callback : CloseCallback)
  | finished
  deriving DecidableEq

/-- What the user's callback of a `close` logs. -/
def called (callback : Option Nat) : List Action := (callback.map .userClosed).toList

/-- How an event other than a `connect` moves the attempt, the next `close` being the `call`th. -/
inductive Moves (attempt call : Nat) : Stage → Event → List Action → Stage → Prop
  | connected : Moves attempt call .waiting (.connectDone attempt true)
      [.status attempt .connectSuccess] .up
  | failed : Moves attempt call .waiting (.connectDone attempt false) [.uvClose attempt] .failing
  | reported : Moves attempt call .failing (.closed attempt) [.status attempt .connectFail] .ended
  | message : Moves attempt call .up (.read attempt .data) [.message attempt] .up
  | lost {event : Event} (h : event = .read attempt .error ∨ event = .shutdownDone attempt) :
      Moves attempt call .up event [.uvClose attempt] (.closing .onClose)
  | close (callback : Bool) : Moves attempt call .up (.close callback) [.uvClose attempt]
      (.closing (.user (if callback then some call else none)))
  | closeAgain (earlier : CloseCallback) (callback : Bool) :
      Moves attempt call (.closing earlier) (.close callback)
        (called (if callback then some call else none))
        (.closing (.user (if callback then some call else none)))
  | closeIdle {stage : Stage} (h : stage ≠ .up ∧ ∀ callback, stage ≠ .closing callback)
      (callback : Bool) : Moves attempt call stage (.close callback)
        (called (if callback then some call else none)) stage
  | closedByPeer : Moves attempt call (.closing .onClose) (.closed attempt)
      [.status attempt .connectClose] .ended
  | closedByUser (callback : Option Nat) :
      Moves attempt call (.closing (.user callback)) (.closed attempt) (called callback) .finished
  | silent (stage : Stage) {event : Event}
      (h : (∃ input, event = .read attempt input) ∨ event = .shutdownDone attempt) :
      Moves attempt call stage event [] stage

def Socket.Called (socket : Socket) (set : Bool) : Prop :=
  socket.connection.onMessageCallback = set ∧ socket.connection.onConnectCloseCallback = set

/-- The socket of an attempt that libuv has nothing left to tell about. -/
structure Socket.Dead (socket : Socket) : Prop where
  connecting : socket.connecting = false
  shutdowns : socket.shutdowns = 0
  closed : socket.handle = .closed
  called : socket.Called false

/-- The socket of an attempt at a stage. -/
def Stage.Shape (socket : Socket) : Stage → Prop
  | .ended => socket.Dead
  | .finished => socket.Dead
  | .refused => socket.connecting = false ∧ socket.failed = false ∧ socket.handle = .opened ∧
      socket.Called false
  | .waiting => socket.connecting = true ∧ socket.failed = false ∧ socket.handle = .opened ∧
      socket.Called false
  | .failing => socket.connecting = false ∧ socket.failed = true ∧ socket.handle = .closing ∧
      socket.Called false
  | .up => socket.connecting = false ∧ socket.failed = false ∧ socket.handle = .opened ∧
      socket.Called true
  | .closing callback => socket.connecting = false ∧ socket.failed = false ∧
      socket.handle = .closing ∧ socket.Called false ∧
      socket.connection.closeCompleteCallback = some callback

/-- What libuv has done with the handle of the attempt's socket. -/
def Stage.handle : Stage → Phase
  | .refused | .waiting | .up => .opened
  | .failing | .closing _ => .closing
  | .ended | .finished => .closed

/-- Whether `connection_` is the attempt's. -/
def Stage.Connection (s : TcpClient) : Stage → Prop
  | .up => s.connection_ = some s.socket_
  | .closing _ => s.connection_ = some s.socket_
  | .ended => True
  | .finished => True
  | _ => s.connection_ ≠ some s.socket_

/-- The last attempt is at the stage, and the others are over. -/
structure Live (s : TcpClient) (stage : Stage) : Prop where
  reports : s.connectCallback_ = true
  others : ∀ i, i ≠ s.socket_ → (s.socket i).Dead
  shape : stage.Shape (s.socket s.socket_)
  connection : stage.Connection s
  started : stage ≠ .ended → 0 < s.attempts
  made : ∀ i, s.connection_ = some i → i < s.attempts

section step
variable {s t : TcpClient} {stage stage' : Stage} {socket : Socket} {r : TcpClient × List Action}

theorem Live.last (h : Live s stage) {i : Nat} (hi : ¬ (s.socket i).Dead) : i = s.socket_ :=
  by_contra fun hne => hi (h.others i hne)

/-- Only the socket of the last attempt, and `connection_`, have changed. -/
theorem Live.update (h : Live s stage) (hr : t.connectCallback_ = s.connectCallback_)
    (ha : t.attempts = s.attempts) (hs : t.socket = Function.update s.socket s.socket_ socket)
    (hshape : stage'.Shape socket) (hc : stage'.Connection t)
    (hstage : stage' ≠ .ended → 0 < s.attempts)
    (hm : ∀ i, t.connection_ = some i → i < s.attempts) : Live t stage' where
  reports := hr.trans h.reports
  others i hi := by
    have hlast : t.socket_ = s.socket_ := congrArg (· - 1) ha
    rw [hlast] at hi
    rw [hs, Function.update_of_ne hi]
    exact h.others i hi
  shape := by
    have hlast : t.socket_ = s.socket_ := congrArg (· - 1) ha
    rw [hlast, hs, Function.update_self]
    exact hshape
  connection := hc
  started h' := ha ▸ hstage h'
  made i hi := ha ▸ hm i hi

theorem Live.handle_eq (h : Live s stage) : (s.socket s.socket_).handle = stage.handle := by
  have hshape := h.shape
  cases stage with
  | ended => exact hshape.closed
  | finished => exact hshape.closed
  | closing callback => exact hshape.2.2.1
  | _ => exact hshape.2.2.1

/-- Only an attempt that is up can call back. -/
theorem Live.callbacks (h : Live s stage) (hup : stage ≠ .up) :
    (s.socket s.socket_).Called false := by
  have hshape := h.shape
  cases stage with
  | up => exact absurd rfl hup
  | ended => exact hshape.called
  | finished => exact hshape.called
  | closing callback => exact hshape.2.2.2.1
  | _ => exact hshape.2.2.2

theorem Live.handle_ne_closed (h : Live s stage) (hd : ¬ (s.socket s.socket_).Dead) :
    (s.socket s.socket_).handle ≠ .closed := by
  rw [h.handle_eq]
  have hshape := h.shape
  cases stage with
  | ended => exact absurd hshape hd
  | finished => exact absurd hshape hd
  | _ => exact Phase.noConfusion

theorem Live.status (h : Live s stage) (attempt : Nat) (status : ConnectStatus) :
    s.runConnectCallback attempt status = [.status attempt status] := if_pos h.reports

/-- What has been read, and whether a shutdown is under way, is no matter of the stage. -/
theorem Live.stream (h : Live s stage) (hopen : (s.socket s.socket_).handle ≠ .closed)
    (hr : t.connectCallback_ = s.connectCallback_) (ha : t.attempts = s.attempts)
    (hconn : t.connection_ = s.connection_) (connected : Bool) (shutdowns : Nat)
    (hs : t.socket = Function.update s.socket s.socket_ { s.socket s.socket_ with
      shutdowns := shutdowns
      connection := (s.socket s.socket_).connection.setConnectStatus connected }) :
    Live t stage := by
  have hlast : t.socket_ = s.socket_ := congrArg (· - 1) ha
  refine h.update hr ha hs ?_ ?_ h.started (hconn ▸ h.made)
  · have hshape := h.shape
    cases stage with
    | ended => exact absurd hshape.closed hopen
    | finished => exact absurd hshape.closed hopen
    | _ => exact hshape
  · have hc := h.connection
    cases stage <;> simp only [Stage.Connection, hconn, hlast] at hc ⊢ <;> exact hc

theorem Live.waiting_of_connecting (h : Live s stage) {i : Nat}
    (hc : (s.socket i).connecting = true) : i = s.socket_ ∧ stage = .waiting := by
  obtain rfl : i = s.socket_ := h.last fun hd => Bool.noConfusion (hd.connecting.symm.trans hc)
  refine ⟨rfl, ?_⟩
  have hshape := h.shape
  cases stage with
  | waiting => rfl
  | ended => exact absurd (hshape.connecting.symm.trans hc) Bool.noConfusion
  | finished => exact absurd (hshape.connecting.symm.trans hc) Bool.noConfusion
  | _ => exact absurd (hshape.1.symm.trans hc) Bool.noConfusion

theorem Live.connectDone (h : Live s stage) {i : Nat} {success : Bool}
    (hs : step s (.connectDone i success) = some r) :
    ∃ stage', Moves s.socket_ s.closes stage (.connectDone i success) r.2 stage' ∧
      Live r.1 stage' := by
  obtain ⟨⟨hc, -⟩, he⟩ := Option.ite_none_right_eq_some.mp hs
  obtain rfl := Option.some.inj he
  obtain ⟨rfl, rfl⟩ := h.waiting_of_connecting hc
  obtain ⟨-, hf, hopened, hcalled⟩ := h.shape
  have hstarted : 0 < s.attempts := h.started nofun
  cases success with
  | true =>
    refine ⟨.up, ?_, ?_⟩
    · have hout : ((s.requestDone s.socket_).onConnect true).2 =
          [.status s.socket_ .connectSuccess] := h.status ..
      rw [hout]
      exact .connected
    · refine h.update rfl rfl (Function.update_idem ..) ?_ rfl (fun _ => hstarted) ?_
      · simp only [requestDone, setSocket_last, setSocket_self]
        exact ⟨rfl, rfl, hopened, rfl, rfl⟩
      · rintro i ⟨⟩
        exact Nat.sub_lt hstarted Nat.one_pos
  | false =>
    have hnot : ((s.requestDone s.socket_).socket s.socket_).handle.isClosing = false := by
      rw [requestDone, setSocket_self, Phase.isClosing_eq_false]
      exact hopened
    rw [onConnect, requestDone_last, if_pos hnot]
    refine ⟨.failing, .failed, ?_⟩
    refine h.update rfl rfl (Function.update_idem ..) ?_ h.connection (fun _ => hstarted) h.made
    simp only [requestDone, setSocket_self]
    exact ⟨rfl, rfl, rfl, hcalled⟩

/-- Closing the connection of an attempt that is up. -/
theorem Live.closeHandle_up (h : Live s .up) {i : Nat} (hi : i = s.socket_)
    (callback : CloseCallback) :
    Live (s.closeHandle i callback).1 (.closing callback) ∧
      (s.closeHandle i callback).2 = [.uvClose i] := by
  subst hi
  obtain ⟨hc, hf, hopened, -⟩ := h.shape
  rw [closeHandle_of_opened hopened]
  exact ⟨h.update rfl rfl rfl ⟨hc, hf, rfl, ⟨rfl, rfl⟩, rfl⟩ h.connection
    (fun _ => h.started nofun) h.made, rfl⟩

/-- Closing it again. -/
theorem Live.closeHandle_closing {earlier : CloseCallback} (h : Live s (.closing earlier)) {i : Nat}
    (hi : i = s.socket_) (callback : CloseCallback) :
    Live (s.closeHandle i callback).1 (.closing callback) ∧
      (s.closeHandle i callback).2 = s.closeComplete i (some callback) := by
  subst hi
  obtain ⟨hc, hf, hclosing, -⟩ := h.shape
  rw [closeHandle_of_not_opened fun ho => Phase.noConfusion (hclosing.symm.trans ho)]
  exact ⟨h.update rfl rfl rfl ⟨hc, hf, hclosing, ⟨rfl, rfl⟩, rfl⟩ h.connection
    (fun _ => h.started nofun) h.made, rfl⟩

theorem Live.onSocketClose_up (h : Live s .up) :
    s.onSocketClose s.socket_ = s.closeHandle s.socket_ .onClose := by
  rw [TcpClient.onSocketClose, if_pos h.shape.2.2.2.2, onConnectClose, h.connection]

/-- The peer has gone. -/
theorem Live.onSocketClose (h : Live s stage) {event : Event}
    (he : event = .read s.socket_ .error ∨ event = .shutdownDone s.socket_) :
    ∃ stage', Moves s.socket_ s.closes stage event (s.onSocketClose s.socket_).2 stage' ∧
      Live (s.onSocketClose s.socket_).1 stage' := by
  by_cases hup : stage = .up
  · subst hup
    obtain ⟨hlive, hout⟩ := h.closeHandle_up rfl .onClose
    rw [h.onSocketClose_up, hout]
    exact ⟨_, .lost he, hlive⟩
  · have hnot : s.onSocketClose s.socket_ = (s, []) :=
      if_neg (ne_true_of_eq_false (h.callbacks hup).2)
    rw [hnot]
    exact ⟨stage, .silent stage (he.imp_left fun he => ⟨.error, he⟩), h⟩

theorem Live.read (h : Live s stage) {i : Nat} {input : TcpServer.Input}
    (hs : step s (.read i input) = some r) :
    ∃ stage', Moves s.socket_ s.closes stage (.read i input) r.2 stage' ∧ Live r.1 stage' := by
  obtain ⟨hopen, he⟩ := Option.ite_none_right_eq_some.mp hs
  obtain rfl := Option.some.inj he
  obtain rfl : i = s.socket_ := h.last fun hd => hopen hd.closed
  have hgone : Live (s.setConnection s.socket_
      ((s.socket s.socket_).connection.setConnectStatus false)) stage :=
    h.stream hopen rfl rfl rfl _ _ rfl
  cases input with
  | data =>
    refine ⟨stage, ?_, h⟩
    rw [onMesageReceive]
    split
    next hm =>
      obtain ⟨hcalled, -⟩ := Bool.and_eq_true_iff.mp hm
      obtain rfl : stage = .up :=
        by_contra fun hup => Bool.noConfusion ((h.callbacks hup).1.symm.trans hcalled)
      exact .message
    next => exact .silent stage (.inl ⟨.data, rfl⟩)
  | error => exact hgone.onSocketClose (.inl rfl)
  | eof accepted =>
    refine ⟨stage, ?_, ?_⟩
    · cases accepted <;> exact .silent stage (.inl ⟨_, rfl⟩)
    · cases accepted with
      | false => exact hgone
      | true =>
        refine h.stream hopen rfl rfl rfl false ((s.socket s.socket_).shutdowns + 1) ?_
        simp only [onMesageReceive, if_true, setConnection, setSocket_self]
        exact Function.update_idem ..

theorem Live.shutdownDone (h : Live s stage) {i : Nat} (hs : step s (.shutdownDone i) = some r) :
    ∃ stage', Moves s.socket_ s.closes stage (.shutdownDone i) r.2 stage' ∧ Live r.1 stage' := by
  obtain ⟨hpos, he⟩ := Option.ite_none_right_eq_some.mp hs
  obtain rfl := Option.some.inj he
  have hd : ¬ (s.socket i).Dead := fun hd => Nat.ne_of_gt hpos hd.shutdowns
  obtain rfl : i = s.socket_ := h.last hd
  have hopen : (s.socket s.socket_).handle ≠ .closed := h.handle_ne_closed hd
  have hdone : Live (s.setSocket s.socket_ { s.socket s.socket_ with
      shutdowns := (s.socket s.socket_).shutdowns - 1 }) stage :=
    h.stream hopen rfl rfl rfl (s.socket s.socket_).connection.connected _ rfl
  exact hdone.onSocketClose (.inr rfl)

/-- A link whose peer has gone is asked to close. -/
theorem Live.lost (h : Live s .up) {event : Event}
    (he : (∃ i, event = .read i .error) ∨ ∃ i, event = .shutdownDone i)
    (hs : step s event = some r) : Live r.1 (.closing .onClose) := by
  have hopen : (s.socket s.socket_).handle ≠ .closed := by
    rw [h.handle_eq]
    exact Phase.noConfusion
  have hclose {t : TcpClient} (ht : Live t .up) :
      Live (t.onSocketClose t.socket_).1 (.closing .onClose) := by
    rw [ht.onSocketClose_up]
    exact (ht.closeHandle_up rfl .onClose).1
  rcases he with ⟨i, rfl⟩ | ⟨i, rfl⟩
  · obtain ⟨hi, he⟩ := Option.ite_none_right_eq_some.mp hs
    obtain rfl := Option.some.inj he
    obtain rfl : i = s.socket_ := h.last fun hd => hi hd.closed
    exact hclose (h.stream hopen rfl rfl rfl _ _ rfl)
  · obtain ⟨hpos, he⟩ := Option.ite_none_right_eq_some.mp hs
    obtain rfl := Option.some.inj he
    obtain rfl : i = s.socket_ := h.last fun hd => Nat.ne_of_gt hpos hd.shutdowns
    exact hclose (h.stream hopen rfl rfl rfl (s.socket s.socket_).connection.connected _ rfl)

theorem Live.closed (h : Live s stage) {i : Nat} (hs : step s (.closed i) = some r) :
    ∃ stage', Moves s.socket_ s.closes stage (.closed i) r.2 stage' ∧ Live r.1 stage' := by
  obtain ⟨⟨hclosing, hshut, hconn⟩, he⟩ := Option.ite_none_right_eq_some.mp hs
  obtain rfl := Option.some.inj he
  obtain rfl : i = s.socket_ :=
    h.last fun hd => Phase.noConfusion (hd.closed.symm.trans hclosing)
  have hdead {stage' : Stage} (hne : stage ≠ .ended) (hcalled : (s.socket s.socket_).Called false)
      (hstage : stage' = .ended ∨ stage' = .finished) :
      Live (s.setConnection s.socket_
        { (s.socket s.socket_).connection with handle := .closed }) stage' := by
    have hd : Socket.Dead { s.socket s.socket_ with connection :=
        { (s.socket s.socket_).connection with handle := .closed } } := ⟨hconn, hshut, rfl, hcalled⟩
    rcases hstage with rfl | rfl
    · exact h.update rfl rfl rfl hd trivial (fun _ => h.started hne) h.made
    · exact h.update rfl rfl rfl hd trivial (fun _ => h.started hne) h.made
  have hshape := h.shape
  cases stage with
  | failing =>
    rw [onClosed_of_failed hshape.2.1, h.status]
    exact ⟨.ended, .reported, hdead nofun hshape.2.2.2 (.inl rfl)⟩
  | closing callback =>
    rw [onClosed_of_not_failed hshape.2.1, hshape.2.2.2.2]
    cases callback with
    | onClose =>
      have hout : s.closeComplete s.socket_ (some .onClose) = [.status s.socket_ .connectClose] :=
        h.status ..
      rw [hout]
      exact ⟨.ended, .closedByPeer, hdead nofun hshape.2.2.2.1 (.inl rfl)⟩
    | user callback =>
      rw [closeComplete_user]
      exact ⟨.finished, .closedByUser callback, hdead nofun hshape.2.2.2.1 (.inr rfl)⟩
  | _ => exact Phase.noConfusion (h.handle_eq.symm.trans hclosing)

theorem Live.withCloses (h : Live s stage) (closes : Nat) :
    Live { s with closes := closes } stage := by
  refine h.update rfl rfl (Function.update_eq_self _ _).symm h.shape ?_ h.started h.made
  have hc := h.connection
  cases stage <;> exact hc

/-- Closing a connection that is gone. -/
theorem Live.closeHandle_dead (h : Live s stage) {i : Nat} (hd : (s.socket i).Dead)
    (callback : CloseCallback) :
    Live (s.closeHandle i callback).1 stage ∧
      (s.closeHandle i callback).2 = s.closeComplete i (some callback) := by
  rw [closeHandle_of_not_opened fun ho => Phase.noConfusion (hd.closed.symm.trans ho)]
  refine ⟨?_, rfl⟩
  by_cases hi : i = s.socket_
  · subst hi
    have hc := h.connection
    cases stage with
    | ended =>
      exact h.update rfl rfl rfl ⟨hd.connecting, hd.shutdowns, hd.closed, rfl, rfl⟩ hc h.started h.made
    | finished =>
      exact h.update rfl rfl rfl ⟨hd.connecting, hd.shutdowns, hd.closed, rfl, rfl⟩ hc h.started h.made
    | _ => exact Phase.noConfusion (hd.closed.symm.trans h.handle_eq)
  · refine ⟨h.reports, fun j hj => ?_, ?_, ?_, h.started, h.made⟩
    · by_cases hji : j = i
      · subst hji
        rw [setConnection, setSocket_self]
        exact ⟨hd.connecting, hd.shutdowns, hd.closed, rfl, rfl⟩
      · rw [setConnection, setSocket_of_ne _ _ _ hji]
        exact h.others j hj
    · rw [setConnection, setSocket_last, setSocket_of_ne _ _ _ (Ne.symm hi)]
      exact h.shape
    · have hc := h.connection
      cases stage <;> exact hc

theorem Live.close (h : Live s stage) {callback : Bool} (hs : step s (.close callback) = some r) :
    ∃ stage', Moves s.socket_ s.closes stage (.close callback) r.2 stage' ∧ Live r.1 stage' := by
  obtain rfl := Option.some.inj hs
  have hnow : Live { s with closes := s.closes + 1 } stage := h.withCloses _
  have hidle (hstage : stage ≠ .up ∧ ∀ callback, stage ≠ .closing callback)
      (hdead : s.connection_ = some s.socket_ → (s.socket s.socket_).Dead) :
      ∃ stage', Moves s.socket_ s.closes stage (.close callback) (s.close callback).2 stage' ∧
        Live (s.close callback).1 stage' := by
    refine ⟨stage, ?_⟩
    cases hconn : s.connection_ with
    | none =>
      rw [close_of_none hconn]
      exact ⟨.closeIdle hstage callback, hnow⟩
    | some i =>
      have hd : (s.socket i).Dead := by
        by_cases hi : i = s.socket_
        · exact hi ▸ hdead (hi ▸ hconn)
        · exact h.others i hi
      obtain ⟨hlive, hout⟩ := hnow.closeHandle_dead hd
        (.user (if callback then some s.closes else none))
      rw [close_of_some hconn, hout, closeComplete_user]
      exact ⟨.closeIdle hstage callback, hlive⟩
  have hshape := h.shape
  have hconn := h.connection
  cases stage with
  | up =>
    obtain ⟨hlive, hout⟩ := hnow.closeHandle_up (i := s.socket_) rfl
      (.user (if callback then some s.closes else none))
    rw [close_of_some hconn, hout]
    exact ⟨_, .close callback, hlive⟩
  | closing earlier =>
    obtain ⟨hlive, hout⟩ := hnow.closeHandle_closing (i := s.socket_) rfl
      (.user (if callback then some s.closes else none))
    rw [close_of_some hconn, hout, closeComplete_user]
    exact ⟨_, .closeAgain earlier callback, hlive⟩
  | ended => exact hidle ⟨nofun, nofun⟩ fun _ => hshape
  | finished => exact hidle ⟨nofun, nofun⟩ fun _ => hshape
  | _ => exact hidle ⟨nofun, nofun⟩ fun hsome => absurd hsome hconn

/-- An event other than a `connect` moves the last attempt. -/
theorem Live.step (h : Live s stage) {event : Event} (he : ∀ accepted, event ≠ .connect accepted)
    (hs : step s event = some r) :
    ∃ stage', Moves s.socket_ s.closes stage event r.2 stage' ∧ Live r.1 stage' := by
  cases event with
  | connect accepted => exact absurd rfl (he accepted)
  | connectDone i success => exact h.connectDone hs
  | read i input => exact h.read hs
  | shutdownDone i => exact h.shutdownDone hs
  | closed i => exact h.closed hs
  | close callback => exact h.close hs

/-- An attempt follows one that has ended. -/
theorem Live.connect (h : Live s .ended) (accepted : Bool) :
    Live (s.connect accepted).1 (if accepted then .waiting else .refused) := by
  have hlast : (s.connect accepted).1.socket_ = s.attempts := Nat.add_sub_cancel ..
  have hnew : (s.connect accepted).1.socket s.attempts = .raw accepted .opened := setSocket_self ..
  have hmade (i : Nat) (hi : (s.connect accepted).1.connection_ = some i) : i < s.attempts :=
    h.made i hi
  refine ⟨h.reports, fun i hi => ?_, ?_, ?_, fun _ => Nat.succ_pos _, fun i hi => ?_⟩
  · have hold : (s.connect accepted).1.socket i = s.socket i :=
      setSocket_of_ne _ _ _ (hlast ▸ hi)
    rw [hold]
    by_cases hi' : i = s.socket_
    · exact hi' ▸ h.shape
    · exact h.others i hi'
  · rw [hlast, hnew]
    cases accepted <;> exact ⟨rfl, rfl, rfl, rfl, rfl⟩
  · have hne : (s.connect accepted).1.connection_ ≠ some (s.connect accepted).1.socket_ :=
      fun hc => Nat.lt_irrefl _ (hmade _ (hlast ▸ hc))
    cases accepted <;> exact hne
  · exact Nat.lt_succ_of_lt (hmade i hi)

theorem live_new (onMessageCallback : Bool) : Live (new true onMessageCallback) .ended :=
  ⟨rfl, fun _ _ => ⟨rfl, rfl, rfl, rfl, rfl⟩, ⟨rfl, rfl, rfl, rfl, rfl⟩, trivial,
    fun h => absurd rfl h, nofun⟩

/-- There is a connection, and it is open. -/
def Linked (s : TcpClient) : Prop :=
  ∃ i, s.connection_ = some i ∧ (s.socket i).handle = .opened

theorem Live.linked_iff (h : Live s stage) : s.Linked ↔ stage = .up := by
  constructor
  · rintro ⟨i, hi, hopen⟩
    obtain rfl : i = s.socket_ := h.last fun hd => Phase.noConfusion (hd.closed.symm.trans hopen)
    have hconn := h.connection
    cases stage with
    | up => rfl
    | refused => exact absurd hi hconn
    | waiting => exact absurd hi hconn
    | _ => exact Phase.noConfusion (h.handle_eq.symm.trans hopen)
  · rintro rfl
    exact ⟨_, h.connection, h.handle_eq⟩

end step
end AeProxy.TcpClient
