import AeProxy.Server.Registry

/-! What every event leaves true of a server, whatever names are accepted and whoever closes. -/
namespace AeProxy.TcpServer
open Lib

/-- A property kept by all that the operations on connections are made of. -/
structure Stable (P : TcpServer → Prop) : Prop where
  emit : ∀ s action, action ≠ .serverClosed → P s → P (s.emit action)
  remove : ∀ s name, P s → P (s.removeConnection name)
  request : ∀ s c callback, P s → P (s.setConnection c ((s.connection c).close callback).1)
  gone : ∀ s c, P s → P (s.setConnection c ((s.connection c).setConnectStatus false))
  shutdowns : ∀ s shutdowns, P s → P { s with shutdowns := shutdowns }

namespace Stable
variable {P : TcpServer → Prop} (hP : Stable P) {s : TcpServer} (h : P s)

include hP h

theorem connectionClosed (name : String) {user : TcpServer → TcpServer}
    (huser : ∀ u, P u → P (user u)) : P (s.connectionClosed name user) := by
  unfold TcpServer.connectionClosed
  split
  next c _ =>
    dsimp only
    split
    next => exact hP.remove _ name (huser _ (hP.emit _ _ Action.noConfusion h))
    next => exact hP.remove _ name h
  next => exact h

theorem closeComplete (c : Nat) {user : TcpServer → TcpServer} (huser : ∀ u, P u → P (user u))
    (callback : Option CloseCallback) : P (s.closeComplete c user callback) := by
  rcases callback with _ | _ | callback
  · exact h
  · exact hP.connectionClosed h _ huser
  · exact hP.emit _ _ Action.noConfusion h

theorem closeHandle (c : Nat) (callback : Option CloseCallback) :
    P (s.closeHandle c callback) := by
  have hasked := hP.request s c callback h
  by_cases ho : (s.connection c).handle = .opened
  · rw [closeHandle_opened ho]
    exact hP.emit _ _ Action.noConfusion hasked
  · rw [closeHandle_closing ho]
    exact hP.closeComplete hasked c (fun _ hu => hu) callback

theorem closeConnection (name : String) : P (s.closeConnection name) := by
  unfold TcpServer.closeConnection
  split
  next c _ => exact hP.closeHandle h c _
  next => exact h

theorem onSocketClose (c : Nat) : P (s.onSocketClose c) := by
  unfold TcpServer.onSocketClose
  split
  next => exact hP.closeConnection h _
  next => exact h

theorem shutdownDone (c shutdowns : Nat) :
    P ({ s with shutdowns := Function.update s.shutdowns c shutdowns }.onSocketClose c) :=
  hP.onSocketClose (hP.shutdowns s _ h) c

theorem onMesageReceive (c : Nat) (input : Input) : P (s.onMesageReceive c input) := by
  have hgone := hP.gone s c h
  cases input with
  | data =>
    simp only [TcpServer.onMesageReceive]
    split
    next => exact hP.emit _ _ Action.noConfusion h
    next => exact h
  | error => exact hP.onSocketClose hgone c
  | eof accepted =>
    cases accepted with
    | true => exact hP.shutdowns _ _ hgone
    | false => exact hgone

end Stable

theorem stable_sound : Stable Sound where
  emit _ action _ hs := hs.emit action
  remove _ name hs := hs.remove name
  request _ c callback hs := hs.request c callback
  gone _ c hs := (quiet_setConnectStatus hs c).2
  shutdowns _ shutdowns hs := (quiet_setShutdowns hs shutdowns).2

namespace Sound
variable {s t : TcpServer}

theorem sweep (hs : Sound s) : Sound s.sweep := by
  have hstart : Sound { s with sweeping := true } := hs.congr rfl rfl rfl
  have hswept : Sound (s.connnections.entries.foldl (fun server entry => server.onSocketClose entry.2)
      { s with sweeping := true }) :=
    List.foldlRecOn _ _ hstart fun u hu entry _ => stable_sound.onSocketClose hu entry.2
  exact hswept.congr rfl rfl rfl

theorem onAcceptorClosed (hs : Sound s) (callback : Option Unit) :
    Sound (s.onAcceptorClosed callback) := by
  cases callback with
  | none => exact hs
  | some _ => exact hs.sweep

theorem close (hs : Sound s) : Sound s.close := by
  have hs' := (quiet_setAcceptor hs (s.accetper.close (some ())).1).2
  unfold TcpServer.close
  dsimp only
  split
  next => exact hs'.emit _
  next callback _ => exact hs'.onAcceptorClosed callback

theorem iterate_close (hs : Sound s) (n : Nat) : Sound (TcpServer.close^[n] s) := by
  induction n with
  | zero => exact hs
  | succ n ih =>
    rw [Function.iterate_succ_apply']
    exact ih.close

theorem onClosed (hs : Sound s) {c : Nat} (hc : (s.connection c).handle = .closing) (closes : Nat) :
    Sound (s.onClosed c closes) := by
  rw [onClosed_eq]
  exact stable_sound.closeComplete (hs.closed hc) c (fun _ hu => hu.iterate_close closes) _

/-- Soundness holds in every run. -/
theorem step (hs : Sound s) {event : Event} (ht : TcpServer.step s event = some t) : Sound t := by
  cases event with
  | accept name =>
    obtain ⟨-, ht⟩ := Option.ite_none_right_eq_some.mp ht
    exact Option.some.inj ht ▸ hs.accept name
  | read c input =>
    obtain ⟨-, ht⟩ := Option.ite_none_right_eq_some.mp ht
    exact Option.some.inj ht ▸ stable_sound.onMesageReceive hs c input
  | shutdownDone c =>
    obtain ⟨-, ht⟩ := Option.ite_none_right_eq_some.mp ht
    exact Option.some.inj ht ▸ stable_sound.shutdownDone hs c _
  | expire c =>
    obtain ⟨-, ht⟩ := Option.ite_none_right_eq_some.mp ht
    exact Option.some.inj ht ▸ stable_sound.onSocketClose hs c
  | acceptorClosed =>
    obtain ⟨-, ht⟩ := Option.ite_none_right_eq_some.mp ht
    exact Option.some.inj ht ▸ (quiet_setAcceptor hs _).2.onAcceptorClosed _
  | closed c closes =>
    obtain ⟨⟨hc, -⟩, ht⟩ := Option.ite_none_right_eq_some.mp ht
    exact Option.some.inj ht ▸ hs.onClosed hc closes
  | close => exact Option.some.inj ht ▸ hs.close
  | closeConnection name => exact Option.some.inj ht ▸ stable_sound.closeConnection hs name
  | closeByUser c callback =>
    obtain ⟨-, ht⟩ := Option.ite_none_right_eq_some.mp ht
    exact Option.some.inj ht ▸ stable_sound.closeHandle hs c _

end Sound

/-- `on_socket_close` of `c` closes `d`. -/
def Closes (s : TcpServer) (c d : Nat) : Prop :=
  (s.connection c).onConnectCloseCallback = true ∧ s.getConnection (s.connection c).name = some d

/-- Of the connections these are no longer open, and the names are what they were. -/
structure Shuts (gone : Nat → Prop) (s t : TcpServer) : Prop where
  accepted : t.accepted = s.accepted
  name : ∀ c, (t.connection c).name = (s.connection c).name
  opened : ∀ c, (t.connection c).handle = .opened ↔ (s.connection c).handle = .opened ∧ ¬ gone c

namespace Shuts
variable {gone : Nat → Prop} {s t : TcpServer}

theorem congr (hconn : t.connection = s.connection) (haccepted : t.accepted = s.accepted) :
    Shuts (fun _ => False) s t :=
  ⟨haccepted, fun c => by rw [hconn], fun c => by rw [hconn, not_false_eq_true, and_true]⟩

theorem setConnection {c : Nat} {connection : TcpConnection CloseCallback}
    (hn : connection.name = (s.connection c).name)
    (ho : connection.handle = .opened ↔ (s.connection c).handle = .opened) :
    Shuts (fun _ => False) s (s.setConnection c connection) := by
  refine ⟨rfl, fun d => ?_, fun d => ?_⟩
  · by_cases hd : d = c
    · rw [hd, setConnection_self, hn]
    · rw [setConnection_of_ne _ _ _ hd]
  · rw [not_false_eq_true, and_true]
    by_cases hd : d = c
    · rw [hd, setConnection_self, ho]
    · rw [setConnection_of_ne _ _ _ hd]

/-- What follows shuts nothing more. -/
theorem trans {u : TcpServer} (h : Shuts gone s t) (h' : Shuts (fun _ => False) t u) :
    Shuts gone s u := by
  refine ⟨h'.accepted.trans h.accepted, fun c => (h'.name c).trans (h.name c), fun c => ?_⟩
  rw [h'.opened, h.opened, not_false_eq_true, and_true]

theorem connectionClosed (s : TcpServer) (name : String) :
    Shuts (fun _ => False) s (s.connectionClosed name id) := by
  unfold TcpServer.connectionClosed
  split
  next c _ =>
    dsimp only
    split <;> exact .congr rfl rfl
  next => exact .congr rfl rfl

theorem closeComplete (s : TcpServer) (c : Nat) (callback : Option CloseCallback) :
    Shuts (fun _ => False) s (s.closeComplete c id callback) := by
  rcases callback with _ | _ | callback
  · exact .congr rfl rfl
  · exact connectionClosed s _
  · exact .congr rfl rfl

theorem closeHandle (s : TcpServer) (c : Nat) (callback : Option CloseCallback) :
    Shuts (· = c) s (s.closeHandle c callback) := by
  have hname := (close_connection_fields (s.connection c) callback).1
  by_cases ho : (s.connection c).handle = .opened
  · have hclosing : ((s.connection c).close callback).1.handle = .closing := by
      rw [TcpConnection.close_of_opened ho]
    rw [closeHandle_opened ho]
    refine ⟨rfl, fun d => ?_, fun d => ?_⟩
    · show ((s.setConnection c _).connection d).name = _
      by_cases hd : d = c
      · rw [hd, setConnection_self, hname]
      · rw [setConnection_of_ne _ _ _ hd]
    · show ((s.setConnection c _).connection d).handle = _ ↔ _
      by_cases hd : d = c
      · rw [hd, setConnection_self, hclosing]
        exact iff_of_false nofun fun h => h.2 rfl
      · rw [setConnection_of_ne _ _ _ hd]
        exact (and_iff_left hd).symm
  · have hsame : ((s.connection c).close callback).1.handle = (s.connection c).handle := by
      rw [TcpConnection.close_of_not_opened ho]
      rfl
    have hshuts : Shuts (fun _ => False) s (s.closeHandle c callback) := by
      rw [closeHandle_closing ho]
      exact (setConnection hname (by rw [hsame])).trans (closeComplete _ c callback)
    refine ⟨hshuts.accepted, hshuts.name, fun d => ?_⟩
    rw [hshuts.opened, not_false_eq_true, and_true, iff_self_and]
    rintro hd rfl
    exact ho hd

theorem onSocketClose (s : TcpServer) (c : Nat) : Shuts (s.Closes c) s (s.onSocketClose c) := by
  unfold TcpServer.onSocketClose
  split
  next hc =>
    unfold TcpServer.closeConnection
    split
    next d hf =>
      have hgone : s.Closes c = (· = d) := by
        funext e
        rw [Closes, hf, Option.some.injEq]
        exact propext ⟨fun h => h.2.symm, fun h => ⟨hc, h.symm⟩⟩
      exact hgone ▸ closeHandle s d _
    next hf =>
      have hgone : s.Closes c = fun _ => False := by
        funext e
        rw [Closes, hf]
        exact propext ⟨fun h => (nomatch h.2), False.elim⟩
      exact hgone ▸ .congr rfl rfl
  next hc =>
    have hgone : s.Closes c = fun _ => False := by
      funext e
      exact propext ⟨fun h => hc h.1, False.elim⟩
    exact hgone ▸ .congr rfl rfl

theorem onMesageReceive (s : TcpServer) (c : Nat) (input : Input) :
    Shuts (fun d => input = .error ∧ s.Closes c d) s (s.onMesageReceive c input) := by
  have hstatus : Shuts (fun _ => False) s
      (s.setConnection c ((s.connection c).setConnectStatus false)) := setConnection rfl Iff.rfl
  have hsame (h : Shuts (fun _ => False) s (s.onMesageReceive c input)) (hi : input ≠ .error) :
      Shuts (fun d => input = .error ∧ s.Closes c d) s (s.onMesageReceive c input) := by
    have hgone : (fun d => input = .error ∧ s.Closes c d) = fun _ => False :=
      funext fun d => propext ⟨fun h => hi h.1, False.elim⟩
    rwa [hgone]
  cases input with
  | data =>
    refine hsame ?_ Input.noConfusion
    simp only [TcpServer.onMesageReceive]
    split <;> exact .congr rfl rfl
  | eof accepted =>
    refine hsame ?_ Input.noConfusion
    cases accepted with
    | true => exact hstatus.trans (.congr rfl rfl)
    | false => exact hstatus
  | error =>
    have hclose := onSocketClose (s.setConnection c ((s.connection c).setConnectStatus false)) c
    have hcloses (d : Nat) : (s.setConnection c
        ((s.connection c).setConnectStatus false)).Closes c d ↔ s.Closes c d := by
      rw [Closes, setConnection_self]
      exact Iff.rfl
    refine ⟨hclose.accepted, fun d => (hclose.name d).trans (hstatus.name d), fun d => ?_⟩
    show ((TcpServer.onSocketClose _ c).connection d).handle = _ ↔ _
    rw [hclose.opened, hstatus.opened, hcloses, not_false_eq_true, and_true]
    exact and_congr_right fun _ => not_congr (and_iff_right rfl).symm

theorem onClosed {c : Nat} (hc : (s.connection c).handle = .closing) :
    Shuts (fun _ => False) s (s.onClosed c 0) := by
  rw [onClosed_eq]
  have hclosed : Shuts (fun _ => False) s (s.setConnection c (s.connection c).onClosed.1) := by
    refine setConnection rfl ?_
    rw [hc]
    exact iff_of_false nofun nofun
  exact hclosed.trans (closeComplete _ c _)

end Shuts

/-! What all operations keep, every event keeps but an accept. -/

structure Preserved (P : TcpServer → Prop) : Prop extends Stable P where
  acceptor : ∀ s acceptor, P s → P { s with accetper := acceptor }
  sweeping : ∀ s sweeping, P s → P { s with sweeping := sweeping }
  serverClosed : ∀ s, P s → P (s.emit .serverClosed)
  closed : ∀ s c, (s.connection c).handle = .closing → P s →
    P (s.setConnection c (s.connection c).onClosed.1)

namespace Preserved
variable {P : TcpServer → Prop} (hP : Preserved P) {s t : TcpServer} (h : P s)

include hP h

theorem sweep : P s.sweep := by
  have hswept : P (s.connnections.entries.foldl (fun server entry => server.onSocketClose entry.2)
      { s with sweeping := true }) :=
    List.foldlRecOn _ _ (hP.sweeping s true h) fun _ hu entry _ => hP.onSocketClose hu entry.2
  exact hP.serverClosed _ (hP.sweeping _ s.sweeping hswept)

theorem onAcceptorClosed (callback : Option Unit) : P (s.onAcceptorClosed callback) := by
  cases callback with
  | none => exact h
  | some _ => exact hP.sweep h

theorem close : P s.close := by
  have h' := hP.acceptor s (s.accetper.close (some ())).1 h
  unfold TcpServer.close
  dsimp only
  split
  next => exact hP.emit _ _ Action.noConfusion h'
  next callback _ => exact hP.onAcceptorClosed h' callback

theorem iterate_close (n : Nat) : P (TcpServer.close^[n] s) := by
  induction n with
  | zero => exact h
  | succ n ih =>
    rw [Function.iterate_succ_apply']
    exact hP.close ih

theorem onClosed {c : Nat} (hc : (s.connection c).handle = .closing) (closes : Nat) :
    P (s.onClosed c closes) := by
  rw [onClosed_eq]
  exact hP.closeComplete (hP.closed s c hc h) c (fun _ hu => hP.iterate_close hu closes) _

theorem step {event : Event} (ha : ∀ name, event = .accept name → P (s.onAccept name))
    (ht : TcpServer.step s event = some t) : P t := by
  cases event with
  | accept name =>
    obtain ⟨-, ht⟩ := Option.ite_none_right_eq_some.mp ht
    exact Option.some.inj ht ▸ ha name rfl
  | read c input =>
    obtain ⟨-, ht⟩ := Option.ite_none_right_eq_some.mp ht
    exact Option.some.inj ht ▸ hP.onMesageReceive h c input
  | shutdownDone c =>
    obtain ⟨-, ht⟩ := Option.ite_none_right_eq_some.mp ht
    exact Option.some.inj ht ▸ hP.shutdownDone h c _
  | expire c =>
    obtain ⟨-, ht⟩ := Option.ite_none_right_eq_some.mp ht
    exact Option.some.inj ht ▸ hP.onSocketClose h c
  | acceptorClosed =>
    obtain ⟨-, ht⟩ := Option.ite_none_right_eq_some.mp ht
    exact Option.some.inj ht ▸ hP.onAcceptorClosed (hP.acceptor s s.accetper.onClosed.1 h) _
  | closed c closes =>
    obtain ⟨⟨hc, -⟩, ht⟩ := Option.ite_none_right_eq_some.mp ht
    exact Option.some.inj ht ▸ hP.onClosed h hc closes
  | close => exact Option.some.inj ht ▸ hP.close h
  | closeConnection name => exact Option.some.inj ht ▸ hP.closeConnection h name
  | closeByUser c callback =>
    obtain ⟨-, ht⟩ := Option.ite_none_right_eq_some.mp ht
    exact Option.some.inj ht ▸ hP.closeHandle h c _

end Preserved

theorem preserved_accepted (n : Nat) : Preserved fun s => s.accepted = n :=
  ⟨⟨fun _ _ _ h => h, fun _ _ h => h, fun _ _ _ h => h, fun _ _ h => h, fun _ _ h => h⟩,
    fun _ _ h => h, fun _ _ h => h, fun _ h => h, fun _ _ _ h => h⟩

/-- A property of each connection by itself. -/
def Every (P : Nat → TcpConnection CloseCallback → Prop) (s : TcpServer) : Prop :=
  ∀ c, P c (s.connection c)

section every
variable {P : Nat → TcpConnection CloseCallback → Prop} {s : TcpServer}

theorem Every.setConnection (h : Every P s) {c : Nat} {connection : TcpConnection CloseCallback}
    (hc : P c connection) : Every P (s.setConnection c connection) := by
  intro d
  by_cases hd : d = c
  · rw [hd, setConnection_self]
    exact hc
  · rw [setConnection_of_ne _ _ _ hd]
    exact h d

theorem Every.accept (h : Every P s) {name : String} (hnew : P s.accepted (.new name)) :
    Every P (s.onAccept name) := by
  intro c
  rw [onAccept_connection]
  by_cases hc : c = s.accepted
  · rw [hc, Function.update_self]
    exact hnew
  · rw [Function.update_of_ne hc]
    exact h c

theorem preserved_every
    (hclose : ∀ c connection callback, P c connection → P c (connection.close callback).1)
    (hgone : ∀ c connection, P c connection → P c (connection.setConnectStatus false))
    (hclosed : ∀ c connection, connection.handle = .closing → P c connection →
      P c connection.onClosed.1) : Preserved (Every P) :=
  ⟨⟨fun _ _ _ h => h, fun _ _ h => h, fun _ c callback h => h.setConnection (hclose c _ callback (h c)),
      fun _ c h => h.setConnection (hgone c _ (h c)), fun _ _ h => h⟩,
    fun _ _ h => h, fun _ _ h => h, fun _ h => h, fun _ c hc h => h.setConnection (hclosed c _ hc (h c))⟩

end every

/-- A request to close leaves no connection open. -/
theorem close_handle_ne (connection : TcpConnection CloseCallback)
    (callback : Option CloseCallback) : (connection.close callback).1.handle ≠ .opened := by
  by_cases ho : connection.handle = .opened
  · rw [TcpConnection.close_of_opened ho]
    exact Phase.noConfusion
  · rw [TcpConnection.close_of_not_opened ho]
    exact ho

/-- An open connection has the server's callbacks. -/
def Called (_ : Nat) (connection : TcpConnection CloseCallback) : Prop :=
  connection.handle = .opened →
    connection.onMessageCallback = true ∧ connection.onConnectCloseCallback = true

theorem preserved_called : Preserved (Every Called) :=
  preserved_every (fun _ connection callback _ ho => absurd ho (close_handle_ne connection callback))
    (fun _ _ h => h) fun _ _ _ _ ho => Phase.noConfusion ho

/-- What is no longer open is never open again. -/
theorem preserved_shut (c : Nat) :
    Preserved (Every fun d connection => d = c → connection.handle ≠ .opened) :=
  preserved_every (fun _ connection callback _ _ => close_handle_ne connection callback)
    (fun _ _ h => h) fun _ _ _ _ _ ho => Phase.noConfusion ho

end AeProxy.TcpServer
