import AeProxy.Server.Entries

/-! Connections whose peer has gone: the server asks libuv to shut down its side as well, and closes
behind that. -/
namespace AeProxy.TcpServer
open Lib

/-- No open connection has lost its peer, but for those libuv is shutting down. -/
def Attended (s : TcpServer) : Prop :=
  ∀ c, (s.connection c).connected = false → (s.connection c).handle = .opened → 0 < s.shutdowns c

/-- A request to shut down is granted, or not needed. -/
def Granted (s : TcpServer) : Event → Prop
  | .read c (.eof false) => (s.connection c).handle = .opened → 0 < s.shutdowns c
  | _ => True

/-- No connection is opened, or loses its peer. -/
structure Calm (s t : TcpServer) : Prop where
  connected : ∀ c, (t.connection c).connected = (s.connection c).connected
  opened : ∀ c, (t.connection c).handle = .opened → (s.connection c).handle = .opened
  shutdowns : t.shutdowns = s.shutdowns

namespace Calm
variable {s t u : TcpServer}

theorem refl (s : TcpServer) : Calm s s := ⟨fun _ => rfl, fun _ h => h, rfl⟩

theorem trans (h : Calm s t) (h' : Calm t u) : Calm s u :=
  ⟨fun c => (h'.connected c).trans (h.connected c), fun c ho => h.opened c (h'.opened c ho),
    h'.shutdowns.trans h.shutdowns⟩

theorem congr (hconn : t.connection = s.connection) (hshutdowns : t.shutdowns = s.shutdowns) :
    Calm s t :=
  ⟨fun c => by rw [hconn], fun c => by rw [hconn]; exact fun h => h, hshutdowns⟩

theorem attended (h : Calm s t) (hs : Attended s) : Attended t := by
  intro c hgone ho
  rw [h.shutdowns]
  exact hs c (h.connected c ▸ hgone) (h.opened c ho)

theorem setConnection {c : Nat} {connection : TcpConnection CloseCallback}
    (hc : connection.connected = (s.connection c).connected)
    (ho : connection.handle = .opened → (s.connection c).handle = .opened) :
    Calm s (s.setConnection c connection) := by
  refine ⟨fun d => ?_, fun d => ?_, rfl⟩
  · by_cases hd : d = c
    · rw [hd, setConnection_self, hc]
    · rw [setConnection_of_ne _ _ _ hd]
  · by_cases hd : d = c
    · rw [hd, setConnection_self]
      exact ho
    · rw [setConnection_of_ne _ _ _ hd]
      exact fun h => h

theorem request (s : TcpServer) (c : Nat) (callback : Option CloseCallback) :
    Calm s (s.setConnection c ((s.connection c).close callback).1) := by
  apply setConnection
  · by_cases ho : (s.connection c).handle = .opened
    · rw [TcpConnection.close_of_opened ho]
      rfl
    · rw [TcpConnection.close_of_not_opened ho]
      rfl
  · intro h
    exact absurd h (close_handle_ne (s.connection c) callback)

/-- What `onSocketClose` does to an open connection. -/
theorem closing (s₀ s : TcpServer) (c : Nat) (h : Follows (Calm s₀) s)
    (_ : (s.connection c).handle = .opened) : Calm s₀ (s.closing c (some .closeConnection)) :=
  (h.also.trans (request s c _)).trans (.congr rfl rfl)

theorem onSocketClose (hs : Sound s) (hr : Registered s) (c : Nat) :
    Calm s (s.onSocketClose c) :=
  (Follows.onSocketClose (closing s) ⟨hs, hr, refl s⟩ c).also

theorem sweep (hs : Sound s) (hr : Registered s) : Calm s s.sweep := by
  have hq : Quiet s { s with sweeping := true } := .congr rfl rfl rfl
  obtain ⟨u, hu, he⟩ := Follows.sweep (closing s)
    ⟨hs.congr rfl rfl rfl, hq.registered hr, congr rfl rfl⟩
  rw [he]
  exact hu.also.trans (.congr rfl rfl)

theorem onAcceptorClosed (hs : Sound s) (hr : Registered s) (callback : Option Unit) :
    Calm s (s.onAcceptorClosed callback) := by
  cases callback with
  | none => exact refl s
  | some _ => exact sweep hs hr

theorem close (hs : Sound s) (hr : Registered s) : Calm s s.close := by
  obtain ⟨hq, hs'⟩ := quiet_setAcceptor hs (s.accetper.close (some ())).1
  have hc : Calm s { s with accetper := (s.accetper.close (some ())).1 } := congr rfl rfl
  unfold TcpServer.close
  dsimp only
  split
  next => exact hc.trans (.congr rfl rfl)
  next callback _ => exact hc.trans (onAcceptorClosed hs' (hq.registered hr) callback)

theorem iterate_close (hs : Sound s) (hr : Registered s) (n : Nat) :
    Calm s (TcpServer.close^[n] s) := by
  induction n with
  | zero => exact refl s
  | succ n ih =>
    obtain ⟨hq, hs'⟩ := quiet_iterate_close hs hr n
    rw [Function.iterate_succ_apply']
    exact ih.trans (close hs' (hq.registered hr))

theorem closeComplete (c : Nat) {user : TcpServer → TcpServer}
    (huser : ∀ d, Calm s (user (s.emit (.connectClose d)))) (callback : Option CloseCallback) :
    Calm s (s.closeComplete c user callback) := by
  rcases callback with _ | _ | callback
  · exact refl s
  · show Calm s (s.connectionClosed (s.connection c).name user)
    unfold TcpServer.connectionClosed
    split
    next d _ =>
      dsimp only
      split
      next => exact (huser d).trans (.congr rfl rfl)
      next => exact .congr rfl rfl
    next => exact refl s
  · exact .congr rfl rfl

theorem closeHandle (s : TcpServer) (c : Nat) (callback : Option CloseCallback) :
    Calm s (s.closeHandle c callback) := by
  have hasked := request s c callback
  by_cases ho : (s.connection c).handle = .opened
  · rw [closeHandle_opened ho]
    exact hasked.trans (.congr rfl rfl)
  · rw [closeHandle_closing ho]
    exact hasked.trans (closeComplete c (fun _ => .congr rfl rfl) callback)

theorem closeConnection (s : TcpServer) (name : String) : Calm s (s.closeConnection name) := by
  unfold TcpServer.closeConnection
  split
  next c _ => exact closeHandle s c _
  next => exact refl s

/-- The user may close the server at the end of a closing. -/
theorem onClosed (hs : Sound s) (hr : Registered s) {c : Nat}
    (hc : (s.connection c).handle = .closing) (closes : Nat) : Calm s (s.onClosed c closes) := by
  have hclosed : Calm s (s.setConnection c (s.connection c).onClosed.1) := setConnection rfl nofun
  rw [onClosed_eq]
  refine hclosed.trans (closeComplete c (fun d => ?_) _)
  have hs' := (hs.closed hc).emit (.connectClose d)
  have hr' : Registered ((s.setConnection c (s.connection c).onClosed.1).emit (.connectClose d)) :=
    hr.closed c
  have hemit : Calm (s.setConnection c (s.connection c).onClosed.1)
      ((s.setConnection c (s.connection c).onClosed.1).emit (.connectClose d)) := congr rfl rfl
  exact hemit.trans (iterate_close hs' hr' closes)

end Calm

section step
variable {s t : TcpServer}

/-- Where it is registered, `on_socket_close` closes the connection. -/
theorem onSocketClose_shuts (hr : Registered s) (hc : Every Called s) (c : Nat) :
    ((s.onSocketClose c).connection c).handle ≠ .opened := by
  rw [Ne, (Shuts.onSocketClose s c).opened]
  rintro ⟨ho, hn⟩
  refine hn ⟨(hc c ho).2, hr c ?_⟩
  rw [ho]
  exact Phase.noConfusion

/-- The peer of one connection has gone, and what follows is calm. -/
theorem attended_of_gone {u : TcpServer} {c : Nat} (h : Attended s) (hcalm : Calm u t)
    (hu : u.connection = Function.update s.connection c ((s.connection c).setConnectStatus false))
    (hshutdowns : ∀ d, d ≠ c → u.shutdowns d = s.shutdowns d) :
    Attended t ↔ ((t.connection c).handle = .opened → 0 < u.shutdowns c) := by
  have hgone : (t.connection c).connected = false := by
    rw [hcalm.connected, hu, Function.update_self]
    rfl
  constructor
  · intro ht ho
    rw [← hcalm.shutdowns]
    exact ht c hgone ho
  · intro hc d hd ho
    rw [hcalm.shutdowns]
    by_cases hdc : d = c
    · subst hdc
      exact hc ho
    · have hopen := hcalm.opened d ho
      rw [hcalm.connected, hu, Function.update_of_ne hdc] at hd
      rw [hu, Function.update_of_ne hdc] at hopen
      rw [hshutdowns d hdc]
      exact h d hd hopen

theorem attended_read (h : Attended s) (hs : Sound s) (hr : Registered s) (hcalled : Every Called s)
    (c : Nat) (input : Input) :
    Attended (s.onMesageReceive c input) ↔ Granted s (.read c input) := by
  obtain ⟨hq, hs'⟩ := quiet_setConnectStatus hs c
  cases input with
  | data =>
    refine iff_of_true ?_ trivial
    simp only [onMesageReceive]
    split <;> exact h
  | error =>
    have hcalled' : Every Called (s.setConnection c ((s.connection c).setConnectStatus false)) :=
      preserved_called.gone s c hcalled
    have hcalm := Calm.onSocketClose hs' (hq.registered hr) c
    refine iff_of_true ((attended_of_gone h hcalm rfl fun _ _ => rfl).mpr fun ho => ?_) trivial
    exact absurd ho (onSocketClose_shuts (hq.registered hr) hcalled' c)
  | eof accepted =>
    cases accepted with
    | true =>
      refine iff_of_true ((attended_of_gone h (.refl _) rfl fun d hd => ?_).mpr fun _ => ?_) trivial
      · exact Function.update_of_ne hd ..
      · show 0 < Function.update s.shutdowns c (s.shutdowns c + 1) c
        rw [Function.update_self]
        exact Nat.succ_pos _
    | false =>
      have hiff := attended_of_gone h
        (Calm.refl (s.setConnection c ((s.connection c).setConnectStatus false))) rfl fun _ _ => rfl
      rwa [setConnection_self] at hiff

/-- The shutdown of one connection has been completed. -/
theorem attended_shutdownDone (h : Attended s) (hs : Sound s) (hr : Registered s)
    (hcalled : Every Called s) (c : Nat) :
    Attended ({ s with
      shutdowns := Function.update s.shutdowns c (s.shutdowns c - 1) }.onSocketClose c) := by
  obtain ⟨hq, hs'⟩ := quiet_setShutdowns hs (Function.update s.shutdowns c (s.shutdowns c - 1))
  have hcalm := Calm.onSocketClose hs' (hq.registered hr) c
  intro d hd ho
  have hdc : d ≠ c := by
    rintro rfl
    exact onSocketClose_shuts (hq.registered hr) hcalled d ho
  rw [hcalm.shutdowns]
  show 0 < Function.update s.shutdowns c (s.shutdowns c - 1) d
  rw [Function.update_of_ne hdc]
  exact h d ((hcalm.connected d).symm.trans hd) (hcalm.opened d ho)

/-- An event leaves no open connection behind its peer exactly if it is granted. -/
theorem attended_step (h : Attended s) (hs : Sound s) (hr : Registered s) (hcalled : Every Called s)
    {event : Event} (ht : step s event = some t) : Attended t ↔ Granted s event := by
  have hcalm (hc : Calm s t) (hg : Granted s event) : Attended t ↔ Granted s event :=
    iff_of_true (hc.attended h) hg
  cases event with
  | accept name =>
    obtain ⟨-, ht⟩ := Option.ite_none_right_eq_some.mp ht
    obtain rfl := Option.some.inj ht
    refine iff_of_true (fun c hgone ho => ?_) trivial
    have hshutdowns : (s.onAccept name).shutdowns = s.shutdowns := by
      unfold onAccept addConnection
      split <;> rfl
    rw [onAccept_connection] at hgone ho
    rw [hshutdowns]
    by_cases hc : c = s.accepted
    · subst hc
      rw [Function.update_self] at hgone
      cases hgone
    · rw [Function.update_of_ne hc] at hgone ho
      exact h c hgone ho
  | read c input =>
    obtain ⟨-, ht⟩ := Option.ite_none_right_eq_some.mp ht
    obtain rfl := Option.some.inj ht
    exact attended_read h hs hr hcalled c input
  | shutdownDone c =>
    obtain ⟨-, ht⟩ := Option.ite_none_right_eq_some.mp ht
    obtain rfl := Option.some.inj ht
    exact iff_of_true (attended_shutdownDone h hs hr hcalled c) trivial
  | expire c =>
    obtain ⟨-, ht⟩ := Option.ite_none_right_eq_some.mp ht
    obtain rfl := Option.some.inj ht
    exact hcalm (.onSocketClose hs hr c) trivial
  | acceptorClosed =>
    obtain ⟨-, ht⟩ := Option.ite_none_right_eq_some.mp ht
    obtain rfl := Option.some.inj ht
    obtain ⟨hq, hs'⟩ := quiet_setAcceptor hs s.accetper.onClosed.1
    have hset : Calm s { s with accetper := s.accetper.onClosed.1 } := .congr rfl rfl
    exact hcalm (hset.trans (.onAcceptorClosed hs' (hq.registered hr) _)) trivial
  | closed c closes =>
    obtain ⟨⟨hc, -⟩, ht⟩ := Option.ite_none_right_eq_some.mp ht
    obtain rfl := Option.some.inj ht
    exact hcalm (.onClosed hs hr hc closes) trivial
  | close =>
    obtain rfl := Option.some.inj ht
    exact hcalm (.close hs hr) trivial
  | closeConnection name =>
    obtain rfl := Option.some.inj ht
    exact hcalm (.closeConnection s name) trivial
  | closeByUser c callback =>
    obtain ⟨-, ht⟩ := Option.ite_none_right_eq_some.mp ht
    obtain rfl := Option.some.inj ht
    exact hcalm (.closeHandle s c _) trivial

end step

/-- In every run: each state reached has every connection that is not closed registered, and has
closed every connection whose peer has gone, or awaits the shutdown of it, exactly if every step is
clear, and no request to shut down an open connection is refused. -/
theorem attended_iff_granted (onMessage onConnectClose : Bool) (events : List Event)
    {t : TcpServer} (ht : step.run (listening onMessage onConnectClose) events = some t) :
    (∀ before later u, events = before ++ later →
      step.run (listening onMessage onConnectClose) before = some u → Registered u ∧ Attended u) ↔
    step.Throughout (fun s event => Clear s event ∧ Granted s event)
      (listening onMessage onConnectClose) events := by
  refine Step.prefixes_iff_throughout (I := fun s => Sound s ∧ Every Called s)
    (P := fun s => Registered s ∧ Attended s) ?_ ?_
    ⟨sound_listening onMessage onConnectClose, fun _ ho => Phase.noConfusion ho⟩
    ⟨registered_listening onMessage onConnectClose, fun _ _ ho => Phase.noConfusion ho⟩ ht
  · rintro s event t ⟨hs, hcalled⟩ - - ht
    exact ⟨hs.step ht, preserved_called.step hcalled
      (fun name _ => hcalled.accept fun _ => ⟨rfl, rfl⟩) ht⟩
  · rintro s event t ⟨hs, hcalled⟩ ⟨hr, h⟩ ht
    exact and_congr (step_registry hs hr ht).2 (attended_step h hs hr hcalled ht)

/-- A peer that closes, and one that breaks off. -/
theorem attended_iff_granted_gone :
    ∃ t, step.run (listening true true) [.accept "10.0.0.1:4000", .accept "10.0.0.2:4000",
      .read 0 (.eof true), .read 1 .error, .shutdownDone 0, .closed 0 0] = some t ∧
        Registered t ∧ Attended t := by
  have hall := (attended_iff_granted true true [.accept "10.0.0.1:4000", .accept "10.0.0.2:4000",
    .read 0 (.eof true), .read 1 .error, .shutdownDone 0, .closed 0 0] rfl).mpr
    (.cons ⟨rfl, trivial⟩ rfl (.cons ⟨rfl, trivial⟩ rfl (.cons ⟨trivial, trivial⟩ rfl
      (.cons ⟨trivial, trivial⟩ rfl (.cons ⟨trivial, trivial⟩ rfl
        (.cons ⟨trivial, trivial⟩ rfl trivial))))))
  exact ⟨_, rfl, hall _ [] _ (List.append_nil _).symm rfl⟩

end AeProxy.TcpServer
