import AeProxy.Server.TcpServer

/-! The server's registry: a connection that is not closed yet is the one its own name finds, as
long as no name is accepted while its entry is still there and no close request hits a closing. -/
namespace AeProxy.TcpServer
open Lib

section fields
variable (s : TcpServer) (c : Nat) (connection : TcpConnection CloseCallback)

@[simp] theorem setConnection_self : (s.setConnection c connection).connection c = connection :=
  Function.update_self ..

theorem setConnection_of_ne {d : Nat} (h : d ≠ c) :
    (s.setConnection c connection).connection d = s.connection d := Function.update_of_ne h ..

end fields

/-- An entry is a connection of that name, connections not accepted yet count as closed, and a
connection that still has the server's callback has not been asked to close. -/
structure Sound (s : TcpServer) : Prop where
  entry : ∀ name c, s.getConnection name = some c →
    c < s.accepted ∧ (s.connection c).name = name
  unseen : ∀ c, s.accepted ≤ c → (s.connection c).handle = .closed
  callback : ∀ c, (s.connection c).onConnectCloseCallback = true → (s.connection c).handle = .opened

namespace Sound
variable {s t : TcpServer}

/-- Only the entries and the connections matter. -/
theorem congr (hs : Sound s) (hmap : t.connnections = s.connnections)
    (hconn : t.connection = s.connection) (haccepted : t.accepted = s.accepted) : Sound t where
  entry name c hf := by
    have hf' : s.getConnection name = some c := by
      rw [getConnection, ← hmap]
      exact hf
    rw [haccepted, hconn]
    exact hs.entry name c hf'
  unseen c hc := by
    rw [hconn]
    exact hs.unseen c (haccepted ▸ hc)
  callback := by
    rw [hconn]
    exact hs.callback

theorem emit (hs : Sound s) (action : Action) : Sound (s.emit action) := hs.congr rfl rfl rfl

end Sound

/-- Each connection that is not closed is what its own name finds. -/
def Registered (s : TcpServer) : Prop :=
  ∀ c, (s.connection c).handle ≠ .closed → s.getConnection (s.connection c).name = some c

/-- The name of an accepted peer has no entry, and `close_connection` finds no closing connection. -/
def Clear (s : TcpServer) : Event → Prop
  | .accept name => s.getConnection name = none
  | .closeConnection name =>
    ∀ c, s.getConnection name = some c → (s.connection c).handle ≠ .closing
  | _ => True

theorem sound_listening (onMessage onConnectClose : Bool) :
    Sound (listening onMessage onConnectClose) where
  entry name c h := by cases h
  unseen _ _ := rfl
  callback _ h := by cases h

theorem registered_listening (onMessage onConnectClose : Bool) :
    Registered (listening onMessage onConnectClose) := fun _ h => absurd rfl h

/-- The map, the names and what is closed are as before. -/
structure Quiet (s t : TcpServer) : Prop where
  connnections : t.connnections = s.connnections
  accepted : t.accepted = s.accepted
  name : ∀ c, (t.connection c).name = (s.connection c).name
  closed : ∀ c, (t.connection c).handle = .closed ↔ (s.connection c).handle = .closed

namespace Quiet
variable {s t u : TcpServer}

theorem refl (s : TcpServer) : Quiet s s := ⟨rfl, rfl, fun _ => rfl, fun _ => Iff.rfl⟩

theorem trans (h : Quiet s t) (h' : Quiet t u) : Quiet s u :=
  ⟨h'.connnections.trans h.connnections, h'.accepted.trans h.accepted,
    fun c => (h'.name c).trans (h.name c), fun c => (h'.closed c).trans (h.closed c)⟩

theorem congr (hmap : t.connnections = s.connnections) (hconn : t.connection = s.connection)
    (haccepted : t.accepted = s.accepted) : Quiet s t :=
  ⟨hmap, haccepted, fun c => by rw [hconn], fun c => by rw [hconn]⟩

theorem getConnection (h : Quiet s t) (name : String) :
    t.getConnection name = s.getConnection name := by
  rw [TcpServer.getConnection, h.connnections]
  rfl

theorem registered (h : Quiet s t) (hr : Registered s) : Registered t := by
  intro c hc
  rw [h.name, h.getConnection]
  exact hr c ((h.closed c).not.mp hc)

theorem emit (h : Quiet s t) (action : Action) : Quiet s (t.emit action) :=
  ⟨h.connnections, h.accepted, h.name, h.closed⟩

/-- Only the callbacks remain to be seen to. -/
theorem sound (h : Quiet s t) (hs : Sound s)
    (hcb : ∀ c, (t.connection c).onConnectCloseCallback = true →
      (t.connection c).handle = .opened) : Sound t where
  entry name c hf := by
    rw [h.getConnection] at hf
    rw [h.accepted, h.name]
    exact hs.entry name c hf
  unseen c hc := (h.closed c).mpr (hs.unseen c (h.accepted ▸ hc))
  callback := hcb

/-- A connection may be changed in all but its name and whether it is closed. -/
theorem setConnection {c : Nat} {connection : TcpConnection CloseCallback}
    (hn : connection.name = (s.connection c).name)
    (hc : connection.handle = .closed ↔ (s.connection c).handle = .closed) :
    Quiet s (s.setConnection c connection) where
  connnections := rfl
  accepted := rfl
  name d := by
    rcases eq_or_ne d c with rfl | hd
    · rw [setConnection_self, hn]
    · rw [setConnection_of_ne _ _ _ hd]
  closed d := by
    rcases eq_or_ne d c with rfl | hd
    · rw [setConnection_self, hc]
    · rw [setConnection_of_ne _ _ _ hd]

end Quiet

/-- `c` behind the request that closes it. -/
def closing (self : TcpServer) (c : Nat) (callback : Option CloseCallback) : TcpServer :=
  (self.setConnection c ((self.connection c).close callback).1).emit (.uvClose c)

section requests
variable {s : TcpServer} {c : Nat}

theorem close_connection_fields (connection : TcpConnection CloseCallback)
    (callback : Option CloseCallback) :
    (connection.close callback).1.name = connection.name ∧
      (connection.close callback).1.onConnectCloseCallback = false ∧
      (connection.close callback).1.onMessageCallback = false ∧
      (connection.close callback).1.closeCompleteCallback = callback := by
  unfold TcpConnection.close CloseSlot.close
  dsimp only
  split <;> exact ⟨rfl, rfl, rfl, rfl⟩

theorem closeHandle_opened (h : (s.connection c).handle = .opened)
    (callback : Option CloseCallback) : s.closeHandle c callback = s.closing c callback := by
  obtain ⟨-, -, heff⟩ := TcpConnection.closeSlot.close_opened h callback
  have heff' : ((s.connection c).close callback).2 = .uvClose := heff
  simp only [closeHandle, heff', closing]

theorem closeHandle_closing (h : (s.connection c).handle ≠ .opened)
    (callback : Option CloseCallback) : s.closeHandle c callback =
      (s.setConnection c ((s.connection c).close callback).1).closeComplete c id callback := by
  obtain ⟨-, -, heff⟩ := TcpConnection.closeSlot.close_closing h callback
  have heff' : ((s.connection c).close callback).2 = .complete callback := heff
  simp only [closeHandle, heff']

theorem close_handle_closed_iff (connection : TcpConnection CloseCallback)
    (callback : Option CloseCallback) :
    (connection.close callback).1.handle = .closed ↔ connection.handle = .closed := by
  rcases eq_or_ne connection.handle .opened with h | h
  · obtain ⟨hp, -⟩ := TcpConnection.closeSlot.close_opened (s := connection) h callback
    have hp' : (connection.close callback).1.handle = .closing := hp
    simp [hp', h]
  · obtain ⟨hp, -⟩ := TcpConnection.closeSlot.close_closing (s := connection) h callback
    have hp' : (connection.close callback).1.handle = connection.handle := hp
    rw [hp']

/-- Asking a connection to close, with whatever callback. -/
theorem quiet_request (s : TcpServer) (c : Nat) (callback : Option CloseCallback) :
    Quiet s (s.setConnection c ((s.connection c).close callback).1) :=
  .setConnection (close_connection_fields _ _).1 (close_handle_closed_iff _ _)

theorem Sound.request (hs : Sound s) (c : Nat) (callback : Option CloseCallback) :
    Sound (s.setConnection c ((s.connection c).close callback).1) := by
  apply (quiet_request s c callback).sound hs
  intro d hd
  rcases eq_or_ne d c with rfl | hne
  · rw [setConnection_self, (close_connection_fields _ _).2.1] at hd
    cases hd
  · rw [setConnection_of_ne _ _ _ hne] at hd ⊢
    exact hs.callback d hd

/-- Whatever calls `on_socket_close`, an open connection is asked to close, or nothing happens. -/
theorem onSocketClose_cases (hs : Sound s) (hr : Registered s) (c : Nat) :
    s.onSocketClose c = s ∨ ((s.connection c).handle = .opened ∧
      s.onSocketClose c = s.closing c (some .closeConnection)) := by
  unfold onSocketClose
  split
  · rename_i hcb
    have hopen := hs.callback c hcb
    refine .inr ⟨hopen, ?_⟩
    have hfind := hr c (by rw [hopen]; exact Phase.noConfusion)
    simp only [closeConnection, hfind, closeHandle_opened hopen]
  · exact .inl rfl

end requests

/-! A property that closing an open connection preserves is preserved by everything that calls
`on_socket_close`. -/

/-- Sound, registered, and whatever else is followed along. -/
structure Follows (P : TcpServer → Prop) (s : TcpServer) : Prop where
  sound : Sound s
  registered : Registered s
  also : P s

section triggers
variable {P : TcpServer → Prop} {s : TcpServer}
  (hP : ∀ s c, Follows P s → (s.connection c).handle = .opened →
    P (s.closing c (some .closeConnection)))

include hP

theorem Follows.onSocketClose (h : Follows P s) (c : Nat) : Follows P (s.onSocketClose c) := by
  rcases onSocketClose_cases h.sound h.registered c with he | ⟨hopen, he⟩
  · rwa [he]
  · have hsound := h.sound.request c (some .closeConnection)
    have hreg := (quiet_request s c (some .closeConnection)).registered h.registered
    rw [he]
    exact ⟨hsound.emit _, hreg, hP s c h hopen⟩

/-- The sweep as the closing of some connections, between the two that mark it. -/
theorem Follows.sweep (h : Follows P { s with sweeping := true }) :
    ∃ u, Follows P u ∧ s.sweep = { u with sweeping := s.sweeping }.emit .serverClosed := by
  refine ⟨_, ?_, rfl⟩
  apply List.foldlRecOn (motive := Follows P) _ _ h
  intro u hu entry _
  exact hu.onSocketClose hP entry.2

end triggers

section quiet
variable {s : TcpServer}

/-- Nothing is followed but that the registry is left alone. -/
theorem quiet_closing (s₀ : TcpServer) (s : TcpServer) (c : Nat) (h : Follows (Quiet s₀) s)
    (_ : (s.connection c).handle = .opened) : Quiet s₀ (s.closing c (some .closeConnection)) :=
  h.also.trans ((quiet_request s c _).emit _)

theorem quiet_onSocketClose (hs : Sound s) (hr : Registered s) (c : Nat) :
    Quiet s (s.onSocketClose c) ∧ Sound (s.onSocketClose c) := by
  have h := Follows.onSocketClose (quiet_closing s) ⟨hs, hr, .refl s⟩ c
  exact ⟨h.also, h.sound⟩

theorem quiet_sweep (hs : Sound s) (hr : Registered s) : Quiet s s.sweep ∧ Sound s.sweep := by
  have hq : Quiet s { s with sweeping := true } := .congr rfl rfl rfl
  obtain ⟨u, hu, he⟩ := Follows.sweep (quiet_closing s)
    ⟨hs.congr rfl rfl rfl, hq.registered hr, hq⟩
  rw [he]
  exact ⟨hu.also.trans (.congr rfl rfl rfl), hu.sound.congr rfl rfl rfl⟩

theorem quiet_setAcceptor (hs : Sound s) (acceptor : TcpAcceptor Unit) :
    Quiet s { s with accetper := acceptor } ∧ Sound { s with accetper := acceptor } :=
  ⟨.congr rfl rfl rfl, hs.congr rfl rfl rfl⟩

theorem quiet_setShutdowns (hs : Sound s) (shutdowns : Nat → Nat) :
    Quiet s { s with shutdowns := shutdowns } ∧ Sound { s with shutdowns := shutdowns } :=
  ⟨.congr rfl rfl rfl, hs.congr rfl rfl rfl⟩

theorem quiet_onAcceptorClosed (hs : Sound s) (hr : Registered s) (callback : Option Unit) :
    Quiet s (s.onAcceptorClosed callback) ∧ Sound (s.onAcceptorClosed callback) := by
  cases callback with
  | none => exact ⟨.refl s, hs⟩
  | some _ => exact quiet_sweep hs hr

theorem quiet_close (hs : Sound s) (hr : Registered s) : Quiet s s.close ∧ Sound s.close := by
  obtain ⟨hq, hs'⟩ := quiet_setAcceptor hs (s.accetper.close (some ())).1
  unfold close
  dsimp only
  split
  · exact ⟨hq.emit _, hs'.emit _⟩
  · rename_i callback _
    obtain ⟨hq', hs''⟩ := quiet_onAcceptorClosed hs' (hq.registered hr) callback
    exact ⟨hq.trans hq', hs''⟩

theorem quiet_iterate_close (hs : Sound s) (hr : Registered s) (n : Nat) :
    Quiet s (close^[n] s) ∧ Sound (close^[n] s) := by
  induction n with
  | zero => exact ⟨.refl s, hs⟩
  | succ n ih =>
    obtain ⟨hq, hs'⟩ := quiet_close ih.2 (ih.1.registered hr)
    rw [Function.iterate_succ_apply']
    exact ⟨ih.1.trans hq, hs'⟩

end quiet

/-! The steps that do change the registry: an accept and a completed closing. -/

section steps
variable {s t : TcpServer}

theorem onAccept_connection (s : TcpServer) (name : String) :
    (s.onAccept name).connection = Function.update s.connection s.accepted (.new name) := by
  unfold onAccept addConnection
  split <;> rfl

theorem onAccept_accepted (s : TcpServer) (name : String) :
    (s.onAccept name).accepted = s.accepted + 1 := by
  unfold onAccept addConnection
  split <;> rfl

theorem onAccept_log (s : TcpServer) (name : String) : (s.onAccept name).log = s.log := by
  unfold onAccept addConnection
  split <;> rfl

theorem onAccept_accetper (s : TcpServer) (name : String) :
    (s.onAccept name).accetper = s.accetper := by
  unfold onAccept addConnection
  split <;> rfl

theorem onAccept_sweeping (s : TcpServer) (name : String) :
    (s.onAccept name).sweeping = s.sweeping := by
  unfold onAccept addConnection
  split <;> rfl

/-- An entry that is there already stays as it is. -/
theorem onAccept_getConnection (s : TcpServer) (name name' : String) :
    (s.onAccept name).getConnection name' =
      if s.getConnection name = none ∧ name' = name then some s.accepted
      else s.getConnection name' := by
  rcases Option.eq_none_or_eq_some (s.getConnection name) with hf | ⟨d, hf⟩
  · have hadd : (s.onAccept name).connnections = s.connnections.insert name s.accepted :=
      congrArg connnections (if_pos hf)
    rw [getConnection, hadd]
    rcases eq_or_ne name' name with rfl | hne
    · rw [if_pos ⟨hf, rfl⟩]
      exact AList.lookup_insert _
    · rw [if_neg (fun h => hne h.2)]
      exact AList.lookup_insert_ne hne
  · have hnone : s.getConnection name ≠ none := by
      rw [hf]
      exact Option.some_ne_none d
    have hadd : s.onAccept name =
        { s.setConnection s.accepted (.new name) with accepted := s.accepted + 1 } := if_neg hnone
    rw [getConnection, hadd, if_neg (fun h => hnone h.1)]
    rfl

theorem removeConnection_getConnection (s : TcpServer) (name name' : String) :
    (s.removeConnection name).getConnection name' =
      if name' = name then none else s.getConnection name' := by
  split
  · rename_i he
    rw [he]
    exact AList.lookup_erase _ _
  · rename_i hne
    exact AList.lookup_erase_ne hne

theorem Sound.accept (hs : Sound s) (name : String) : Sound (s.onAccept name) where
  entry name' c hc := by
    rw [onAccept_getConnection] at hc
    rw [onAccept_accepted, onAccept_connection]
    split at hc
    · rename_i he
      obtain rfl : s.accepted = c := Option.some.inj hc
      rw [Function.update_self]
      exact ⟨Nat.lt_succ_self _, he.2.symm⟩
    · obtain ⟨hlt, hn⟩ := hs.entry name' c hc
      rw [Function.update_of_ne (Nat.ne_of_lt hlt)]
      exact ⟨Nat.lt_succ_of_lt hlt, hn⟩
  unseen c hc := by
    rw [onAccept_accepted] at hc
    rw [onAccept_connection, Function.update_of_ne (by omega)]
    exact hs.unseen c (by omega)
  callback c hc := by
    rw [onAccept_connection] at hc ⊢
    rcases eq_or_ne c s.accepted with rfl | hne
    · rw [Function.update_self]
      rfl
    · rw [Function.update_of_ne hne] at hc ⊢
      exact hs.callback c hc

theorem registered_accept_iff (hs : Sound s) (hr : Registered s) (name : String) :
    Registered (s.onAccept name) ↔ s.getConnection name = none := by
  constructor
  · intro h
    have hnew := h s.accepted (by rw [onAccept_connection, Function.update_self]; exact Phase.noConfusion)
    rw [onAccept_connection, Function.update_self, onAccept_getConnection] at hnew
    by_contra hf
    rw [if_neg (fun h => hf h.1)] at hnew
    exact Nat.lt_irrefl _ (hs.entry _ _ hnew).1
  · intro hf c hc
    rw [onAccept_connection] at hc ⊢
    rw [onAccept_getConnection]
    rcases eq_or_ne c s.accepted with rfl | hne
    · rw [Function.update_self]
      exact if_pos ⟨hf, rfl⟩
    · rw [Function.update_of_ne hne] at hc ⊢
      have hfound := hr c hc
      rw [if_neg, hfound]
      rintro ⟨-, he⟩
      rw [he, hf] at hfound
      cases hfound

/-- Removing the entry of a name keeps a sound server sound. -/
theorem Sound.remove (hs : Sound s) (name : String) : Sound (s.removeConnection name) where
  entry name' c hc := by
    rw [removeConnection_getConnection] at hc
    split at hc
    · cases hc
    · exact hs.entry name' c hc
  unseen := hs.unseen
  callback := hs.callback

/-- And a registered one registered, if the entry was that of a closed connection. -/
theorem Registered.remove (hr : Registered s) {name : String} {c : Nat}
    (hf : s.getConnection name = some c) (hc : (s.connection c).handle = .closed) :
    Registered (s.removeConnection name) := by
  intro d (hd : (s.connection d).handle ≠ .closed)
  have hfound := hr d hd
  rw [removeConnection_getConnection, if_neg]
  · exact hfound
  · intro (he : (s.connection d).name = name)
    rw [he, hf] at hfound
    obtain rfl : c = d := Option.some.inj hfound
    exact hd hc

/-- The lambda of `close_connection` for a name that finds a closed connection. -/
theorem connectionClosed_found {user : TcpServer → TcpServer} (hs : Sound s) (hr : Registered s)
    (huser : ∀ u, Sound u → Registered u → Quiet u (user u) ∧ Sound (user u)) {name : String}
    {c : Nat} (hf : s.getConnection name = some c) :
    ∃ u, Quiet s u ∧ Sound u ∧ s.connectionClosed name user = u.removeConnection name := by
  simp only [connectionClosed, hf]
  split
  · have hq : Quiet s (s.emit (.connectClose c)) := (Quiet.refl s).emit _
    obtain ⟨hu, hsu⟩ := huser (s.emit (.connectClose c)) (hs.emit _) (hq.registered hr)
    exact ⟨_, hq.trans hu, hsu, rfl⟩
  · exact ⟨s, .refl s, hs, rfl⟩

theorem registered_connectionClosed {user : TcpServer → TcpServer} (hs : Sound s)
    (hr : Registered s)
    (huser : ∀ u, Sound u → Registered u → Quiet u (user u) ∧ Sound (user u)) {name : String}
    {c : Nat} (hf : s.getConnection name = some c) (hc : (s.connection c).handle = .closed) :
    Sound (s.connectionClosed name user) ∧ Registered (s.connectionClosed name user) := by
  obtain ⟨u, hq, hsu, he⟩ := connectionClosed_found hs hr huser hf
  rw [he]
  exact ⟨hsu.remove name, (hq.registered hr).remove (hq.getConnection name ▸ hf)
    ((hq.closed c).mpr hc)⟩

/-- A handle that has been closed. -/
theorem Sound.closed (hs : Sound s) {c : Nat} (hc : (s.connection c).handle = .closing) :
    Sound (s.setConnection c (s.connection c).onClosed.1) where
  entry name d hd := by
    obtain ⟨hlt, hn⟩ := hs.entry name d hd
    refine ⟨hlt, ?_⟩
    rcases eq_or_ne d c with rfl | hne
    · rw [setConnection_self]
      exact hn
    · rw [setConnection_of_ne _ _ _ hne, hn]
  unseen d hd := by
    rcases eq_or_ne d c with rfl | hne
    · rw [setConnection_self]
      rfl
    · rw [setConnection_of_ne _ _ _ hne]
      exact hs.unseen d hd
  callback d hd := by
    rcases eq_or_ne d c with rfl | hne
    · rw [setConnection_self] at hd
      have hopen := hs.callback d hd
      rw [hc] at hopen
      cases hopen
    · rw [setConnection_of_ne _ _ _ hne] at hd ⊢
      exact hs.callback d hd

theorem Registered.closed (hr : Registered s) (c : Nat) :
    Registered (s.setConnection c (s.connection c).onClosed.1) := by
  intro d hd
  rcases eq_or_ne d c with rfl | hne
  · rw [setConnection_self] at hd
    exact absurd rfl hd
  · rw [setConnection_of_ne _ _ _ hne] at hd ⊢
    exact hr d hd

theorem onClosed_eq (s : TcpServer) (c closes : Nat) : s.onClosed c closes =
    (s.setConnection c (s.connection c).onClosed.1).closeComplete c close^[closes]
      (s.connection c).closeCompleteCallback := rfl

theorem settled_onClosed (hs : Sound s) (hr : Registered s) {c : Nat}
    (hc : (s.connection c).handle = .closing) (closes : Nat) :
    Sound (s.onClosed c closes) ∧ Registered (s.onClosed c closes) := by
  have hs' := hs.closed hc
  have hr' := hr.closed c
  rw [onClosed_eq]
  rcases (s.connection c).closeCompleteCallback with _ | _ | callback
  · exact ⟨hs', hr'⟩
  · have hfind : (s.setConnection c (s.connection c).onClosed.1).getConnection
        ((s.setConnection c (s.connection c).onClosed.1).connection c).name = some c := by
      rw [setConnection_self]
      exact hr c (by rw [hc]; exact Phase.noConfusion)
    apply registered_connectionClosed hs' hr' (fun u hu hru => quiet_iterate_close hu hru closes) hfind
    rw [setConnection_self]
    rfl
  · exact ⟨hs'.emit _, hr'⟩

/-- What a user asks of a single connection never reaches the registry. -/
theorem quiet_closeByUser (hs : Sound s) (c : Nat) (callback : Option Nat) :
    Quiet s (s.closeHandle c (callback.map .user)) ∧ Sound (s.closeHandle c (callback.map .user)) := by
  have hq := quiet_request s c (callback.map .user)
  have hs' := hs.request c (callback.map .user)
  rcases eq_or_ne (s.connection c).handle .opened with ho | ho
  · rw [closeHandle_opened ho]
    exact ⟨hq.emit _, hs'.emit _⟩
  · rw [closeHandle_closing ho]
    cases callback with
    | none => exact ⟨hq, hs'⟩
    | some k => exact ⟨hq.emit _, hs'.emit _⟩

/-- `close_connection` on a closing connection runs the lambda at once, and the entry is gone while
the connection is not closed yet. -/
theorem closeConnection_registry (hs : Sound s) (hr : Registered s) (name : String) :
    Sound (s.closeConnection name) ∧ (Registered (s.closeConnection name) ↔
      ∀ c, s.getConnection name = some c → (s.connection c).handle ≠ .closing) := by
  unfold closeConnection
  rcases hf : s.getConnection name with _ | c
  · exact ⟨hs, iff_of_true hr fun c hc => (by cases hc)⟩
  · have hq := quiet_request s c (some .closeConnection)
    have hs' := hs.request c (some .closeConnection)
    have hn : ((s.setConnection c
        ((s.connection c).close (some .closeConnection)).1).connection c).name = name := by
      rw [hq.name]
      exact (hs.entry name c hf).2
    have hclosed := close_handle_closed_iff (s.connection c) (some .closeConnection)
    simp only [Option.some.injEq, forall_eq']
    rcases eq_or_ne (s.connection c).handle .opened with ho | ho
    · rw [closeHandle_opened ho]
      exact ⟨hs'.emit _,
        iff_of_true ((hq.emit _).registered hr) (by rw [ho]; exact Phase.noConfusion)⟩
    · have huser (u : TcpServer) (hu : Sound u) (_ : Registered u) : Quiet u (id u) ∧ Sound (id u) :=
        ⟨.refl u, hu⟩
      have hf' : (s.setConnection c
          ((s.connection c).close (some .closeConnection)).1).getConnection name = some c := hf
      obtain ⟨u, hqu, hsu, he⟩ := connectionClosed_found hs' (hq.registered hr) huser hf'
      have hrun : s.closeHandle c (some .closeConnection) = u.removeConnection name := by
        rw [closeHandle_closing ho]
        exact (congrArg (fun n => connectionClosed _ n id) hn).trans he
      have hqs := hq.trans hqu
      rw [hrun]
      refine ⟨hsu.remove name, ?_, ?_⟩
      · intro hreg hclosing
        have hfound := hreg c (by
          show (u.connection c).handle ≠ .closed
          rw [Ne, hqs.closed, hclosing]
          exact Phase.noConfusion)
        have hnu : ((u.removeConnection name).connection c).name = name :=
          (hqs.name c).trans (hs.entry name c hf).2
        rw [removeConnection_getConnection, if_pos hnu] at hfound
        cases hfound
      · intro hne
        have hcl : (s.connection c).handle = .closed := by
          cases hh : (s.connection c).handle with
          | opened => exact absurd hh ho
          | closing => exact absurd hh hne
          | closed => rfl
        exact (hqs.registered hr).remove ((hqs.getConnection name).trans hf)
          ((hqs.closed c).mpr hcl)

theorem quiet_setConnectStatus (hs : Sound s) (c : Nat) :
    Quiet s (s.setConnection c ((s.connection c).setConnectStatus false)) ∧
      Sound (s.setConnection c ((s.connection c).setConnectStatus false)) := by
  have hq : Quiet s (s.setConnection c ((s.connection c).setConnectStatus false)) :=
    .setConnection rfl Iff.rfl
  refine ⟨hq, hq.sound hs fun d hd => ?_⟩
  rcases eq_or_ne d c with rfl | hne
  · rw [setConnection_self] at hd ⊢
    exact hs.callback d hd
  · rw [setConnection_of_ne _ _ _ hne] at hd ⊢
    exact hs.callback d hd

theorem quiet_onMesageReceive (hs : Sound s) (hr : Registered s) (c : Nat) (input : Input) :
    Quiet s (s.onMesageReceive c input) ∧ Sound (s.onMesageReceive c input) := by
  obtain ⟨hq, hs'⟩ := quiet_setConnectStatus hs c
  cases input with
  | data =>
    simp only [onMesageReceive]
    split
    · exact ⟨(Quiet.refl s).emit _, hs.emit _⟩
    · exact ⟨.refl s, hs⟩
  | error =>
    obtain ⟨hq', hs''⟩ := quiet_onSocketClose hs' (hq.registered hr) c
    exact ⟨hq.trans hq', hs''⟩
  | eof accepted =>
    cases accepted with
    | true =>
      obtain ⟨hq', hs''⟩ := quiet_setShutdowns hs' _
      exact ⟨hq.trans hq', hs''⟩
    | false => exact ⟨hq, hs'⟩

/-- The step lemma: an event keeps the connections registered exactly if it is clear. -/
theorem step_registry (hs : Sound s) (hr : Registered s) {event : Event}
    (ht : step s event = some t) : Sound t ∧ (Registered t ↔ Clear s event) := by
  have hquiet (hq : Quiet s t ∧ Sound t) (hc : Clear s event) :
      Sound t ∧ (Registered t ↔ Clear s event) :=
    ⟨hq.2, iff_of_true (hq.1.registered hr) hc⟩
  cases event with
  | accept name =>
    obtain ⟨-, ht⟩ := Option.ite_none_right_eq_some.mp ht
    cases ht
    exact ⟨hs.accept name, registered_accept_iff hs hr name⟩
  | read c input =>
    obtain ⟨-, ht⟩ := Option.ite_none_right_eq_some.mp ht
    cases ht
    exact hquiet (quiet_onMesageReceive hs hr c input) trivial
  | shutdownDone c =>
    obtain ⟨-, ht⟩ := Option.ite_none_right_eq_some.mp ht
    cases ht
    obtain ⟨hq, hs'⟩ := quiet_setShutdowns hs (Function.update s.shutdowns c (s.shutdowns c - 1))
    obtain ⟨hq', hs''⟩ := quiet_onSocketClose hs' (hq.registered hr) c
    exact hquiet ⟨hq.trans hq', hs''⟩ trivial
  | expire c =>
    obtain ⟨-, ht⟩ := Option.ite_none_right_eq_some.mp ht
    cases ht
    exact hquiet (quiet_onSocketClose hs hr c) trivial
  | acceptorClosed =>
    obtain ⟨-, ht⟩ := Option.ite_none_right_eq_some.mp ht
    cases ht
    obtain ⟨hq, hs'⟩ := quiet_setAcceptor hs s.accetper.onClosed.1
    obtain ⟨hq', hs''⟩ := quiet_onAcceptorClosed hs' (hq.registered hr) s.accetper.onClosed.2
    exact hquiet ⟨hq.trans hq', hs''⟩ trivial
  | closed c closes =>
    obtain ⟨⟨hc, -⟩, ht⟩ := Option.ite_none_right_eq_some.mp ht
    cases ht
    obtain ⟨hs', hr'⟩ := settled_onClosed hs hr hc closes
    exact ⟨hs', iff_of_true hr' trivial⟩
  | close =>
    cases ht
    exact hquiet (quiet_close hs hr) trivial
  | closeConnection name =>
    cases ht
    exact closeConnection_registry hs hr name
  | closeByUser c callback =>
    obtain ⟨-, ht⟩ := Option.ite_none_right_eq_some.mp ht
    cases ht
    exact hquiet (quiet_closeByUser hs c callback) trivial

end steps

/-- In every run: each state reached has every connection that is not closed registered under its
name exactly if no step accepts a name that still has an entry, or closes by name a connection
that is closing. -/
theorem registered_iff_clear (onMessage onConnectClose : Bool) (events : List Event)
    {t : TcpServer} (ht : step.run (listening onMessage onConnectClose) events = some t) :
    (∀ before later u, events = before ++ later →
      step.run (listening onMessage onConnectClose) before = some u → Registered u) ↔
    step.Throughout Clear (listening onMessage onConnectClose) events :=
  Step.prefixes_iff_throughout (I := Sound) (fun _ _ _ hs hr _ ht => (step_registry hs hr ht).1)
    (fun _ _ _ hs hr ht => (step_registry hs hr ht).2) (sound_listening onMessage onConnectClose)
    (registered_listening onMessage onConnectClose) ht

/-- A peer that comes back once its connection has been closed. -/
theorem registered_iff_clear_returning :
    let events := [Event.accept "10.0.0.1:4000", .read 0 .error, .closed 0 0,
      .accept "10.0.0.1:4000"]
    (∀ before later u, events = before ++ later →
      step.run (listening true true) before = some u → Registered u) ↔
    step.Throughout Clear (listening true true) events :=
  registered_iff_clear true true _ rfl

/-- A peer that comes back while its connection is still closing. -/
theorem not_registered_reused : ∃ u, step.run (listening true true)
    [.accept "10.0.0.1:4000", .read 0 .error, .accept "10.0.0.1:4000"] = some u ∧
      ¬ Registered u := by
  refine ⟨_, rfl, fun h => ?_⟩
  have hfound : some 0 = some 1 := h 1 Phase.noConfusion
  cases hfound

end AeProxy.TcpServer
