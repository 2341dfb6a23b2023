import AeProxy.Proxy.Relay

/-! What the server of the proxy still keeps of a client whose connection is closed. -/
namespace AeProxy.TcpServer
open Lib

/-- The user has heard that the connection is closed, if there is one to hear. -/
def Told (s : TcpServer) (c : Nat) : Prop :=
  s.onConnectCloseCallback = true → .connectClose c ∈ s.log

/-- Nothing is kept of the connection, and the user knows. -/
structure Forgotten (s : TcpServer) (c : Nat) : Prop where
  entry : ∀ name, s.getConnection name ≠ some c
  told : s.Told c

/-- A closing ends in the lambda of `close_connection`, until which the connection has its entry. -/
structure Kept (s : TcpServer) : Prop where
  sound : Sound s
  slot : ∀ c, (s.connection c).handle = .closing →
    (s.connection c).closeCompleteCallback = some .closeConnection
  entry : ∀ c, c < s.accepted → (s.connection c).handle ≠ .opened →
    s.getConnection (s.connection c).name = some c ∨ s.Told c
  gone : ∀ c, (s.connection c).handle = .closed → s.getConnection (s.connection c).name ≠ some c

section kept
variable {s t : TcpServer}

theorem Kept.forgotten (h : Kept s) {c : Nat} (hc : c < s.accepted)
    (hclosed : (s.connection c).handle = .closed) : Forgotten s c := by
  have hgone := h.gone c hclosed
  refine ⟨fun name hf => hgone ?_, ?_⟩
  · rw [(h.sound.entry name c hf).2]
    exact hf
  · exact (h.entry c hc (by rw [hclosed]; exact nofun)).resolve_left hgone

theorem kept_listening (onMessage onConnectClose : Bool) :
    Kept (listening onMessage onConnectClose) :=
  ⟨sound_listening onMessage onConnectClose, nofun, nofun, nofun⟩

/-- At most, connections that have their entries are asked to close. -/
theorem Kept.congr (h : Kept s) (hs : Sound t) (hmap : t.connnections = s.connnections)
    (haccepted : t.accepted = s.accepted) (hold : ∀ c, s.Told c → t.Told c)
    (hname : ∀ c, (t.connection c).name = (s.connection c).name)
    (hhandle : ∀ c, (t.connection c).handle = (s.connection c).handle ∨
      (t.connection c).handle = .closing ∧ s.getConnection (s.connection c).name = some c)
    (hslot : ∀ c, (t.connection c).handle = .closing →
      (t.connection c).closeCompleteCallback = some .closeConnection) : Kept t := by
  have hget (name : String) : t.getConnection name = s.getConnection name :=
    congrArg (AList.lookup name) hmap
  refine ⟨hs, hslot, fun c hc ho => ?_, fun c hc => ?_⟩
  · rw [hname, hget]
    rcases hhandle c with he | ⟨-, hf⟩
    · exact (h.entry c (haccepted ▸ hc) (he ▸ ho)).imp_right (hold c)
    · exact .inl hf
  · rw [hname, hget]
    rcases hhandle c with he | ⟨he, -⟩
    · exact h.gone c (he ▸ hc)
    · exact Phase.noConfusion (hc.symm.trans he)

theorem Kept.emit (h : Kept s) (action : Action) : Kept (s.emit action) :=
  h.congr (h.sound.emit action) rfl rfl
    (fun _ ht hcb => List.mem_append_left _ (ht hcb)) (fun _ => rfl) (fun _ => .inl rfl) h.slot

theorem connectionClosed_told {name : String} {d : Nat} (hf : s.getConnection name = some d)
    {c : Nat} (h : s.Told c ∨ c = d) : (s.connectionClosed name id).Told c := by
  simp only [connectionClosed, hf, id_eq]
  split
  next hcb =>
    intro _
    apply List.mem_append_left
    rcases h with ht | rfl
    · exact List.mem_append_left _ (ht hcb)
    · exact List.mem_append_right _ (List.mem_singleton.mpr rfl)
  next hcb => exact fun hcb' => absurd hcb' hcb

theorem connectionClosed_getConnection {name : String} {d : Nat}
    (hf : s.getConnection name = some d) (name' : String) :
    (s.connectionClosed name id).getConnection name' =
      if name' = name then none else s.getConnection name' := by
  simp only [connectionClosed, hf, id_eq]
  rw [removeConnection_getConnection]
  split
  next => rfl
  next => split <;> rfl

theorem connectionClosed_connection (s : TcpServer) (name : String) :
    (s.connectionClosed name id).connection = s.connection := by
  unfold connectionClosed
  split
  next => dsimp only; split <;> rfl
  next => rfl

/-- The lambda takes the entry of a connection that may be closed already. -/
theorem kept_connectionClosed (hs : Sound s) {name : String}
    (hslot : ∀ c, (s.connection c).handle = .closing →
      (s.connection c).closeCompleteCallback = some .closeConnection)
    (hentry : ∀ c, c < s.accepted → (s.connection c).handle ≠ .opened →
      s.getConnection (s.connection c).name = some c ∨ s.Told c)
    (hgone : ∀ c, (s.connection c).handle = .closed → (s.connection c).name ≠ name →
      s.getConnection (s.connection c).name ≠ some c) : Kept (s.connectionClosed name id) := by
  have hsound : Sound (s.connectionClosed name id) := stable_sound.connectionClosed hs name fun _ hu => hu
  have haccepted := (Shuts.connectionClosed s name).accepted
  have hconn := connectionClosed_connection s name
  rcases Option.eq_none_or_eq_some (s.getConnection name) with hf | ⟨d, hf⟩
  · have hsame : s.connectionClosed name id = s := by simp only [connectionClosed, hf]
    rw [hsame]
    refine ⟨hs, hslot, hentry, fun c hc hfc => ?_⟩
    by_cases hn : (s.connection c).name = name
    · rw [hn, hf] at hfc
      cases hfc
    · exact hgone c hc hn hfc
  · refine ⟨hsound, hconn ▸ hslot, fun c hc ho => ?_, fun c hc hfc => ?_⟩
    · rw [hconn] at ho ⊢
      rw [connectionClosed_getConnection hf]
      rcases hentry c (haccepted ▸ hc) ho with hfc | ht
      · split
        next hn =>
          rw [hn, hf] at hfc
          exact .inr (connectionClosed_told hf (.inr (Option.some.inj hfc).symm))
        next => exact .inl hfc
      · exact .inr (connectionClosed_told hf (.inl ht))
    · rw [hconn] at hc hfc
      rw [connectionClosed_getConnection hf] at hfc
      split at hfc
      next => cases hfc
      next hn => exact hgone c hc hn hfc

/-- A close request finds the connection of an entry open or closing. -/
theorem Kept.closeConnection (h : Kept s) (name : String) : Kept (s.closeConnection name) := by
  rcases Option.eq_none_or_eq_some (s.getConnection name) with hf | ⟨c, hf⟩
  · simpa only [TcpServer.closeConnection, hf] using h
  have hname := (quiet_request s c (some .closeConnection)).name
  have hfc : s.getConnection (s.connection c).name = some c := by
    rw [(h.sound.entry name c hf).2, hf]
  have hclosing : ((s.connection c).close (some .closeConnection)).1.handle = .closing := by
    cases hh : (s.connection c).handle with
    | opened => rw [TcpConnection.close_of_opened hh]
    | closing =>
      rw [TcpConnection.close_of_not_opened (by rw [hh]; exact Phase.noConfusion)]
      exact hh
    | closed => exact absurd hfc (h.gone c hh)
  have hasked : Kept (s.setConnection c ((s.connection c).close (some .closeConnection)).1) := by
    refine h.congr (h.sound.request c _) rfl rfl (fun _ ht => ht) hname (fun d => ?_)
      fun d hd => ?_
    · by_cases hdc : d = c
      · rw [hdc, setConnection_self]
        exact .inr ⟨hclosing, hfc⟩
      · rw [setConnection_of_ne _ _ _ hdc]
        exact .inl rfl
    · by_cases hdc : d = c
      · rw [hdc, setConnection_self]
        exact (close_connection_fields _ _).2.2.2
      · rw [setConnection_of_ne _ _ _ hdc] at hd ⊢
        exact h.slot d hd
  simp only [TcpServer.closeConnection, hf]
  by_cases ho : (s.connection c).handle = .opened
  · rw [closeHandle_opened ho]
    exact hasked.emit _
  · rw [closeHandle_closing ho]
    exact kept_connectionClosed hasked.sound hasked.slot hasked.entry fun d hd _ => hasked.gone d hd

theorem Kept.onSocketClose (h : Kept s) (c : Nat) : Kept (s.onSocketClose c) := by
  unfold TcpServer.onSocketClose
  split
  next => exact h.closeConnection _
  next => exact h

theorem Kept.onMesageReceive (h : Kept s) (c : Nat) (input : Input) :
    Kept (s.onMesageReceive c input) := by
  have hstatus : Kept (s.setConnection c ((s.connection c).setConnectStatus false)) := by
    have hsame (d : Nat) : ∃ connected, (s.setConnection c
        ((s.connection c).setConnectStatus false)).connection d =
          (s.connection d).setConnectStatus connected := by
      by_cases hdc : d = c
      · exact ⟨false, by rw [hdc, setConnection_self]⟩
      · exact ⟨(s.connection d).connected, by rw [setConnection_of_ne _ _ _ hdc]; rfl⟩
    refine h.congr (quiet_setConnectStatus h.sound c).2 rfl rfl (fun _ ht => ht) (fun d => ?_)
      (fun d => .inl ?_) fun d => ?_
    all_goals
      obtain ⟨connected, he⟩ := hsame d
      rw [he]
    · rfl
    · rfl
    · exact h.slot d
  cases input with
  | data =>
    simp only [TcpServer.onMesageReceive]
    split
    next => exact h.emit _
    next => exact h
  | error => exact hstatus.onSocketClose c
  | eof accepted =>
    cases accepted with
    | true => exact ⟨(quiet_setShutdowns hstatus.sound _).2, hstatus.slot, hstatus.entry, hstatus.gone⟩
    | false => exact hstatus

theorem Kept.accept (h : Kept s) {name : String} (hnone : s.getConnection name = none) :
    Kept (s.onAccept name) := by
  have hold {c : Nat} (ho : ((s.onAccept name).connection c).handle ≠ .opened) :
      c ≠ s.accepted ∧ (s.onAccept name).connection c = s.connection c := by
    have hne : c ≠ s.accepted := by
      rintro rfl
      rw [onAccept_connection, Function.update_self] at ho
      exact ho rfl
    rw [onAccept_connection, Function.update_of_ne hne]
    exact ⟨hne, rfl⟩
  have hcallback : (s.onAccept name).onConnectCloseCallback = s.onConnectCloseCallback := by
    unfold onAccept addConnection
    split <;> rfl
  have htold {c : Nat} (ht : s.Told c) : (s.onAccept name).Told c := by
    rw [Told, hcallback, onAccept_log]
    exact ht
  refine ⟨h.sound.accept name, fun c hc => ?_, fun c hc ho => ?_, fun c hc => ?_⟩
  · obtain ⟨-, he⟩ := hold (c := c) (by rw [hc]; exact nofun)
    rw [he] at hc ⊢
    exact h.slot c hc
  · obtain ⟨hne, he⟩ := hold ho
    rw [he] at ho ⊢
    rw [onAccept_accepted] at hc
    rw [onAccept_getConnection]
    refine (h.entry c (Nat.lt_of_le_of_ne (Nat.le_of_lt_succ hc) hne) ho).imp (fun hf => ?_) htold
    rw [if_neg, hf]
    rintro ⟨-, hn⟩
    rw [hn, hnone] at hf
    exact nomatch hf
  · obtain ⟨hne, he⟩ := hold (c := c) (by rw [hc]; exact nofun)
    rw [he] at hc ⊢
    rw [onAccept_getConnection]
    split
    next => exact fun hf => hne (Option.some.inj hf).symm
    next => exact h.gone c hc

/-- The loop has closed the handle: the entry, if it still is the connection's, goes. -/
theorem Kept.onClosed (h : Kept s) {c : Nat} (hc : (s.connection c).handle = .closing) :
    Kept (s.onClosed c 0) := by
  rw [onClosed_eq, h.slot c hc]
  have hclosed := h.sound.closed hc
  refine kept_connectionClosed hclosed (fun d hd => ?_) (fun d hd ho => ?_) fun d hd hn => ?_
  · by_cases hdc : d = c
    · rw [hdc, setConnection_self] at hd
      exact Phase.noConfusion hd
    · rw [setConnection_of_ne _ _ _ hdc] at hd ⊢
      exact h.slot d hd
  · by_cases hdc : d = c
    · rw [hdc, setConnection_self]
      exact h.entry c (hdc ▸ hd) (by rw [hc]; exact nofun)
    · rw [setConnection_of_ne _ _ _ hdc] at ho ⊢
      exact h.entry d hd ho
  · by_cases hdc : d = c
    · exact absurd (by rw [hdc]) hn
    · rw [setConnection_of_ne _ _ _ hdc] at hd ⊢
      exact h.gone d hd

/-- Closing a connection that is closed changes nothing that counts. -/
theorem Kept.closeHandle (h : Kept s) {c : Nat} (hc : (s.connection c).handle = .closed) :
    Kept (s.closeHandle c none) := by
  have ho : (s.connection c).handle ≠ .opened := by
    rw [hc]
    exact nofun
  have hsame : ((s.connection c).close none).1.handle = .closed := by
    rw [TcpConnection.close_of_not_opened ho]
    exact hc
  rw [closeHandle_closing ho]
  refine h.congr (h.sound.request c none) rfl rfl (fun _ ht => ht) (quiet_request s c none).name
    (fun d => .inl ?_) fun d hd => ?_
  · by_cases hdc : d = c
    · rw [hdc, closeComplete, setConnection_self, hsame, hc]
    · rw [closeComplete, setConnection_of_ne _ _ _ hdc]
  · by_cases hdc : d = c
    · rw [hdc, closeComplete, setConnection_self, hsame] at hd
      exact Phase.noConfusion hd
    · rw [closeComplete, setConnection_of_ne _ _ _ hdc] at hd ⊢
      exact h.slot d hd

end kept
end AeProxy.TcpServer

namespace AeProxy.Proxy.TcpProxy.Relay
open Lib

/-- An agent reports a failure or a closing only when its client's connection is closed, and no name
is accepted that still has an entry. -/
def Late (r : Relay) : Event → Prop
  | .agent i (.closed _) => (r.client i).handle = .closed
  | event => r.Clear event

variable {r t : Relay}

theorem kept_serves {s t : TcpServer} (h : s.Kept) {event : TcpServer.Event}
    (he : serves event = true) (hclear : s.Clear event)
    (hs : TcpServer.step s event = some t) : t.Kept := by
  cases event with
  | accept name =>
    obtain ⟨-, hs⟩ := Option.ite_none_right_eq_some.mp hs
    exact Option.some.inj hs ▸ h.accept hclear
  | read c input =>
    obtain ⟨-, hs⟩ := Option.ite_none_right_eq_some.mp hs
    exact Option.some.inj hs ▸ h.onMesageReceive c input
  | shutdownDone c =>
    obtain ⟨-, hs⟩ := Option.ite_none_right_eq_some.mp hs
    have hdone : TcpServer.Kept { s with
        shutdowns := Function.update s.shutdowns c (s.shutdowns c - 1) } :=
      ⟨(TcpServer.quiet_setShutdowns h.sound _).2, h.slot, h.entry, h.gone⟩
    exact Option.some.inj hs ▸ hdone.onSocketClose c
  | closed c closes =>
    obtain rfl : closes = 0 := of_decide_eq_true he
    obtain ⟨⟨hc, -⟩, hs⟩ := Option.ite_none_right_eq_some.mp hs
    exact Option.some.inj hs ▸ h.onClosed hc
  | _ => exact Bool.noConfusion he

/-- The close of an agent's report comes too late to take the server's callback. -/
theorem kept_step (hw : Wired r) (h : r.server.Kept) {event : Event} (hc : Late r event)
    (ht : step r event = some t) : t.server.Kept := by
  cases hw.does_of_step ht with
  | @server event server he hs =>
    refine kept_serves h he ?_ hs
    cases event with
    | accept name => exact hc
    | closeConnection name => exact Bool.noConfusion he
    | _ => exact trivial
  | bind => exact h.emit _
  | linked => exact h
  | @parted i k stage link status hi hl hs hl' hstatus =>
    rw [onConnectStatus_of_ne hstatus, setLink_client]
    exact h.closeHandle hc
  | moved => exact h

/-- In every run whose agents' reports come that late, and whose names are free when they are
accepted, a client whose connection is closed is forgotten. -/
theorem forgotten_of_late {onConnectClose : Bool} {events : List Event}
    (hc : step.Throughout Late (new onConnectClose) events)
    (hr : step.run (new onConnectClose) events = some t) {c : Nat} (ha : c < t.server.accepted)
    (hclosed : (t.server.connection c).handle = .closed) : t.server.Forgotten c := by
  obtain ⟨-, hk⟩ := Step.run_invariant_of (I := fun r => Wired r ∧ r.server.Kept)
    (fun _ _ _ ⟨hw, hk⟩ hc ht => ⟨hw.step ht, kept_step hw hk hc ht⟩)
    ⟨wired_new _, TcpServer.kept_listening _ _⟩ hc hr
  exact hk.forgotten ha hclosed

/-- The client leaves, then the real server. -/
theorem forgotten_of_late_left : ∃ t, step.run (new true) [.server (.accept "10.0.0.1:4000"),
      .bind 0 true, .agent 0 (.connectDone 0 true), .server (.read 0 .error),
      .server (.closed 0 0), .agent 0 (.read 0 .error), .agent 0 (.closed 0)] = some t ∧
    t.server.Forgotten 0 := by
  refine ⟨_, rfl, @forgotten_of_late _ true [.server (.accept "10.0.0.1:4000"), .bind 0 true,
    .agent 0 (.connectDone 0 true), .server (.read 0 .error), .server (.closed 0 0),
    .agent 0 (.read 0 .error), .agent 0 (.closed 0)] ?_ rfl 0 (by decide) rfl⟩
  exact .cons rfl rfl (.cons trivial rfl (.cons trivial rfl (.cons trivial rfl
    (.cons trivial rfl (.cons trivial rfl (.cons rfl rfl trivial))))))

/-- The real server refuses the agent, and its report closes the client. -/
theorem not_forgotten_refused : ∃ t, step.run (new true) [.server (.accept "10.0.0.1:4000"),
      .bind 0 true, .agent 0 (.connectDone 0 false), .agent 0 (.closed 0),
      .server (.closed 0 0)] = some t ∧
    0 < t.server.accepted ∧ (t.server.connection 0).handle = .closed ∧
    t.server.getConnection "10.0.0.1:4000" = some 0 ∧ .connectClose 0 ∉ t.server.log ∧
    ¬ t.server.Forgotten 0 :=
  ⟨_, rfl, by decide, rfl, rfl, by decide, fun h => h.entry "10.0.0.1:4000" rfl⟩

end AeProxy.Proxy.TcpProxy.Relay
