import AeProxy.Proxy.Relay

/-! The table of the proxy against the two sides it joins. Nothing is ever taken out of it. -/
namespace AeProxy.Proxy.TcpProxy.Relay
open Lib

/-- The agent is what the table has for its client. -/
def Stored (r : Relay) (i : Nat) : Prop := r.session_.lookup (r.client i).name = some i

/-- The table has the pairs of which both sides are open, and every open link belongs to one. -/
structure Symmetric (r : Relay) : Prop where
  entry : ∀ name, name ∈ r.session_ ↔ ∃ i, i < r.agents ∧ r.session_.lookup name = some i ∧
    (r.client i).name = name ∧ (r.client i).handle = .opened ∧ (r.agent i).link.Linked
  linked : ∀ i, i < r.agents → (r.agent i).link.Linked → r.Stored i

/-- libuv has nothing left to complete. -/
structure Settled (r : Relay) : Prop where
  clients : ∀ c, (r.server.connection c).handle ≠ .closing ∧ r.server.shutdowns c = 0
  links : ∀ i, i < r.agents → ∀ k, ((r.agent i).link.socket k).connecting = false ∧
    ((r.agent i).link.socket k).handle ≠ .closing ∧ ((r.agent i).link.socket k).shutdowns = 0

/-- No side of a pair in the table ends, and an agent connects only for an open client that has
none. -/
def Spares (r : Relay) : Event → Prop
  | .server event => ∀ i, r.Stored i → ¬ Ends r.server event (r.agent i).client
  | .bind _ _ => True
  | .agent i (.connectDone _ true) =>
    (r.client i).handle = .opened ∧ r.session_.lookup (r.client i).name = none
  | .agent i (.closed _) => ∀ j, r.Stored j → (r.agent j).client ≠ (r.agent i).client
  | .agent i event => Loses event → ¬ (r.agent i).link.Linked

/-- And no name is accepted that still has an entry. -/
def Keeps (r : Relay) (event : Event) : Prop := Clear r event ∧ Spares r event

section step
variable {r t : Relay}

theorem Symmetric.of_lookup (h : Symmetric r) {name : String} {i : Nat}
    (hi : r.session_.lookup name = some i) : i < r.agents ∧ (r.client i).name = name ∧
      (r.client i).handle = .opened ∧ (r.agent i).link.Linked := by
  have hmem : name ∈ r.session_ := AList.lookup_isSome.mp (by rw [hi]; rfl)
  obtain ⟨j, hj, hlookup, hends⟩ := (h.entry name).mp hmem
  obtain rfl : i = j := Option.some.inj (hi.symm.trans hlookup)
  exact ⟨hj, hends⟩

theorem symmetric_of_lookup (hentry : ∀ name i, r.session_.lookup name = some i →
      i < r.agents ∧ (r.client i).name = name ∧ (r.client i).handle = .opened ∧
        (r.agent i).link.Linked)
    (hlinked : ∀ i, i < r.agents → (r.agent i).link.Linked → r.Stored i) : Symmetric r := by
  refine ⟨fun name => ⟨fun hmem => ?_, ?_⟩, hlinked⟩
  · obtain ⟨i, hi⟩ := Option.isSome_iff_exists.mp (AList.lookup_isSome.mpr hmem)
    obtain ⟨hlt, hends⟩ := hentry name i hi
    exact ⟨i, hlt, hi, hends⟩
  · rintro ⟨i, -, hi, -⟩
    exact AList.lookup_isSome.mp (by rw [hi]; rfl)

theorem Symmetric.stored_iff (h : Symmetric r) {i : Nat} (hi : i < r.agents) :
    r.Stored i ↔ (r.agent i).link.Linked :=
  ⟨fun hs => (h.of_lookup hs).2.2.2, h.linked i hi⟩

/-- Where sides only end, those of stored agents must not. -/
theorem Symmetric.iff_of_ends (h : Symmetric r) (gone lost : Nat → Prop)
    (hsession : t.session_ = r.session_) (hagents : t.agents = r.agents)
    (hname : ∀ i, i < r.agents → (t.client i).name = (r.client i).name)
    (hopened : ∀ i, i < r.agents →
      ((t.client i).handle = .opened ↔ (r.client i).handle = .opened ∧ ¬ gone i))
    (hlinked : ∀ i, i < r.agents →
      ((t.agent i).link.Linked ↔ (r.agent i).link.Linked ∧ ¬ lost i)) :
    Symmetric t ↔ ∀ i, r.Stored i → ¬ gone i ∧ ¬ lost i := by
  constructor
  · intro ht i hs
    have hi : i < r.agents := (h.of_lookup hs).1
    have hlookup : t.session_.lookup (r.client i).name = some i := by
      rw [hsession]
      exact hs
    obtain ⟨-, -, ho, hl⟩ := ht.of_lookup hlookup
    exact ⟨((hopened i hi).mp ho).2, ((hlinked i hi).mp hl).2⟩
  · intro hs
    refine symmetric_of_lookup (fun name i hi => ?_) fun i hi hl => ?_
    · rw [hsession] at hi
      obtain ⟨hlt, hn, ho, hl⟩ := h.of_lookup hi
      obtain ⟨hgone, hlost⟩ := hs i (by rw [Stored, hn, hi])
      exact ⟨hagents ▸ hlt, (hname i hlt).trans hn, (hopened i hlt).mpr ⟨ho, hgone⟩,
        (hlinked i hlt).mpr ⟨hl, hlost⟩⟩
    · rw [hagents] at hi
      rw [Stored, hsession, hname i hi]
      exact h.linked i hi ((hlinked i hi).mp hl).1

/-- The server closes connections. -/
theorem Symmetric.server (h : Symmetric r) (hw : Wired r) {event : TcpServer.Event}
    {server : TcpServer} (he : serves event = true)
    (hs : TcpServer.step r.server event = some server) :
    Symmetric { r with server := server } ↔ Spares r (.server event) := by
  have hsame : (∀ i, i < r.agents → (server.connection (r.agent i).client).name =
        (r.client i).name) ∧
      ∀ i, i < r.agents → ((server.connection (r.agent i).client).handle = .opened ↔
        (r.client i).handle = .opened ∧ ¬ Ends r.server event (r.agent i).client) := by
    by_cases haccept : ∃ name, event = .accept name
    · obtain ⟨name, rfl⟩ := haccept
      obtain ⟨-, hs⟩ := Option.ite_none_right_eq_some.mp hs
      have hold (i : Nat) (hi : i < r.agents) :
          server.connection (r.agent i).client = r.client i := by
        rw [← Option.some.inj hs, TcpServer.onAccept_connection,
          Function.update_of_ne (Nat.ne_of_lt (hw.client i hi))]
        rfl
      refine ⟨fun i hi => by rw [hold i hi], fun i hi => ?_⟩
      rw [hold i hi]
      exact (and_iff_left not_false).symm
    · have hshuts := shuts_of_serves he hs (not_exists.mp haccept)
      exact ⟨fun i _ => hshuts.name _, fun i _ => hshuts.opened _⟩
  refine (h.iff_of_ends (t := { r with server := server })
    (fun i => Ends r.server event (r.agent i).client) (fun _ => False) rfl rfl hsame.1 hsame.2
    fun i _ => (and_iff_left not_false).symm).trans ?_
  exact forall_congr' fun i => imp_congr_right fun _ => and_iff_left not_false

/-- An agent that has not connected yet. -/
theorem Symmetric.connectRealServer (h : Symmetric r) (c : Nat) (accepted : Bool) :
    Symmetric (r.connectRealServer c accepted) := by
  have hold {i : Nat} (hi : i ≠ r.agents) : (r.connectRealServer c accepted).agent i = r.agent i :=
    Function.update_of_ne hi ..
  have hnew : (r.connectRealServer c accepted).agent r.agents =
      ⟨c, ((TcpClient.new true false).connect accepted).1⟩ := Function.update_self ..
  refine symmetric_of_lookup (fun name i hi => ?_) fun i hi hl => ?_
  · obtain ⟨hlt, hends⟩ := h.of_lookup hi
    rw [client, hold (Nat.ne_of_lt hlt)]
    exact ⟨Nat.lt_succ_of_lt hlt, hends⟩
  · by_cases hi' : i = r.agents
    · rw [hi', hnew] at hl
      obtain ⟨k, hk, -⟩ := hl
      exact nomatch hk
    · rw [hold hi'] at hl
      rw [Stored, client, hold hi']
      exact h.linked i (Nat.lt_of_le_of_ne (Nat.le_of_lt_succ hi) hi') hl

/-- A link that opens is stored, in the place of another that may be open. -/
theorem Symmetric.connected (h : Symmetric r) {i : Nat} {link : TcpClient} (hi : i < r.agents)
    (hl : ¬ (r.agent i).link.Linked) (hl' : link.Linked) :
    Symmetric ((r.setLink i link).onConnectStatus i .connectSuccess) ↔
      (r.client i).handle = .opened ∧ r.session_.lookup (r.client i).name = none := by
  have hclient (j : Nat) :
      ((r.setLink i link).onConnectStatus i .connectSuccess).client j = r.client j :=
    client_setLink r i link j
  have hsession : ((r.setLink i link).onConnectStatus i .connectSuccess).session_ =
      r.session_.insert (r.client i).name i := by
    rw [onConnectStatus, client_setLink]
    rfl
  have hagent {j : Nat} (hj : j ≠ i) :
      ((r.setLink i link).onConnectStatus i .connectSuccess).agent j = r.agent j :=
    setLink_of_ne r hj link
  have hself : (((r.setLink i link).onConnectStatus i .connectSuccess).agent i).link = link :=
    setLink_self r i link
  have hne {j : Nat} (hj : (r.agent j).link.Linked) : j ≠ i := by
    rintro rfl
    exact hl hj
  constructor
  · intro ht
    have hstored : ((r.setLink i link).onConnectStatus i .connectSuccess).session_.lookup
        (r.client i).name = some i := by
      rw [hsession]
      exact AList.lookup_insert _
    obtain ⟨-, -, ho, -⟩ := ht.of_lookup hstored
    refine ⟨hclient i ▸ ho, Option.eq_none_iff_forall_ne_some.mpr fun j hj => ?_⟩
    obtain ⟨hlt, hn, -, hlinked⟩ := h.of_lookup hj
    -- the agent that was stored is open, but no longer what its name finds
    have hlost := ht.linked j hlt (by rw [hagent (hne hlinked)]; exact hlinked)
    rw [Stored, hclient, hn, hstored] at hlost
    exact hne hlinked (Option.some.inj hlost).symm
  · rintro ⟨ho, hnone⟩
    refine symmetric_of_lookup (fun name j hj => ?_) fun j hj hlinked => ?_
    · rw [hsession] at hj
      rw [hclient]
      by_cases hn : name = (r.client i).name
      · subst hn
        rw [AList.lookup_insert] at hj
        obtain rfl := Option.some.inj hj
        rw [hself]
        exact ⟨hi, rfl, ho, hl'⟩
      · rw [AList.lookup_insert_ne hn] at hj
        obtain ⟨hlt, hends⟩ := h.of_lookup hj
        rw [hagent (hne hends.2.2)]
        exact ⟨hlt, hends⟩
    · rw [Stored, hsession, hclient]
      by_cases hji : j = i
      · rw [hji]
        exact AList.lookup_insert _
      · rw [hagent hji] at hlinked
        have hstored : r.session_.lookup (r.client j).name = some j := h.linked j hj hlinked
        rw [AList.lookup_insert_ne, hstored]
        intro hn
        rw [hn, hnone] at hstored
        exact nomatch hstored

/-- The report of an agent that has no open link closes its client. -/
theorem Symmetric.parted (h : Symmetric r) {i : Nat} {link : TcpClient}
    (hl : ¬ (r.agent i).link.Linked) (hl' : ¬ link.Linked) {status : TcpClient.ConnectStatus}
    (hstatus : status ≠ .connectSuccess) :
    Symmetric ((r.setLink i link).onConnectStatus i status) ↔
      ∀ j, r.Stored j → (r.agent j).client ≠ (r.agent i).client := by
  have hshuts := TcpServer.Shuts.closeHandle r.server (r.agent i).client none
  rw [onConnectStatus_of_ne hstatus, setLink_client]
  refine (h.iff_of_ends
    (t := { r.setLink i link with server := r.server.closeHandle (r.agent i).client none })
    (fun j => (r.agent j).client = (r.agent i).client) (fun _ => False) rfl rfl
    ?_ ?_ ?_).trans (forall_congr' fun j => imp_congr_right fun _ => and_iff_left not_false)
  · intro j _
    rw [client, setLink_client]
    exact hshuts.name _
  · intro j _
    rw [client, setLink_client]
    exact hshuts.opened _
  · intro j _
    rw [not_false_eq_true, and_true]
    by_cases hj : j = i
    · subst hj
      exact iff_of_false (fun hlinked => hl' (setLink_self r j link ▸ hlinked)) hl
    · rw [setLink_of_ne r hj]

/-- The link of an agent moves on, and may be lost. -/
theorem Symmetric.setLink (h : Symmetric r) {i : Nat} (hi : i < r.agents) {link : TcpClient}
    {loses : Prop} (hl : link.Linked ↔ (r.agent i).link.Linked ∧ ¬ loses) :
    Symmetric (r.setLink i link) ↔ (loses → ¬ (r.agent i).link.Linked) := by
  have hstored : (∀ j, r.Stored j → ¬ False ∧ ¬ (j = i ∧ loses)) ↔
      (loses → ¬ (r.agent i).link.Linked) := by
    rw [← h.stored_iff hi]
    constructor
    · exact fun hs hloses hstored => (hs i hstored).2 ⟨rfl, hloses⟩
    · intro hs j hstored
      refine ⟨not_false, ?_⟩
      rintro ⟨rfl, hloses⟩
      exact hs hloses hstored
  refine (h.iff_of_ends (t := r.setLink i link) (fun _ => False) (fun j => j = i ∧ loses) rfl rfl
    ?_ ?_ ?_).trans hstored
  · intro j _
    rw [client_setLink]
  · intro j _
    rw [client_setLink]
    exact (and_iff_left not_false).symm
  · intro j _
    by_cases hj : j = i
    · rw [hj, setLink_self, hl]
      exact and_congr_right fun _ => not_congr (and_iff_right rfl).symm
    · rw [setLink_of_ne r hj]
      exact (and_iff_left fun h => hj h.1).symm

theorem spares_agent (r : Relay) {i : Nat} {event : TcpClient.Event}
    (he : (∀ k, event ≠ .connectDone k true) ∧ ∀ k, event ≠ .closed k) :
    Spares r (.agent i event) ↔ (Loses event → ¬ (r.agent i).link.Linked) := by
  cases event with
  | connectDone k success =>
    cases success with
    | true => exact absurd rfl (he.1 k)
    | false => exact Iff.rfl
  | closed k => exact absurd rfl (he.2 k)
  | _ => exact Iff.rfl

theorem Symmetric.step (h : Symmetric r) (hw : Wired r) {event : Event}
    (ht : step r event = some t) : Symmetric t ↔ Spares r event := by
  cases hw.does_of_step ht with
  | server he hs => exact h.server hw he hs
  | @bind c accepted hc ho =>
    have hmessage : Symmetric { r with server := r.server.emit (.message c) } :=
      ⟨h.entry, h.linked⟩
    exact iff_of_true (hmessage.connectRealServer c accepted) trivial
  | linked hi hl hl' =>
    refine h.connected hi (fun hlinked => ?_) (hl'.linked_iff.mpr rfl)
    exact nomatch hl.linked_iff.mp hlinked
  | parted status hi hl hs hl' hstatus =>
    exact h.parted (fun hlinked => hs (hl.linked_iff.mp hlinked))
      (fun hlinked => nomatch hl'.linked_iff.mp hlinked) hstatus
  | moved hi he hl hl' hup =>
    rw [spares_agent r he]
    refine h.setLink hi ?_
    rw [hl'.linked_iff, hl.linked_iff, hup]

theorem symmetric_new (onConnectClose : Bool) : Symmetric (new onConnectClose) :=
  symmetric_of_lookup (fun _ _ hi => nomatch hi) nofun

end step

section run
variable {r t : Relay}

/-- In every run: in all states along it, settled or not, the table and the links are symmetric, and
the clients not closed are those their names find, exactly if every step keeps the pairs and accepts
no name that still has an entry. -/
theorem symmetric_iff_keeps {onConnectClose : Bool} {events : List Event}
    (hr : step.run (new onConnectClose) events = some t) :
    (∀ before later u, events = before ++ later → step.run (new onConnectClose) before = some u →
      Symmetric u ∧ TcpServer.Registered u.server) ↔
    step.Throughout Keeps (new onConnectClose) events :=
  Step.prefixes_iff_throughout (I := Wired) (fun _ _ _ hw _ _ ht => hw.step ht)
    (fun _ _ _ hw h ht =>
      and_comm.trans (and_congr (hw.registered h.2 ht) (h.1.step hw ht)))
    (wired_new _) ⟨symmetric_new _, TcpServer.registered_listening _ _⟩ hr

/-- Two clients, one of them with a real server that refuses. -/
theorem symmetric_iff_keeps_two :
    let events := [Event.server (.accept "10.0.0.1:4000"), .server (.accept "10.0.0.2:4000"),
      .bind 0 true, .bind 1 true, .agent 0 (.connectDone 0 true), .agent 1 (.connectDone 0 false),
      .agent 1 (.closed 0), .server (.closed 1 0)]
    ∃ t, step.run (new true) events = some t ∧ t.Settled ∧ t.Symmetric := by
  intro events
  have hsettled (t : Relay) (ht : step.run (new true) events = some t) : t.Settled := by
    obtain rfl := Option.some.inj ht
    refine ⟨?_, ?_⟩
    · rintro (_ | _ | c) <;> exact ⟨nofun, rfl⟩
    · rintro (_ | _ | i) hi (_ | k)
      case succ.succ.zero => exact absurd hi (Nat.not_lt_of_le (Nat.le_add_left 2 i))
      case succ.succ.succ => exact absurd hi (Nat.not_lt_of_le (Nat.le_add_left 2 i))
      all_goals exact ⟨rfl, nofun, rfl⟩
  have hkeeps : step.Throughout Keeps (new true) events := by
    refine .cons ⟨rfl, nofun⟩ rfl (.cons ⟨rfl, nofun⟩ rfl (.cons ⟨trivial, trivial⟩ rfl
      (.cons ⟨trivial, trivial⟩ rfl (.cons ⟨trivial, rfl, rfl⟩ rfl (.cons ⟨trivial, ?_⟩ rfl
        (.cons ⟨trivial, ?_⟩ rfl (.cons ⟨trivial, ?_⟩ rfl trivial)))))))
    · rintro (⟨k, hk⟩ | ⟨k, hk⟩) <;> exact nomatch hk
    · rintro (_ | _ | j) hstored hclient
      · exact nomatch hclient
      · have hnone : none = some 1 := hstored
        exact nomatch hnone
      · exact nomatch hclient
    · exact fun _ _ h => h
  exact ⟨_, rfl, hsettled _ rfl,
    ((symmetric_iff_keeps rfl).mpr hkeeps events [] _ (List.append_nil _).symm rfl).1⟩

/-- The client leaves, and the agent stays connected; a second bind takes the place of the first. -/
theorem not_symmetric_left :
    (∃ t, step.run (new true) [.server (.accept "10.0.0.1:4000"), .bind 0 true,
        .agent 0 (.connectDone 0 true), .server (.read 0 .error), .server (.closed 0 0)] = some t ∧
      t.Settled ∧ ¬ t.Symmetric) ∧
    ∃ t, step.run (new true) [.server (.accept "10.0.0.1:4000"), .bind 0 true,
        .agent 0 (.connectDone 0 true), .bind 0 true, .agent 1 (.connectDone 0 true)] = some t ∧
      t.Settled ∧ ¬ t.Symmetric := by
  constructor
  · refine ⟨_, rfl, ⟨?_, ?_⟩, fun h => ?_⟩
    · rintro (_ | c) <;> exact ⟨nofun, rfl⟩
    · rintro (_ | i) hi (_ | k)
      case succ.zero => exact absurd hi (Nat.not_lt_of_le (Nat.le_add_left 1 i))
      case succ.succ => exact absurd hi (Nat.not_lt_of_le (Nat.le_add_left 1 i))
      all_goals exact ⟨rfl, nofun, rfl⟩
    · obtain ⟨-, -, ho, -⟩ := @Symmetric.of_lookup _ h "10.0.0.1:4000" 0 rfl
      exact nomatch ho
  · refine ⟨_, rfl, ⟨?_, ?_⟩, fun h => ?_⟩
    · rintro (_ | c) <;> exact ⟨nofun, rfl⟩
    · rintro (_ | _ | i) hi (_ | k)
      case succ.succ.zero => exact absurd hi (Nat.not_lt_of_le (Nat.le_add_left 2 i))
      case succ.succ.succ => exact absurd hi (Nat.not_lt_of_le (Nat.le_add_left 2 i))
      all_goals exact ⟨rfl, nofun, rfl⟩
    · have hstored : some 1 = some 0 := h.linked 0 (by decide) ⟨0, rfl, rfl⟩
      exact nomatch hstored

end run
end AeProxy.Proxy.TcpProxy.Relay
