import AeProxy.Client.Protocol

/-! Who owns the handles libuv serves: `socket_`, and the connection made on one. Both are replaced
by the next attempt, whether or not libuv is done. -/
namespace AeProxy.TcpClient
open Lib

/-- The `use_count` of the handle of an attempt. -/
def useCount (self : TcpClient) (i : Nat) : Nat :=
  (if 0 < self.attempts ∧ i = self.socket_ then 1 else 0) +
    if self.connection_ = some i then 1 else 0

/-- No handle is freed that libuv still serves. -/
def Owned (s : TcpClient) : Prop := ∀ i, (s.socket i).handle ≠ .closed → 0 < s.useCount i

/-- A pointer is replaced when its handle has been closed, or is the other pointer's as well. -/
def Careful (s : TcpClient) : Event → Prop
  | .connect _ => (s.socket s.socket_).handle ≠ .closed → s.connection_ = some s.socket_
  | .connectDone _ true =>
      ∀ i, s.connection_ = some i → i ≠ s.socket_ → (s.socket i).handle = .closed
  | _ => True

theorem useCount_pos (s : TcpClient) (i : Nat) :
    0 < s.useCount i ↔ 0 < s.attempts ∧ i = s.socket_ ∨ s.connection_ = some i := by
  rw [useCount]
  by_cases hlast : 0 < s.attempts ∧ i = s.socket_
  · rw [if_pos hlast]
    exact iff_of_true (Nat.add_pos_left Nat.one_pos _) (.inl hlast)
  · rw [if_neg hlast, Nat.zero_add, or_iff_right hlast]
    split
    next hc => exact iff_of_true Nat.one_pos hc
    next hc => exact iff_of_false (Nat.lt_irrefl 0) hc

/-- No attempt has been made of the others. -/
def Unmade (s : TcpClient) : Prop :=
  ∀ i, s.attempts ≤ i → (s.socket i).connecting = false ∧ (s.socket i).handle = .closed

/-- No pointer is replaced, and no handle opened. -/
structure Eases (s t : TcpClient) : Prop where
  attempts : t.attempts = s.attempts
  connection : t.connection_ = s.connection_
  connecting : ∀ i, (s.socket i).connecting = false → (t.socket i).connecting = false
  closed : ∀ i, (s.socket i).handle = .closed → (t.socket i).handle = .closed

section eases
variable {s t u : TcpClient} {i : Nat} {socket : Socket}

theorem Eases.refl (s : TcpClient) : Eases s s := ⟨rfl, rfl, fun _ h => h, fun _ h => h⟩

theorem Eases.trans (h : Eases s t) (h' : Eases t u) : Eases s u :=
  ⟨h'.attempts.trans h.attempts, h'.connection.trans h.connection,
    fun i hi => h'.connecting i (h.connecting i hi), fun i hi => h'.closed i (h.closed i hi)⟩

theorem eases_setSocket (s : TcpClient) (i : Nat)
    (hconn : (s.socket i).connecting = false → socket.connecting = false)
    (hclosed : (s.socket i).handle = .closed → socket.handle = .closed) :
    Eases s (s.setSocket i socket) := by
  refine ⟨rfl, rfl, fun j hj => ?_, fun j hj => ?_⟩
  · by_cases hji : j = i
    · subst hji
      rw [setSocket_self]
      exact hconn hj
    · rwa [setSocket_of_ne _ _ _ hji]
  · by_cases hji : j = i
    · subst hji
      rw [setSocket_self]
      exact hclosed hj
    · rwa [setSocket_of_ne _ _ _ hji]

theorem eases_closeHandle (s : TcpClient) (i : Nat) (callback : CloseCallback) :
    Eases s (s.closeHandle i callback).1 := by
  rw [closeHandle_fst]
  apply eases_setSocket
  · exact fun h => h
  · intro hc
    have hopen : (s.socket i).connection.handle ≠ .opened := by
      intro ho
      exact Phase.noConfusion (hc.symm.trans ho)
    rw [TcpConnection.close_of_not_opened hopen]
    exact hc

theorem Eases.unmade (h : Eases s t) (hs : Unmade s) : Unmade t := by
  intro i hi
  rw [h.attempts] at hi
  obtain ⟨hconn, hclosed⟩ := hs i hi
  exact ⟨h.connecting i hconn, h.closed i hclosed⟩

theorem Eases.owned (h : Eases s t) (hs : Owned s) : Owned t := by
  intro i hi
  have hcount := (useCount_pos s i).mp (hs i fun hc => hi (h.closed i hc))
  rw [useCount_pos, h.attempts, h.connection, socket_, h.attempts]
  exact hcount

/-- Behind a socket of its own, an attempt leaves the one before it to its connection. -/
theorem Unmade.connect (h : Unmade s) (hs : Owned s) (accepted : Bool) :
    Unmade (s.connect accepted).1 ∧
      (Owned (s.connect accepted).1 ↔ Careful s (.connect accepted)) := by
  have hold {i : Nat} (hi : i ≠ s.attempts) : (s.connect accepted).1.socket i = s.socket i :=
    setSocket_of_ne _ _ _ hi
  have hcount (i : Nat) : 0 < (s.connect accepted).1.useCount i ↔
      i = s.attempts ∨ s.connection_ = some i := by
    rw [useCount_pos]
    exact or_congr_left (and_iff_right (Nat.succ_pos _))
  refine ⟨fun i hi => ?_, fun ht hopen => ?_, fun hc i hi => ?_⟩
  · rw [hold (Nat.ne_of_gt hi)]
    exact h i (Nat.le_of_succ_le hi)
  · have hlt : s.socket_ < s.attempts := by
      by_contra hle
      exact hopen (h _ (Nat.le_of_not_lt hle)).2
    refine ((hcount _).mp (ht s.socket_ ?_)).resolve_left (Nat.ne_of_lt hlt)
    rwa [hold (Nat.ne_of_lt hlt)]
  · rw [hcount]
    by_cases hnew : i = s.attempts
    · exact .inl hnew
    · rw [hold hnew] at hi
      rcases (useCount_pos s i).mp (hs i hi) with ⟨-, rfl⟩ | hconn
      · exact .inr (hc hi)
      · exact .inr hconn

theorem eases_requestDone (s : TcpClient) (i : Nat) : Eases s (s.requestDone i) :=
  eases_setSocket s i (fun _ => rfl) fun h => h

theorem handle_requestDone (s : TcpClient) (i k : Nat) :
    ((s.requestDone i).socket k).handle = (s.socket k).handle := by
  by_cases hk : k = i
  · subst hk
    rw [requestDone, setSocket_self]
    rfl
  · rw [requestDone, setSocket_of_ne _ _ _ hk]

theorem socket_connected (s : TcpClient) (k : Nat) :
    ((s.onConnect true).1.socket k).handle = (s.socket k).handle ∧
      ((s.onConnect true).1.socket k).connecting = (s.socket k).connecting := by
  have hsocket : (s.onConnect true).1.socket k = (s.setSocket s.socket_ { s.socket s.socket_ with
      failed := false
      connection := { TcpConnection.new "" with handle := (s.socket s.socket_).handle } }).socket k :=
    rfl
  rw [hsocket]
  by_cases hk : k = s.socket_
  · subst hk
    rw [setSocket_self]
    exact ⟨rfl, rfl⟩
  · rw [setSocket_of_ne _ _ _ hk]
    exact ⟨rfl, rfl⟩

/-- The connection goes to the last socket, and lets go of the one it had. -/
theorem Owned.connected (hs : Owned s) (hlt : 0 < s.attempts) :
    Owned (s.onConnect true).1 ↔
      ∀ i, s.connection_ = some i → i ≠ s.socket_ → (s.socket i).handle = .closed := by
  have hcount (i : Nat) : 0 < (s.onConnect true).1.useCount i ↔ i = s.socket_ := by
    rw [useCount_pos]
    refine or_iff_left_of_imp ?_ |>.trans (and_iff_right hlt)
    intro he
    exact ⟨hlt, (Option.some.inj he).symm⟩
  constructor
  · intro ht i hi hne
    by_contra hopen
    rw [← (socket_connected s i).1] at hopen
    exact hne ((hcount i).mp (ht i hopen))
  · intro hc i hi
    rw [(socket_connected s i).1] at hi
    rw [hcount]
    by_contra hne
    rcases (useCount_pos s i).mp (hs i hi) with ⟨-, hlast⟩ | hconn
    · exact hne hlast
    · exact hi (hc i hconn hne)

theorem Unmade.onConnect (h : Unmade s) : Unmade (s.onConnect true).1 := by
  intro i hi
  rw [(socket_connected s i).1, (socket_connected s i).2]
  exact h i hi

theorem eases_onConnect_false (s : TcpClient) : Eases s (s.onConnect false).1 := by
  rw [TcpClient.onConnect]
  split
  next ho =>
    apply eases_setSocket
    · exact fun h => h
    · intro hc
      rw [Phase.isClosing_eq_false] at ho
      exact Phase.noConfusion (hc.symm.trans ho)
  next => exact .refl s

theorem eases_stream {other : Socket} (hs : other.Similar (s.socket i)) :
    Eases s (s.setSocket i other) :=
  eases_setSocket s i hs.connecting.trans hs.handle.trans

theorem eases_onClosed (s : TcpClient) (i : Nat) : Eases s (s.onClosed i).1 := by
  rw [onClosed_fst]
  apply eases_setSocket
  · exact fun h => h
  · exact fun _ => rfl

end eases

section step
variable {s : TcpClient} {event : Event} {r : TcpClient × List Action}

/-- An event frees no handle libuv serves exactly if it is a careful one. -/
theorem Owned.step_iff (hs : Owned s) (hu : Unmade s) (hd : Does s event r) :
    Unmade r.1 ∧ (Owned r.1 ↔ Careful s event) := by
  have heases {t : TcpClient} (h : Eases s t) (hc : Careful s event) :
      Unmade t ∧ (Owned t ↔ Careful s event) := ⟨h.unmade hu, iff_of_true (h.owned hs) hc⟩
  cases hd with
  | connect accepted => exact hu.connect hs accepted
  | @connectDone i success hc ho =>
    have hdone := eases_requestDone s i
    cases success with
    | true =>
      have hlt : i < s.attempts := by
        by_contra hle
        exact Bool.noConfusion ((hu i (Nat.le_of_not_lt hle)).1.symm.trans hc)
      refine ⟨(hdone.unmade hu).onConnect, ?_⟩
      rw [(hdone.owned hs).connected (Nat.zero_lt_of_lt hlt)]
      simp only [handle_requestDone]
      rfl
    | false => exact heases (hdone.trans (eases_onConnect_false _)) trivial
  | message => exact heases (.refl s) trivial
  | stream he hsim =>
    refine heases (eases_stream hsim) ?_
    rcases he with ⟨input, rfl⟩ | rfl <;> exact trivial
  | lost he hsim hc hj =>
    refine heases ((eases_stream hsim).trans (eases_closeHandle _ _ _)) ?_
    rcases he with ⟨input, rfl⟩ | rfl <;> exact trivial
  | closed hc hi => exact heases (eases_onClosed s _) trivial
  | close callback =>
    refine heases ?_ trivial
    cases hconn : s.connection_ with
    | none =>
      rw [close_of_none hconn]
      exact ⟨rfl, rfl, fun _ h => h, fun _ h => h⟩
    | some i =>
      rw [close_of_some hconn]
      have hcloses : Eases s { s with closes := s.closes + 1 } :=
        ⟨rfl, rfl, fun _ h => h, fun _ h => h⟩
      exact hcloses.trans (eases_closeHandle _ _ _)

end step

/-- Behind a run of careful events. -/
theorem run_owned {connectCallback onMessageCallback : Bool} {events : List Event}
    {t : TcpClient × List Action}
    (hc : (Machine.logged step).Throughout (fun s event => Careful s.1 event)
      (new connectCallback onMessageCallback, []) events)
    (hr : (Machine.logged step).run (new connectCallback onMessageCallback, []) events = some t) :
    Unmade t.1 ∧ Owned t.1 := by
  refine Step.run_invariant_of (I := fun s => Unmade s.1 ∧ Owned s.1) ?_
    ⟨fun _ _ => ⟨rfl, rfl⟩, fun _ hi => absurd rfl hi⟩ hc hr
  rintro s event t ⟨hu, hs⟩ hc ht
  obtain ⟨r, hstep, rfl⟩ := Option.map_eq_some_iff.mp ht
  obtain ⟨hu', hiff⟩ := hs.step_iff hu (does_of_step hstep)
  exact ⟨hu', hiff.mpr hc⟩

/-- Along a run no handle is freed that libuv still serves exactly if every `connect`, and every
success, is a careful one. -/
theorem owned_iff_careful {connectCallback onMessageCallback : Bool} {events : List Event}
    {t : TcpClient × List Action}
    (hr : (Machine.logged step).run (new connectCallback onMessageCallback, []) events = some t) :
    (∀ before later u, events = before ++ later →
        (Machine.logged step).run (new connectCallback onMessageCallback, []) before = some u →
          Owned u.1) ↔
      (Machine.logged step).Throughout (fun s event => Careful s.1 event)
        (new connectCallback onMessageCallback, []) events := by
  refine Step.prefixes_iff_throughout (I := fun s => Unmade s.1) (P := fun s => Owned s.1) ?_ ?_
    (fun _ _ => ⟨rfl, rfl⟩) (fun _ hi => absurd rfl hi) hr
  · intro s event t hu hs hc ht
    obtain ⟨r, hstep, rfl⟩ := Option.map_eq_some_iff.mp ht
    exact (hs.step_iff hu (does_of_step hstep)).1
  · intro s event t hu hs ht
    obtain ⟨r, hstep, rfl⟩ := Option.map_eq_some_iff.mp ht
    exact (hs.step_iff hu (does_of_step hstep)).2

/-- A connection that is lost, and the next one. -/
theorem owned_iff_careful_reconnect : ∃ t, (Machine.logged step).run (new true true, [])
      [.connect true, .connectDone 0 true, .read 0 .error, .closed 0, .connect true,
        .connectDone 1 true] = some t ∧ Owned t.1 := by
  have hall := (@owned_iff_careful true true [.connect true, .connectDone 0 true, .read 0 .error,
    .closed 0, .connect true, .connectDone 1 true] _ rfl).mpr (.cons (absurd rfl) rfl
      (.cons nofun rfl (.cons trivial rfl (.cons trivial rfl (.cons (absurd rfl) rfl
        (.cons (fun i hi _ => Option.some.inj hi ▸ rfl) rfl trivial))))))
  exact ⟨_, rfl, hall _ [] _ (List.append_nil _).symm rfl⟩

/-- The next attempt comes too early. -/
example : ((((new true true).connect true).1.connect true).1.socket 0).handle = .opened ∧
    (((new true true).connect true).1.connect true).1.useCount 0 = 0 := by decide

/-- At most the last attempt is under way, on a socket that is open and not the connection's. -/
structure Single (s : TcpClient) : Prop where
  connecting : ∀ i, (s.socket i).connecting = true → i = s.socket_ ∧ (s.socket i).handle = .opened
  connection : ∀ i, s.connection_ = some i → i < s.attempts ∧ (s.socket i).connecting = false

section single
variable {s t : TcpClient} {i : Nat} {socket : Socket} {event : Event}
  {r : TcpClient × List Action}

theorem single_new (connectCallback onMessageCallback : Bool) :
    Single (new connectCallback onMessageCallback) :=
  ⟨fun _ hc => Bool.noConfusion hc, nofun⟩

/-- One socket has changed, and does not begin to connect. -/
theorem Single.update (h : Single s) (ha : t.attempts = s.attempts)
    (hconn : t.connection_ = s.connection_) (hs : t.socket = Function.update s.socket i socket)
    (hsocket : socket.connecting = true →
      (s.socket i).connecting = true ∧ socket.handle = .opened) : Single t := by
  have hlast : t.socket_ = s.socket_ := congrArg (· - 1) ha
  refine ⟨fun j hj => ?_, fun j hj => ?_⟩
  · rw [hlast]
    by_cases hji : j = i
    · subst hji
      rw [hs, Function.update_self] at hj ⊢
      obtain ⟨hc, ho⟩ := hsocket hj
      exact ⟨(h.connecting j hc).1, ho⟩
    · rw [hs, Function.update_of_ne hji] at hj ⊢
      exact h.connecting j hj
  · rw [hconn] at hj
    obtain ⟨hlt, hc⟩ := h.connection j hj
    refine ⟨ha ▸ hlt, ?_⟩
    by_cases hji : j = i
    · subst hji
      rw [hs, Function.update_self]
      exact Bool.eq_false_iff.mpr fun hc' => Bool.noConfusion (hc.symm.trans (hsocket hc').1)
    · rwa [hs, Function.update_of_ne hji]

theorem Single.stream (h : Single s) (hs : socket.Similar (s.socket i)) :
    Single (s.setSocket i socket) := by
  refine h.update rfl rfl rfl fun hc => ?_
  rw [hs.connecting] at hc
  exact ⟨hc, hs.handle.trans (h.connecting i hc).2⟩

theorem Single.closeHandle (h : Single s) (hi : s.connection_ = some i) (callback : CloseCallback) :
    Single (s.closeHandle i callback).1 := by
  rw [closeHandle_fst]
  refine h.update rfl rfl rfl fun hc => ?_
  exact Bool.noConfusion ((h.connection i hi).2.symm.trans hc)

theorem Single.connect (h : Single s) {accepted : Bool} (hc : Careful s (.connect accepted)) :
    Single (s.connect accepted).1 := by
  have hold {j : Nat} (hj : j ≠ s.attempts) : (s.connect accepted).1.socket j = s.socket j :=
    setSocket_of_ne _ _ _ hj
  have hnew : (s.connect accepted).1.socket s.attempts = .raw accepted .opened := setSocket_self ..
  refine ⟨fun j hj => ?_, fun j hj => ?_⟩
  · by_cases hja : j = s.attempts
    · subst hja
      rw [hnew]
      exact ⟨rfl, rfl⟩
    · -- the attempt before would have to be the connection's as well
      rw [hold hja] at hj
      obtain ⟨rfl, ho⟩ := h.connecting j hj
      have hconn := hc (by rw [ho]; exact Phase.noConfusion)
      exact Bool.noConfusion ((h.connection _ hconn).2.symm.trans hj)
  · obtain ⟨hlt, hj'⟩ := h.connection j hj
    rw [hold (Nat.ne_of_lt hlt)]
    exact ⟨Nat.lt_succ_of_lt hlt, hj'⟩

/-- The request that completes is the only one. -/
theorem Single.connectDone (h : Single s) (hu : Unmade s) (hc : (s.socket i).connecting = true)
    (success : Bool) : Single ((s.requestDone i).onConnect success).1 := by
  have hdone : Single (s.requestDone i) := h.update rfl rfl rfl fun hc' => Bool.noConfusion hc'
  have hnone (j : Nat) : ((s.requestDone i).socket j).connecting = false := by
    by_cases hji : j = i
    · subst hji
      rw [requestDone, setSocket_self]
    · rw [requestDone, setSocket_of_ne _ _ _ hji]
      refine Bool.eq_false_iff.mpr fun hj => hji ?_
      exact (h.connecting j hj).1.trans (h.connecting i hc).1.symm
  cases success with
  | true =>
    have hlt : i < s.attempts := by
      by_contra hle
      exact Bool.noConfusion ((hu i (Nat.le_of_not_lt hle)).1.symm.trans hc)
    have hconnecting (j : Nat) : (((s.requestDone i).onConnect true).1.socket j).connecting = false :=
      (socket_connected (s.requestDone i) j).2.trans (hnone j)
    refine ⟨fun j hj => Bool.noConfusion ((hconnecting j).symm.trans hj), fun j hj => ?_⟩
    obtain rfl : s.socket_ = j := Option.some.inj hj
    exact ⟨Nat.sub_lt (Nat.zero_lt_of_lt hlt) Nat.one_pos, hconnecting _⟩
  | false =>
    rw [onConnect]
    split
    next =>
      exact hdone.update rfl rfl rfl fun hc' => Bool.noConfusion ((hnone _).symm.trans hc')
    next => exact hdone

/-- Where only careful events come, one attempt is under way at a time. -/
theorem Single.step (h : Single s) (hu : Unmade s) (hc : Careful s event) (hd : Does s event r) :
    Single r.1 := by
  cases hd with
  | connect accepted => exact h.connect hc
  | connectDone hi ho => exact h.connectDone hu hi _
  | message => exact h
  | stream he hs => exact h.stream hs
  | lost he hs hcb hj => exact (h.stream hs).closeHandle hj .onClose
  | @closed i hclosing hi =>
    rw [onClosed_fst]
    exact h.update rfl rfl rfl fun hc' => Bool.noConfusion (hi.symm.trans hc')
  | close callback =>
    have hnow : Single { s with closes := s.closes + 1 } := ⟨h.connecting, h.connection⟩
    cases hconn : s.connection_ with
    | none =>
      rw [close_of_none hconn]
      exact hnow
    | some i =>
      rw [close_of_some hconn]
      exact hnow.closeHandle hconn _

end single

end AeProxy.TcpClient
