import AeProxy.Client.Ownership

/-! What a client still tells its user behind a `close`. -/
namespace AeProxy.TcpClient
open Lib

/-- Neither the callback of the call, nor a report, nor a message. -/
def Apart (call : Nat) (a : Action) : Prop :=
  a ≠ .userClosed call ∧ (∀ i report, a ≠ .status i report) ∧ ∀ i, a ≠ .message i

/-- Once the callback of the call has run, nothing but the callbacks of other calls does. -/
def Final (call : Nat) (before : List Action) (a : Action) : Prop :=
  .userClosed call ∈ before → Apart call a

/-- No attempt is under way, no socket being closed for its user or for a report, and no connection
left of which the client has lost sight. -/
structure Settled (s : TcpClient) : Prop where
  connecting : ∀ i, (s.socket i).connecting = false
  failed : ∀ i, (s.socket i).failed = true → (s.socket i).handle ≠ .closing
  connection : ∀ i, s.connection_ = some i → (s.socket i).handle ≠ .closing
  others : ∀ i, s.connection_ ≠ some i → (s.socket i).Called false ∧
    ((s.socket i).handle = .closing →
      (s.socket i).connection.closeCompleteCallback ≠ some .onClose)

/-- The calls of `close` are numbered in their order. -/
structure Fresh (s : TcpClient) (log : List Action) : Prop where
  slot : ∀ i call, (s.socket i).connection.closeCompleteCallback = some (.user (some call)) →
    call < s.closes
  log : ∀ call, .userClosed call ∈ log → call < s.closes
  failed : ∀ i, (s.socket i).failed = true → (s.socket i).handle ≠ .opened

/-- A socket that nothing is reported of any more. -/
structure Socket.Hushed (socket : Socket) : Prop where
  connecting : socket.connecting = false
  called : socket.Called false
  failed : socket.failed = true → socket.handle = .closed
  slot : socket.handle = .closing → socket.connection.closeCompleteCallback ≠ some .onClose

theorem Socket.Hushed.not_failed {socket : Socket} (h : socket.Hushed)
    (hne : socket.handle ≠ .closed) : socket.failed = false := by
  by_contra hf
  exact hne (h.failed (Bool.not_eq_false _ ▸ hf))

/-- Behind the call, whose callback stands in one place at most. -/
structure Quiet (call : Nat) (s : TcpClient) (log : List Action) : Prop where
  older : call < s.closes
  hushed : ∀ i, (s.socket i).Hushed
  once : ∀ i, (s.socket i).handle = .closing →
    (s.socket i).connection.closeCompleteCallback = some (.user (some call)) →
    s.connection_ = some i ∧ .userClosed call ∉ log
  final : Each (Final call) log

section fresh
variable {s t : TcpClient} {i : Nat} {socket : Socket} {log out : List Action} {event : Event}
  {r : TcpClient × List Action} {call : Nat}

theorem not_mem_runConnectCallback (s : TcpClient) (i : Nat) (report : ConnectStatus) :
    .userClosed call ∉ s.runConnectCallback i report := by
  rw [runConnectCallback]
  split <;> simp

theorem mem_closeComplete (s : TcpClient) (i : Nat) (callback : Option CloseCallback) :
    .userClosed call ∈ s.closeComplete i callback ↔ callback = some (.user (some call)) := by
  rcases callback with _ | _ | _ | call'
  · simp [closeComplete]
  · exact iff_of_false (not_mem_runConnectCallback _ _ _) nofun
  · simp [closeComplete]
  · simp [closeComplete, eq_comm]

/-- Only one socket has changed. -/
theorem Fresh.update (h : Fresh s log) (hc : s.closes ≤ t.closes)
    (hs : t.socket = Function.update s.socket i socket)
    (hslot : ∀ call, socket.connection.closeCompleteCallback = some (.user (some call)) →
      call < t.closes)
    (hf : socket.failed = true → socket.handle ≠ .opened)
    (hout : ∀ call, .userClosed call ∈ out → call < t.closes) : Fresh t (log ++ out) := by
  refine ⟨?_, fun call hm => ?_, ?_⟩
  · rw [hs]
    exact (Function.forall_update_iff s.socket fun _ socket => ∀ call,
      socket.connection.closeCompleteCallback = some (.user (some call)) → call < t.closes).mpr
      ⟨hslot, fun j _ call hj => Nat.lt_of_lt_of_le (h.slot j call hj) hc⟩
  · rcases List.mem_append.mp hm with hm | hm
    · exact Nat.lt_of_lt_of_le (h.log call hm) hc
    · exact hout call hm
  · rw [hs]
    exact (Function.forall_update_iff s.socket fun _ socket =>
      socket.failed = true → socket.handle ≠ .opened).mpr ⟨hf, fun j _ => h.failed j⟩

/-- `closeHandle` with a callback of an earlier call, or of none. -/
theorem Fresh.closeHandle (h : Fresh s log) (i : Nat) {callback : CloseCallback}
    (hc : ∀ call, callback = .user (some call) → call < s.closes) :
    Fresh (s.closeHandle i callback).1 (log ++ (s.closeHandle i callback).2) := by
  have hslot (call : Nat) (hcall : some callback = some (.user (some call))) : call < s.closes :=
    hc call (Option.some.inj hcall)
  by_cases ho : (s.socket i).handle = .opened
  · rw [closeHandle_of_opened ho]
    exact h.update (Nat.le_refl _) rfl hslot (fun _ => nofun) (by simp)
  · rw [closeHandle_of_not_opened ho]
    refine h.update (Nat.le_refl _) rfl hslot (fun _ => ho) fun call hcall => ?_
    exact hslot call ((mem_closeComplete s i _).mp hcall)

theorem Fresh.stream (h : Fresh s log) (hs : socket.Similar (s.socket i)) :
    Fresh (s.setSocket i socket) log := by
  rw [← List.append_nil log]
  refine h.update (Nat.le_refl _) rfl ?_ ?_ (by simp)
  · rw [hs.closeCompleteCallback]
    exact h.slot i
  · rw [hs.failed, hs.handle]
    exact h.failed i

theorem Fresh.onConnect (h : Fresh s log) (success : Bool) :
    Fresh (s.onConnect success).1 (log ++ (s.onConnect success).2) := by
  cases success with
  | true =>
    exact h.update (Nat.le_refl _) rfl (fun _ he => absurd he (Option.some_ne_none _).symm)
      (fun hf => Bool.noConfusion hf) fun call hm => absurd hm (not_mem_runConnectCallback _ _ _)
  | false =>
    rw [TcpClient.onConnect]
    split
    next =>
      exact h.update (Nat.le_refl _) rfl (h.slot s.socket_) (fun _ ho => Phase.noConfusion ho)
        (by simp)
    next =>
      rw [List.append_nil]
      exact h

theorem Fresh.step (h : Fresh s log) (hd : Does s event r) : Fresh r.1 (log ++ r.2) := by
  cases hd with
  | connect accepted =>
    exact h.update (Nat.le_refl _) rfl nofun (fun hf => Bool.noConfusion hf) (by simp [TcpClient.connect])
  | @connectDone i success hc ho =>
    have hdone : Fresh (s.requestDone i) log := by
      rw [← List.append_nil log]
      exact h.update (Nat.le_refl _) rfl (h.slot i) (h.failed i) (by simp)
    exact hdone.onConnect success
  | message => exact ⟨h.slot, fun call hm => h.log call (by simpa using hm), h.failed⟩
  | stream he hs =>
    rw [List.append_nil]
    exact h.stream hs
  | @lost i j event he socket hs hc hj => exact (h.stream hs).closeHandle j nofun
  | @closed i hc hi =>
    cases hf : (s.socket i).failed with
    | true =>
      rw [onClosed_of_failed hf]
      exact h.update (Nat.le_refl _) rfl (h.slot i) (fun _ => nofun) fun call hm =>
        absurd hm (not_mem_runConnectCallback _ _ _)
    | false =>
      rw [onClosed_of_not_failed hf]
      exact h.update (Nat.le_refl _) rfl (h.slot i) (fun _ => nofun) fun call hm =>
        h.slot i call ((mem_closeComplete s i _).mp hm)
  | close callback =>
    have hnow : Fresh { s with closes := s.closes + 1 } log :=
      ⟨fun i call hi => Nat.lt_succ_of_lt (h.slot i call hi),
        fun call hm => Nat.lt_succ_of_lt (h.log call hm), h.failed⟩
    have hcall (call : Nat) (hc : (if callback then some s.closes else none) = some call) :
        call < s.closes + 1 := by
      cases callback with
      | true => exact Option.some.inj hc ▸ Nat.lt_succ_self _
      | false => cases hc
    cases hconn : s.connection_ with
    | none =>
      rw [close_of_none hconn]
      refine ⟨hnow.slot, fun call hm => ?_, hnow.failed⟩
      rcases List.mem_append.mp hm with hm | hm
      · exact hnow.log call hm
      · cases callback with
        | true =>
          obtain rfl : call = s.closes := by simpa using hm
          exact Nat.lt_succ_self _
        | false => simp at hm
    | some i =>
      rw [close_of_some hconn]
      exact hnow.closeHandle i fun call hc => hcall call (CloseCallback.user.inj hc)

end fresh

section quiet
variable {s t : TcpClient} {i : Nat} {socket : Socket} {log out : List Action} {event : Event}
  {r : TcpClient × List Action} {call : Nat}

theorem each_final_append (h : Each (Final call) log) (hout : ∀ a ∈ out, Apart call a) :
    Each (Final call) (log ++ out) := by
  refine each_append.mpr ⟨h, ?_⟩
  rintro before a later rfl -
  exact hout a (List.mem_append_right _ List.mem_cons_self)

theorem not_mem_append_of_apart (hm : .userClosed call ∉ log) (hout : ∀ a ∈ out, Apart call a) :
    .userClosed call ∉ log ++ out := by
  rw [List.mem_append, not_or]
  exact ⟨hm, fun hcall => (hout _ hcall).1 rfl⟩

theorem apart_closeComplete (s : TcpClient) (i : Nat) {callback : Option CloseCallback}
    (hcall : callback ≠ some (.user (some call))) (hclose : callback ≠ some .onClose) :
    ∀ a ∈ s.closeComplete i callback, Apart call a := by
  rcases callback with _ | _ | _ | other
  · exact nofun
  · exact absurd rfl hclose
  · exact nofun
  · intro a hm
    obtain rfl : a = .userClosed other := by simpa [closeComplete] using hm
    exact ⟨fun he => hcall (Action.userClosed.inj he ▸ rfl), nofun, nofun⟩

/-- One socket has changed, in which the callback of the call is not waiting. -/
theorem Quiet.update (h : Quiet call s log) (hc : s.closes ≤ t.closes)
    (hconn : t.connection_ = s.connection_) (hs : t.socket = Function.update s.socket i socket)
    (hhushed : socket.Hushed)
    (hslot : socket.handle = .closing →
      socket.connection.closeCompleteCallback ≠ some (.user (some call)))
    (hout : ∀ a ∈ out, Apart call a) : Quiet call t (log ++ out) := by
  refine ⟨Nat.lt_of_lt_of_le h.older hc, ?_, ?_, each_final_append h.final hout⟩
  · rw [hs]
    exact (Function.forall_update_iff s.socket fun _ socket => socket.Hushed).mpr
      ⟨hhushed, fun j _ => h.hushed j⟩
  · rw [hs, hconn]
    exact (Function.forall_update_iff s.socket fun j socket => socket.handle = .closing →
      socket.connection.closeCompleteCallback = some (.user (some call)) →
        s.connection_ = some j ∧ .userClosed call ∉ log ++ out).mpr
      ⟨fun hh hcall => absurd hcall (hslot hh), fun j _ hh hcall =>
        (h.once j hh hcall).imp_right fun hm => not_mem_append_of_apart hm hout⟩

theorem Quiet.stream (h : Quiet call s log) (hs : socket.Similar (s.socket i)) :
    Quiet call (s.setSocket i socket) log := by
  have hhushed := h.hushed i
  refine ⟨h.older, ?_, ?_, h.final⟩
  · refine (Function.forall_update_iff s.socket fun _ socket => socket.Hushed).mpr
      ⟨⟨?_, ⟨?_, ?_⟩, ?_, ?_⟩, fun j _ => h.hushed j⟩
    · exact hs.connecting.trans hhushed.connecting
    · exact hs.onMessageCallback.trans hhushed.called.1
    · exact hs.onConnectCloseCallback.trans hhushed.called.2
    · rw [hs.failed, hs.handle]
      exact hhushed.failed
    · rw [hs.handle, hs.closeCompleteCallback]
      exact hhushed.slot
  · refine (Function.forall_update_iff s.socket fun j socket => socket.handle = .closing →
      socket.connection.closeCompleteCallback = some (.user (some call)) →
        s.connection_ = some j ∧ .userClosed call ∉ log).mpr ⟨?_, fun j _ => h.once j⟩
    rw [hs.handle, hs.closeCompleteCallback]
    exact h.once i

/-- A later call of `close`. -/
theorem Quiet.closeHandle (h : Quiet call s log) (i : Nat) {callback : CloseCallback}
    (hcall : callback ≠ .user (some call)) (hclose : callback ≠ .onClose) :
    Quiet call (s.closeHandle i callback).1 (log ++ (s.closeHandle i callback).2) := by
  have hhushed := h.hushed i
  have hslot (c : CloseCallback) (hc : callback ≠ c) : some callback ≠ some c :=
    fun he => hc (Option.some.inj he)
  by_cases ho : (s.socket i).handle = .opened
  · have hf : (s.socket i).failed = false :=
      hhushed.not_failed (by rw [ho]; exact Phase.noConfusion)
    rw [closeHandle_of_opened ho]
    refine h.update (Nat.le_refl _) rfl rfl ⟨hhushed.connecting, ⟨rfl, rfl⟩, fun hf' => ?_, ?_⟩ ?_ ?_
    · exact Bool.noConfusion (hf.symm.trans hf')
    · exact fun _ => hslot _ hclose
    · exact fun _ => hslot _ hcall
    · rintro a hm
      obtain rfl := List.mem_singleton.mp hm
      exact ⟨nofun, nofun, nofun⟩
  · rw [closeHandle_of_not_opened ho]
    refine h.update (Nat.le_refl _) rfl rfl ⟨hhushed.connecting, ⟨rfl, rfl⟩, hhushed.failed, ?_⟩ ?_
      (apart_closeComplete _ _ (hslot _ hcall) (hslot _ hclose))
    · exact fun _ => hslot _ hclose
    · exact fun _ => hslot _ hcall

theorem Quiet.closed (h : Quiet call s log) (hc : (s.socket i).handle = .closing) :
    Quiet call (s.onClosed i).1 (log ++ (s.onClosed i).2) := by
  have hhushed := h.hushed i
  have hf : (s.socket i).failed = false := hhushed.not_failed (by rw [hc]; exact Phase.noConfusion)
  rw [onClosed_of_not_failed hf]
  have hgone : Socket.Hushed { s.socket i with
      connection := { (s.socket i).connection with handle := .closed } } :=
    ⟨hhushed.connecting, hhushed.called, fun _ => rfl, nofun⟩
  by_cases hcall : (s.socket i).connection.closeCompleteCallback = some (.user (some call))
  · obtain ⟨hconn, hm⟩ := h.once i hc hcall
    rw [hcall]
    refine ⟨h.older, ?_, ?_, each_concat.mpr ⟨h.final, fun hm' => absurd hm' hm⟩⟩
    · exact (Function.forall_update_iff s.socket fun _ socket => socket.Hushed).mpr
        ⟨hgone, fun j _ => h.hushed j⟩
    · refine (Function.forall_update_iff s.socket fun j socket => socket.handle = .closing →
        socket.connection.closeCompleteCallback = some (.user (some call)) →
          s.connection_ = some j ∧ .userClosed call ∉ log ++ [.userClosed call]).mpr
        ⟨?_, fun j hj hh hcall' => ?_⟩
      · exact fun hh => Phase.noConfusion hh
      · exact absurd (Option.some.inj ((h.once j hh hcall').1.symm.trans hconn)) hj
  · exact h.update (Nat.le_refl _) rfl rfl hgone nofun
      (apart_closeComplete _ _ hcall (hhushed.slot hc))

theorem Quiet.step (h : Quiet call s log) (he : ∀ accepted, event ≠ .connect accepted)
    (hd : Does s event r) : Quiet call r.1 (log ++ r.2) := by
  cases hd with
  | connect accepted => exact absurd rfl (he accepted)
  | @connectDone i success hc ho =>
    exact Bool.noConfusion ((h.hushed i).connecting.symm.trans hc)
  | @message i hm => exact Bool.noConfusion ((h.hushed i).called.1.symm.trans hm)
  | @stream i event he socket hs =>
    rw [List.append_nil]
    exact h.stream hs
  | @lost i j event he socket hs hc hj =>
    exact Bool.noConfusion ((h.hushed i).called.2.symm.trans hc)
  | @closed i hc hi => exact h.closed hc
  | close callback =>
    have hnow : Quiet call { s with closes := s.closes + 1 } log :=
      ⟨Nat.lt_succ_of_lt h.older, h.hushed, h.once, h.final⟩
    have hother : (if callback then some s.closes else none) ≠ some call := by
      cases callback with
      | true => exact fun he => Nat.ne_of_gt h.older (Option.some.inj he)
      | false => exact nofun
    cases hconn : s.connection_ with
    | none =>
      have hne : some (CloseCallback.user (if callback then some s.closes else none)) ≠
          some (.user (some call)) :=
        fun he => hother (CloseCallback.user.inj (Option.some.inj he))
      have hout := apart_closeComplete s 0 hne nofun
      rw [closeComplete_user] at hout
      rw [close_of_none hconn]
      exact ⟨hnow.older, hnow.hushed, fun j hh hcall =>
        (hnow.once j hh hcall).imp_right fun hm => not_mem_append_of_apart hm hout,
        each_final_append h.final hout⟩
    | some i =>
      rw [close_of_some hconn]
      exact hnow.closeHandle i (fun he => hother (CloseCallback.user.inj he)) nofun

theorem each_final_of_not_mem (hm : .userClosed call ∉ log) : Each (Final call) log := by
  rintro before a later rfl hcall
  exact absurd (List.mem_append_left _ hcall) hm

theorem Settled.hushed (h : Settled s) (hf : Fresh s log) (hi : s.connection_ ≠ some i) :
    (s.socket i).Hushed where
  connecting := h.connecting i
  called := (h.others i hi).1
  failed hfail := by
    cases hh : (s.socket i).handle with
    | opened => exact absurd hh (hf.failed i hfail)
    | closing => exact absurd hh (h.failed i hfail)
    | closed => rfl
  slot := (h.others i hi).2

/-- The first state behind the call. -/
theorem Settled.close (h : Settled s) (hf : Fresh s log) :
    Quiet s.closes (s.close true).1 (log ++ (s.close true).2) := by
  have hlog : .userClosed s.closes ∉ log := fun hm => Nat.lt_irrefl _ (hf.log _ hm)
  have hlast : Each (Final s.closes) (log ++ [.userClosed s.closes]) :=
    each_concat.mpr ⟨each_final_of_not_mem hlog, fun hm => absurd hm hlog⟩
  have hslot (i : Nat) : (s.socket i).connection.closeCompleteCallback ≠
      some (.user (some s.closes)) := fun he => Nat.lt_irrefl _ (hf.slot i _ he)
  cases hconn : s.connection_ with
  | none =>
    rw [close_of_none hconn]
    exact ⟨Nat.lt_succ_self _, fun i => h.hushed hf (hconn ▸ nofun), fun i _ he => absurd he (hslot i),
      hlast⟩
  | some i =>
    have hothers (j : Nat) (hj : j ≠ i) : (s.socket j).Hushed :=
      h.hushed hf fun he => hj (Option.some.inj (hconn.symm.trans he)).symm
    rw [close_of_some hconn]
    by_cases ho : (s.socket i).handle = .opened
    · rw [closeHandle_of_opened (s := { s with closes := s.closes + 1 }) ho]
      have hout : .userClosed s.closes ∉ log ++ [.uvClose i] := by simpa using hlog
      refine ⟨Nat.lt_succ_self _, ?_, ?_, each_final_of_not_mem hout⟩
      · refine (Function.forall_update_iff s.socket fun _ socket => socket.Hushed).mpr
          ⟨⟨h.connecting i, ⟨rfl, rfl⟩, fun hfail => ?_, fun _ => nofun⟩, hothers⟩
        exact absurd ho (hf.failed i hfail)
      · exact (Function.forall_update_iff s.socket fun j socket => socket.handle = .closing →
          socket.connection.closeCompleteCallback = some (.user (some s.closes)) →
            s.connection_ = some j ∧ .userClosed s.closes ∉ log ++ [.uvClose i]).mpr
          ⟨fun _ _ => ⟨hconn, hout⟩, fun j _ _ he => absurd he (hslot j)⟩
    · have hclosed : (s.socket i).handle = .closed := by
        cases hh : (s.socket i).handle with
        | opened => exact absurd hh ho
        | closing => exact absurd hh (h.connection i hconn)
        | closed => rfl
      rw [closeHandle_of_not_opened (s := { s with closes := s.closes + 1 }) ho]
      refine ⟨Nat.lt_succ_self _, ?_, ?_, hlast⟩
      · refine (Function.forall_update_iff s.socket fun _ socket => socket.Hushed).mpr
          ⟨⟨h.connecting i, ⟨rfl, rfl⟩, fun _ => hclosed, fun _ => nofun⟩, hothers⟩
      · refine (Function.forall_update_iff s.socket fun j socket => socket.handle = .closing →
          socket.connection.closeCompleteCallback = some (.user (some s.closes)) →
            s.connection_ = some j ∧ .userClosed s.closes ∉ log ++ [.userClosed s.closes]).mpr
          ⟨fun hh => ?_, fun j _ _ he => absurd he (hslot j)⟩
        exact Phase.noConfusion (hclosed.symm.trans hh)

end quiet

section live
variable {s : TcpClient} {stage : Stage}

/-- Where the earlier attempts are over, a client is settled unless the last is on its way. -/
theorem Live.settled_iff (h : Live s stage) :
    Settled s ↔ stage ≠ .waiting ∧ stage ≠ .failing ∧ ∀ callback, stage ≠ .closing callback := by
  have hshape := h.shape
  constructor
  · intro hs
    refine ⟨?_, ?_, ?_⟩
    · rintro rfl
      exact Bool.noConfusion ((hs.connecting _).symm.trans hshape.1)
    · rintro rfl
      exact hs.failed _ hshape.2.1 h.handle_eq
    · rintro callback rfl
      exact hs.connection _ h.connection h.handle_eq
  · rintro ⟨hw, hf, hc⟩
    have hdead {i : Nat} (hd : (s.socket i).Dead) : (s.socket i).connecting = false ∧
        (s.socket i).handle ≠ .closing ∧ (s.connection_ ≠ some i → (s.socket i).Called false) :=
      ⟨hd.connecting, fun hh => Phase.noConfusion (hd.closed.symm.trans hh), fun _ => hd.called⟩
    have hidle (i : Nat) : (s.socket i).connecting = false ∧ (s.socket i).handle ≠ .closing ∧
        (s.connection_ ≠ some i → (s.socket i).Called false) := by
      by_cases hi : i = s.socket_
      · subst hi
        have hconn := h.connection
        cases stage with
        | ended => exact hdead hshape
        | finished => exact hdead hshape
        | refused =>
          exact ⟨hshape.1, fun hh => Phase.noConfusion (h.handle_eq.symm.trans hh),
            fun _ => hshape.2.2.2⟩
        | up =>
          exact ⟨hshape.1, fun hh => Phase.noConfusion (h.handle_eq.symm.trans hh),
            fun hne => absurd hconn hne⟩
        | waiting => exact absurd rfl hw
        | failing => exact absurd rfl hf
        | closing callback => exact absurd rfl (hc callback)
      · exact hdead (h.others i hi)
    exact ⟨fun i => (hidle i).1, fun i _ => (hidle i).2.1, fun i _ => (hidle i).2.1,
      fun i hi => ⟨(hidle i).2.2 hi, fun hh => absurd hh (hidle i).2.1⟩⟩

end live

theorem run_fresh {connectCallback onMessageCallback : Bool} {events : List Event} {s : TcpClient}
    {log : List Action}
    (hr : (Machine.logged step).run (new connectCallback onMessageCallback, []) events =
      some (s, log)) : Fresh s log := by
  refine Step.run_invariant (I := fun s => Fresh s.1 s.2) (fun s event t hs ht => ?_) ?_ hr
  · obtain ⟨r, hstep, rfl⟩ := Option.map_eq_some_iff.mp ht
    exact hs.step (does_of_step hstep)
  · exact ⟨nofun, nofun, nofun⟩

/-- Nothing replaces a pointer behind the call. -/
theorem Quiet.careful {s : TcpClient} {log : List Action} {call : Nat} {event : Event}
    {r : TcpClient × List Action} (h : Quiet call s log) (he : ∀ accepted, event ≠ .connect accepted)
    (hd : Does s event r) : Careful s event := by
  cases hd with
  | connect accepted => exact absurd rfl (he accepted)
  | @connectDone i success hc ho => exact Bool.noConfusion ((h.hushed i).connecting.symm.trans hc)
  | message => exact trivial
  | stream he hs => rcases he with ⟨input, rfl⟩ | rfl <;> exact trivial
  | lost he hs hc hj => rcases he with ⟨input, rfl⟩ | rfl <;> exact trivial
  | closed hc hi => exact trivial
  | close callback => exact trivial

/-- Behind a `close` of a settled client, whose attempts have been careful, and without another
`connect`: the callback is the last that runs, and no handle is freed that libuv still serves. -/
theorem close_final {connectCallback onMessageCallback : Bool} {before after : List Event}
    {s t : TcpClient} {log log' : List Action}
    (hr : (Machine.logged step).run (new connectCallback onMessageCallback, []) before =
      some (s, log))
    (hc : (Machine.logged step).Throughout (fun s event => Careful s.1 event)
      (new connectCallback onMessageCallback, []) before)
    (hs : Settled s) (ha : ∀ accepted, .connect accepted ∉ after)
    (hr' : (Machine.logged step).run (s, log) (.close true :: after) = some (t, log')) :
    Each (Final s.closes) log' ∧ Owned t := by
  obtain ⟨hu, howned⟩ := run_owned hc hr
  obtain ⟨u, hclose, hafter⟩ := Step.run_cons_eq_some.mp hr'
  obtain rfl := Option.some.inj hclose
  obtain ⟨hu', hiff⟩ := howned.step_iff hu (.close true)
  have hlast := Step.run_invariant_of
    (I := fun u => Quiet s.closes u.1 u.2 ∧ Unmade u.1 ∧ Owned u.1)
    (C := fun _ event => ∀ accepted, event ≠ .connect accepted) ?_
    ⟨hs.close (run_fresh hr), hu', hiff.mpr trivial⟩
    (Step.throughout_of_forall fun event he _ => ?_) hafter
  · exact ⟨hlast.1.final, hlast.2.2⟩
  · rintro s event t ⟨hq, hu, howned⟩ he ht
    obtain ⟨r, hstep, rfl⟩ := Option.map_eq_some_iff.mp ht
    have hd := does_of_step hstep
    obtain ⟨hu', hiff⟩ := howned.step_iff hu hd
    exact ⟨hq.step he hd, hu', hiff.mpr (hq.careful he hd)⟩
  · rintro accepted rfl
    exact ha accepted he

theorem close_final_connected : ∃ s log t log',
    (Machine.logged step).run (new true true, []) [.connect true, .connectDone 0 true] =
      some (s, log) ∧
    (Machine.logged step).run (s, log) [.close true, .closed 0] = some (t, log') ∧
    .userClosed 0 ∈ log' ∧ Each (Final s.closes) log' ∧ Owned t := by
  refine ⟨_, _, _, _, rfl, rfl, by decide, ?_⟩
  refine @close_final true true [.connect true, .connectDone 0 true] [.closed 0] _ _ _ _ rfl
    (.cons (absurd rfl) rfl (.cons nofun rfl trivial)) ?_ ?_ rfl
  · have hconnect := (live_new true).connect true
    obtain ⟨stage, hm, hlive⟩ := @Live.connectDone _ _ _ hconnect 0 true rfl
    cases hm
    exact hlive.settled_iff.mpr ⟨nofun, nofun, nofun⟩
  · simp

theorem not_close_final_connecting : ∃ s log t log',
    (Machine.logged step).run (new true true, []) [.connect true] = some (s, log) ∧
    (Machine.logged step).run (s, log) [.close true, .connectDone 0 true] = some (t, log') ∧
    ¬ Each (Final s.closes) log' := by
  refine ⟨_, _, _, _, rfl, rfl, fun h => ?_⟩
  have hlast := h [.connect 0, .userClosed 0] (.status 0 .connectSuccess) [] rfl (by decide)
  exact hlast.2.1 0 .connectSuccess rfl

section late
variable {s : TcpClient} {stage : Stage} {call : Nat}

/-- The shutdowns of a socket that is closing complete first. -/
theorem Live.drain (h : Live s stage) (hstage : stage = .failing ∨ ∃ callback, stage = .closing callback)
    (log : List Action) : ∃ n t, Live t stage ∧ (t.socket t.socket_).shutdowns = 0 ∧
      (Machine.logged TcpClient.step).run (s, log) (List.replicate n (.shutdownDone s.socket_)) =
        some (t, log) := by
  induction hn : (s.socket s.socket_).shutdowns generalizing s with
  | zero => exact ⟨0, s, h, hn, rfl⟩
  | succ n ih =>
    have hclosing : (s.socket s.socket_).handle = .closing ∧ (s.socket s.socket_).Called false := by
      rcases hstage with rfl | ⟨callback, rfl⟩
      · exact ⟨h.handle_eq, h.callbacks nofun⟩
      · exact ⟨h.handle_eq, h.callbacks nofun⟩
    obtain ⟨t, ht⟩ : ∃ t, t = s.setSocket s.socket_ { s.socket s.socket_ with shutdowns := n } :=
      ⟨_, rfl⟩
    have hlive : Live t stage := by
      rw [ht]
      exact h.stream (by rw [hclosing.1]; exact nofun) rfl rfl rfl
        (s.socket s.socket_).connection.connected n rfl
    have hlast : t.socket_ = s.socket_ := by rw [ht, setSocket_last]
    have hstep : TcpClient.step s (.shutdownDone s.socket_) = some (t, []) := by
      have hpos : 0 < (s.socket s.socket_).shutdowns := hn ▸ Nat.succ_pos n
      rw [TcpClient.step, if_pos hpos, hn, Nat.add_sub_cancel, ← ht, TcpClient.onSocketClose, if_neg]
      rw [ht, setSocket_self]
      exact ne_true_of_eq_false hclosing.2.2
    obtain ⟨m, u, hu, hzero, hrun⟩ := ih hlive (by rw [ht, setSocket_last, setSocket_self])
    refine ⟨m + 1, u, hu, hzero, Step.run_cons_eq_some.mpr ⟨(t, log), ?_, hlast ▸ hrun⟩⟩
    rw [Machine.logged_eq_some hstep, List.append_nil]

theorem not_each_final {log : List Action} {a : Action} (ha : ¬ Apart call a) :
    ¬ Each (Final call) (log ++ [.userClosed call] ++ [a]) := by
  intro h
  exact ha ((each_concat.mp h).2 (List.mem_append_right _ List.mem_cons_self))

/-- A stage behind the call at which libuv can still cause a report or a callback. -/
theorem Live.late (h : Live s stage) (call : Nat) (hstage : stage = .waiting ∨ stage = .failing ∨
    stage = .closing (.user (some call))) (log : List Action) :
    ∃ events t a, (∀ accepted, .connect accepted ∉ events) ∧ ¬ Apart call a ∧
      (Machine.logged TcpClient.step).run (s, log) events = some (t, log ++ [a]) := by
  by_cases hw : stage = .waiting
  · subst hw
    obtain ⟨hc, -, ho, -⟩ := h.shape
    have hstep : TcpClient.step s (.connectDone s.socket_ true) =
        some ((s.requestDone s.socket_).onConnect true) := if_pos ⟨hc, fun _ => ho⟩
    obtain ⟨stage', hm, -⟩ := h.connectDone hstep
    generalize (s.requestDone s.socket_).onConnect true = r at hstep hm
    obtain ⟨t, out⟩ := r
    cases hm with
    | connected =>
      refine ⟨[.connectDone s.socket_ true], t, .status s.socket_ .connectSuccess, by simp,
        fun ha => ha.2.1 _ _ rfl, ?_⟩
      exact Step.run_cons_eq_some.mpr ⟨_, Machine.logged_eq_some hstep log, rfl⟩
    | silent stage he => exact absurd he (by simp)
  · have hlate := hstage.resolve_left hw
    obtain ⟨n, t, hlive, hzero, hrun⟩ :=
      h.drain (hlate.imp_right fun hc => ⟨.user (some call), hc⟩) log
    have hready : (t.socket t.socket_).handle = .closing ∧ (t.socket t.socket_).shutdowns = 0 ∧
        (t.socket t.socket_).connecting = false := by
      have hshape := hlive.shape
      rcases hlate with rfl | rfl
      · exact ⟨hlive.handle_eq, hzero, hshape.1⟩
      · exact ⟨hlive.handle_eq, hzero, hshape.1⟩
    have hstep : TcpClient.step t (.closed t.socket_) = some (t.onClosed t.socket_) := if_pos hready
    obtain ⟨stage', hm, -⟩ := hlive.closed hstep
    generalize t.onClosed t.socket_ = r at hstep hm
    obtain ⟨u, out⟩ := r
    obtain ⟨a, ha, rfl⟩ : ∃ a, ¬ Apart call a ∧ out = [a] := by
      rcases hlate with rfl | rfl
      · cases hm with
        | reported => exact ⟨_, fun ha => ha.2.1 _ _ rfl, rfl⟩
        | silent stage he => exact absurd he (by simp)
      · cases hm with
        | closedByUser => exact ⟨_, fun ha => ha.1 rfl, rfl⟩
        | silent stage he => exact absurd he (by simp)
    refine ⟨List.replicate n (.shutdownDone s.socket_) ++ [.closed t.socket_], u, a, ?_, ha, ?_⟩
    · simp
    · refine Step.run_append_eq_some.mpr ⟨_, hrun, ?_⟩
      exact Step.run_cons_eq_some.mpr ⟨_, Machine.logged_eq_some hstep log, rfl⟩

/-- The other way round: behind the call a report or a second callback can follow. -/
theorem Live.not_final (h : Live s stage) (hs : ¬ Settled s) (log : List Action) :
    ∃ after t log', (∀ accepted, .connect accepted ∉ after) ∧
      (Machine.logged TcpClient.step).run (s, log) (.close true :: after) = some (t, log') ∧
      ¬ Each (Final s.closes) log' := by
  obtain ⟨stage', hm, hlive⟩ := @Live.close _ _ _ h true rfl
  obtain ⟨hout, hstage⟩ : (s.close true).2 = [.userClosed s.closes] ∧ (stage' = .waiting ∨
      stage' = .failing ∨ stage' = .closing (.user (some s.closes))) := by
    generalize (s.close true).2 = out at hm
    rw [h.settled_iff] at hs
    cases hm with
    | close => exact absurd ⟨nofun, nofun, nofun⟩ hs
    | closeAgain => exact ⟨rfl, .inr (.inr rfl)⟩
    | closeIdle hidle =>
      refine ⟨rfl, ?_⟩
      by_contra hne
      exact hs ⟨fun hw => hne (.inl hw), fun hf => hne (.inr (.inl hf)), hidle.2⟩
    | lost he => exact absurd he (by simp)
    | silent stage he => exact absurd he (by simp)
  obtain ⟨after, t, a, hconnect, ha, hrun⟩ :=
    hlive.late s.closes hstage (log ++ [.userClosed s.closes])
  refine ⟨after, t, _, hconnect, Step.run_cons_eq_some.mpr ⟨_, ?_, hrun⟩, not_each_final ha⟩
  exact hout ▸ Machine.logged_eq_some (t := (s.close true).1) rfl log

end late
end AeProxy.TcpClient
