import Mathlib.Algebra.BigOperators.Group.Finset.Piecewise
import AeProxy.Client.Ownership

/-! Whether every attempt to connect is answered: what `uv_tcp_connect` returns is dropped, and all
attempts share one request and the last socket. -/
namespace AeProxy.TcpClient
open Lib

/-- libuv has a request of the attempt under way, to connect or to close after the failure. -/
def Socket.pending (self : Socket) : Bool :=
  self.connecting || self.failed && decide (self.handle = .closing)

def pendings (s : TcpClient) : Finset Nat :=
  (Finset.range s.attempts).filter fun i => (s.socket i).pending = true

def connects (log : List Action) : Nat := log.countP fun
  | .connect _ => true
  | _ => false

/-- The reports of a success or a failure. -/
def answers (log : List Action) : Nat := log.countP fun
  | .status _ report => report ≠ .connectClose
  | _ => false

/-- Every call of `connect` has its answer, or a request under way. -/
def Answered : TcpClient × List Action → Prop
  | (s, log) => connects log = answers log + (pendings s).card

/-- The request to connect is accepted. It fails on the last socket, or when no other attempt is
under way on that, and succeeds when no failure is to be reported there. -/
def Orderly (s : TcpClient) : Event → Prop
  | .connect accepted => accepted = true
  | .connectDone i false => (s.socket s.socket_).handle = .opened ∧
      (i = s.socket_ ∨ (s.socket s.socket_).connecting = false)
  | .connectDone _ true =>
      ¬ ((s.socket s.socket_).failed = true ∧ (s.socket s.socket_).handle = .closing)
  | _ => True

/-- A socket closed for a failure is not connecting any more. -/
structure Tidy (s : TcpClient) : Prop where
  reports : s.connectCallback_ = true
  failed : ∀ i, (s.socket i).failed = true →
    (s.socket i).handle ≠ .opened ∧ (s.socket i).connecting = false
  unused : ∀ i, s.attempts ≤ i → (s.socket i).connecting = false ∧ (s.socket i).failed = false

section pendings
variable {s t : TcpClient} {i : Nat} {socket : Socket}

/-- One socket has changed. -/
theorem card_pendings_update (ha : t.attempts = s.attempts)
    (hs : t.socket = Function.update s.socket i socket)
    (hi : s.attempts ≤ i → socket.pending = (s.socket i).pending) :
    (pendings t).card + (s.socket i).pending.toNat = (pendings s).card + socket.pending.toNat := by
  have hother (j : Nat) (hj : j ≠ i) : t.socket j = s.socket j := by
    rw [hs, Function.update_of_ne hj]
  by_cases hlt : i < s.attempts
  · have hmem : i ∈ Finset.range s.attempts := Finset.mem_range.mpr hlt
    have hrest : ∀ j ∈ (Finset.range s.attempts).erase i,
        (if (t.socket j).pending = true then 1 else 0) =
          if (s.socket j).pending = true then 1 else 0 :=
      fun j hj => by rw [hother j (Finset.ne_of_mem_erase hj)]
    rw [pendings, pendings, ha, Finset.card_filter, Finset.card_filter,
      ← Finset.add_sum_erase _ (fun j => if (t.socket j).pending = true then 1 else 0) hmem,
      ← Finset.add_sum_erase _ (fun j => if (s.socket j).pending = true then 1 else 0) hmem,
      Finset.sum_congr rfl hrest, hs, Function.update_self]
    cases socket.pending <;> cases (s.socket i).pending <;> simp <;> omega
  · have hsame : pendings t = pendings s := by
      rw [pendings, pendings, ha]
      refine Finset.filter_congr fun j hj => ?_
      rw [hother j fun hji => hlt (hji ▸ Finset.mem_range.mp hj)]
    rw [hsame, hi (Nat.le_of_not_lt hlt)]

end pendings

section tidy
variable {s t : TcpClient} {i : Nat} {socket : Socket} {event : Event}
  {r : TcpClient × List Action}

theorem Tidy.update (h : Tidy s) (hr : t.connectCallback_ = s.connectCallback_)
    (ha : t.attempts = s.attempts) (hs : t.socket = Function.update s.socket i socket)
    (hf : socket.failed = true → socket.handle ≠ .opened ∧ socket.connecting = false)
    (hu : s.attempts ≤ i → socket.connecting = false ∧ socket.failed = false) : Tidy t := by
  refine ⟨hr.trans h.reports, fun j => ?_, fun j hj => ?_⟩
  · by_cases hji : j = i
    · subst hji
      rwa [hs, Function.update_self]
    · rw [hs, Function.update_of_ne hji]
      exact h.failed j
  · rw [ha] at hj
    by_cases hji : j = i
    · subst hji
      rw [hs, Function.update_self]
      exact hu hj
    · rw [hs, Function.update_of_ne hji]
      exact h.unused j hj

theorem Tidy.not_failed (h : Tidy s)
    (hi : (s.socket i).handle = .opened ∨ (s.socket i).connecting = true) :
    (s.socket i).failed = false := by
  by_contra hf
  obtain ⟨hnot, hc⟩ := h.failed i (Bool.not_eq_false _ ▸ hf)
  rcases hi with ho | hc'
  · exact hnot ho
  · exact Bool.noConfusion (hc.symm.trans hc')

theorem Tidy.attempt_lt (h : Tidy s) (hc : (s.socket i).connecting = true) : i < s.attempts := by
  by_contra hi
  exact Bool.noConfusion ((h.unused i (Nat.le_of_not_lt hi)).1.symm.trans hc)

theorem Tidy.stream (h : Tidy s) (hs : socket.Similar (s.socket i)) :
    Tidy (s.setSocket i socket) := by
  refine h.update rfl rfl rfl ?_ ?_
  · rw [hs.failed, hs.handle, hs.connecting]
    exact h.failed i
  · rw [hs.failed, hs.connecting]
    exact h.unused i

theorem Tidy.closeHandle (h : Tidy s) (i : Nat) (callback : CloseCallback) :
    Tidy (s.closeHandle i callback).1 := by
  rw [closeHandle_fst]
  refine h.update rfl rfl rfl (fun hf => ?_) (h.unused i)
  have hnot : (s.socket i).handle ≠ .opened := (h.failed i hf).1
  refine ⟨?_, (h.failed i hf).2⟩
  show ((s.socket i).connection.close (some callback)).1.handle ≠ .opened
  rw [TcpConnection.close_of_not_opened hnot]
  exact hnot

theorem card_pendings_stream (hs : socket.Similar (s.socket i)) :
    (pendings (s.setSocket i socket)).card = (pendings s).card := by
  have hsame : socket.pending = (s.socket i).pending := by
    rw [Socket.pending, Socket.pending, hs.connecting, hs.failed, hs.handle]
  have hcard : (pendings (s.setSocket i socket)).card + (s.socket i).pending.toNat =
      (pendings s).card + socket.pending.toNat := card_pendings_update rfl rfl fun _ => hsame
  rw [hsame] at hcard
  exact Nat.add_right_cancel hcard

theorem Tidy.card_pendings_closeHandle (h : Tidy s) (i : Nat) (callback : CloseCallback) :
    (pendings (s.closeHandle i callback).1).card = (pendings s).card := by
  have hsame : Socket.pending { s.socket i with
      connection := ((s.socket i).connection.close (some callback)).1 } = (s.socket i).pending := by
    by_cases ho : (s.socket i).handle = .opened
    · rw [Socket.pending, Socket.pending, h.not_failed (.inl ho), Bool.false_and, Bool.false_and]
    · rw [TcpConnection.close_of_not_opened ho]
      rfl
  rw [closeHandle_fst]
  have hcard := card_pendings_update (s := s) (t := s.setConnection i
    ((s.socket i).connection.close (some callback)).1) rfl rfl fun _ => hsame
  rw [hsame] at hcard
  exact Nat.add_right_cancel hcard

theorem closeComplete_counts (s : TcpClient) (i : Nat) (callback : Option CloseCallback) :
    connects (s.closeComplete i callback) = 0 ∧ answers (s.closeComplete i callback) = 0 := by
  rcases callback with _ | _ | _ | call
  · exact ⟨rfl, rfl⟩
  · rw [closeComplete, runConnectCallback]
    split <;> exact ⟨rfl, rfl⟩
  · exact ⟨rfl, rfl⟩
  · exact ⟨rfl, rfl⟩

theorem closeHandle_counts (s : TcpClient) (i : Nat) (callback : CloseCallback) :
    connects (s.closeHandle i callback).2 = 0 ∧ answers (s.closeHandle i callback).2 = 0 := by
  by_cases ho : (s.socket i).handle = .opened
  · rw [closeHandle_of_opened ho]
    exact ⟨rfl, rfl⟩
  · rw [closeHandle_of_not_opened ho]
    exact closeComplete_counts ..

/-- A request to connect ends with no other one on the way for the same socket. -/
theorem Tidy.connectDone (h : Tidy s) (hc : (s.socket i).connecting = true) :
    Tidy (s.requestDone i) ∧ (pendings (s.requestDone i)).card + 1 = (pendings s).card := by
  have hf : (s.socket i).failed = false := h.not_failed (.inr hc)
  constructor
  · refine h.update rfl rfl rfl (fun hf' => ?_) fun hi => ⟨rfl, hf⟩
    exact Bool.noConfusion (hf.symm.trans hf')
  · have hcard := card_pendings_update (s := s) (t := s.requestDone i) rfl rfl
      fun hi => absurd (h.attempt_lt hc) (Nat.not_lt_of_le hi)
    rw [Socket.pending, Socket.pending, hc, hf] at hcard
    exact hcard

theorem Tidy.connected (h : Tidy s) : Tidy (s.onConnect true).1 ∧
    ((pendings (s.onConnect true).1).card = (pendings s).card ↔
      ¬ ((s.socket s.socket_).failed = true ∧ (s.socket s.socket_).handle = .closing)) := by
  constructor
  · refine h.update rfl rfl rfl (fun hf => Bool.noConfusion hf) fun hi => ?_
    exact ⟨(h.unused _ hi).1, rfl⟩
  · have hcard := card_pendings_update (s := s) (t := (s.onConnect true).1) rfl rfl fun hi => by
      rw [Socket.pending, Socket.pending, (h.unused _ hi).1, (h.unused _ hi).2]
      rfl
    rw [Socket.pending, Socket.pending, Bool.false_and, Bool.or_false] at hcard
    by_cases hf : (s.socket s.socket_).failed = true ∧ (s.socket s.socket_).handle = .closing
    · rw [(h.failed _ hf.1).2, hf.1, hf.2] at hcard
      have hless : (pendings (s.onConnect true).1).card + 1 = (pendings s).card := hcard
      refine iff_of_false (fun he => ?_) (not_not_intro hf)
      omega
    · have hnot : ((s.socket s.socket_).failed && decide ((s.socket s.socket_).handle = .closing)) =
          false := by
        rw [← Bool.not_eq_true, Bool.and_eq_true, decide_eq_true_iff]
        exact hf
      rw [hnot, Bool.or_false] at hcard
      exact iff_of_true (Nat.add_right_cancel hcard) hf

theorem Tidy.failedConnect (h : Tidy s) (hlt : s.socket_ < s.attempts) :
    ((s.socket s.socket_).connecting = false → Tidy (s.onConnect false).1) ∧
    ((pendings (s.onConnect false).1).card = (pendings s).card + 1 ↔
      (s.socket s.socket_).handle = .opened ∧ (s.socket s.socket_).connecting = false) := by
  by_cases ho : (s.socket s.socket_).handle = .opened
  · obtain ⟨socket, hstep, hc, hf, hh⟩ : ∃ socket : Socket,
        (s.onConnect false).1 = s.setSocket s.socket_ socket ∧
          socket.connecting = (s.socket s.socket_).connecting ∧ socket.failed = true ∧
          socket.handle = .closing := by
      refine ⟨{ s.socket s.socket_ with
        failed := true
        connection := { (s.socket s.socket_).connection with handle := .closing } }, ?_, rfl, rfl, rfl⟩
      rw [onConnect, if_pos (Phase.isClosing_eq_false.mpr ho)]
    have hold : (s.socket s.socket_).failed = false := h.not_failed (.inl ho)
    have hnone (hi : s.attempts ≤ s.socket_) : False := absurd hlt (Nat.not_lt_of_le hi)
    rw [hstep]
    constructor
    · intro hc'
      exact h.update rfl rfl rfl (fun _ => ⟨by rw [hh]; exact Phase.noConfusion, hc.trans hc'⟩) fun hi =>
        (hnone hi).elim
    · have hcard := card_pendings_update (s := s) (t := s.setSocket s.socket_ socket) rfl rfl
        fun hi => (hnone hi).elim
      have hnew : socket.pending = true := by simp [Socket.pending, hf, hh]
      have hwas : (s.socket s.socket_).pending = (s.socket s.socket_).connecting := by
        simp [Socket.pending, hold]
      rw [hnew, hwas] at hcard
      rw [and_iff_right ho]
      cases hc' : (s.socket s.socket_).connecting with
      | false =>
        rw [hc'] at hcard
        exact iff_of_true hcard rfl
      | true =>
        rw [hc'] at hcard
        refine iff_of_false (fun he => ?_) Bool.noConfusion
        exact Nat.succ_ne_self _ (he.symm.trans (Nat.add_right_cancel hcard))
  · have hstep : (s.onConnect false).1 = s := by
      rw [onConnect, if_neg (mt Phase.isClosing_eq_false.mp ho)]
    rw [hstep]
    exact ⟨fun _ => h, iff_of_false (Nat.ne_of_lt (Nat.lt_succ_self _)) fun hn => ho hn.1⟩

theorem Tidy.socket_lt (h : Tidy s) (hc : (s.socket i).connecting = true) :
    s.socket_ < s.attempts :=
  Nat.sub_lt (Nat.zero_lt_of_lt (h.attempt_lt hc)) Nat.one_pos

theorem Tidy.connect (h : Tidy s) (accepted : Bool) : Tidy (s.connect accepted).1 ∧
    (pendings (s.connect accepted).1).card = (pendings s).card + accepted.toNat := by
  have hnew : (s.connect accepted).1.socket s.attempts = .raw accepted .opened := setSocket_self ..
  have hold (j : Nat) (hj : j ≠ s.attempts) : (s.connect accepted).1.socket j = s.socket j :=
    setSocket_of_ne _ _ _ hj
  constructor
  · refine ⟨h.reports, fun j hf => ?_, fun j hj => ?_⟩
    · by_cases hj : j = s.attempts
      · subst hj
        rw [hnew] at hf
        exact Bool.noConfusion hf
      · rw [hold j hj] at hf ⊢
        exact h.failed j hf
    · rw [hold j (Nat.ne_of_gt hj)]
      exact h.unused j (Nat.le_of_succ_le hj)
  · have hrest : (Finset.range s.attempts).filter
        (fun j => ((s.connect accepted).1.socket j).pending = true) = pendings s :=
      Finset.filter_congr fun j hj => by rw [hold j (Nat.ne_of_lt (Finset.mem_range.mp hj))]
    have hfirst : ((s.connect accepted).1.socket s.attempts).pending = accepted := by
      rw [hnew]
      exact Bool.or_false accepted
    have hnot : s.attempts ∉ pendings s := fun hm =>
      Nat.lt_irrefl _ (Finset.mem_range.mp (Finset.mem_filter.mp hm).1)
    have hall : pendings (s.connect accepted).1 =
        if accepted = true then insert s.attempts (pendings s) else pendings s := by
      rw [← hrest, pendings, show (s.connect accepted).1.attempts = s.attempts + 1 from rfl,
        Finset.range_add_one, Finset.filter_insert, hfirst]
    rw [hall]
    cases accepted with
    | true => exact Finset.card_insert_of_notMem hnot
    | false => rfl

theorem Tidy.closed (h : Tidy s) (hc : (s.socket i).handle = .closing)
    (hi : (s.socket i).connecting = false) : Tidy (s.onClosed i).1 ∧
      connects (s.onClosed i).2 = 0 ∧
      (pendings s).card = answers (s.onClosed i).2 + (pendings (s.onClosed i).1).card := by
  have hgone : Socket.pending { s.socket i with
      connection := { (s.socket i).connection with handle := .closed } } = false := by
    rw [Socket.pending, hi]
    exact Bool.and_false _
  have hwas : (s.socket i).pending = (s.socket i).failed := by
    rw [Socket.pending, hi, hc, Bool.false_or]
    exact Bool.and_true _
  have hcard := card_pendings_update (s := s)
    (t := s.setConnection i { (s.socket i).connection with handle := .closed }) rfl rfl fun hu => by
      rw [hgone, hwas, (h.unused i hu).2]
  rw [hgone, hwas] at hcard
  have htidy : Tidy (s.setConnection i { (s.socket i).connection with handle := .closed }) :=
    h.update rfl rfl rfl (fun _ => ⟨nofun, hi⟩) (h.unused i)
  cases hf : (s.socket i).failed with
  | true =>
    rw [hf] at hcard
    rw [onClosed_of_failed hf, runConnectCallback, if_pos h.reports]
    exact ⟨htidy, rfl, hcard.symm.trans (Nat.add_comm ..)⟩
  | false =>
    rw [hf] at hcard
    obtain ⟨hconnects, hanswers⟩ :=
      closeComplete_counts s i (s.socket i).connection.closeCompleteCallback
    rw [onClosed_of_not_failed hf]
    exact ⟨htidy, hconnects, by rw [hanswers, Nat.zero_add]; exact hcard.symm⟩

/-- The last socket behind the end of a request to connect. -/
theorem last_connectDone (s : TcpClient) (i : Nat) :
    ((s.requestDone i).socket s.socket_).failed = (s.socket s.socket_).failed ∧
      ((s.requestDone i).socket s.socket_).handle = (s.socket s.socket_).handle ∧
      (((s.requestDone i).socket s.socket_).connecting = false ↔
        i = s.socket_ ∨ (s.socket s.socket_).connecting = false) := by
  by_cases hi : i = s.socket_
  · subst hi
    rw [requestDone, setSocket_self]
    exact ⟨rfl, rfl, iff_of_true rfl (.inl rfl)⟩
  · rw [requestDone, setSocket_of_ne _ _ _ (Ne.symm hi)]
    exact ⟨rfl, rfl, by rw [or_iff_right hi]⟩

/-- An event does not change the balance exactly if it is orderly. -/
theorem Tidy.balance (h : Tidy s) (hd : Does s event r) :
    (Orderly s event → Tidy r.1) ∧
      (connects r.2 + (pendings s).card = answers r.2 + (pendings r.1).card ↔ Orderly s event) := by
  cases hd with
  | connect accepted =>
    obtain ⟨ht, hcard⟩ := h.connect accepted
    refine ⟨fun _ => ht, ?_⟩
    have hone : connects (s.connect accepted).2 = 1 ∧ answers (s.connect accepted).2 = 0 := ⟨rfl, rfl⟩
    rw [hcard, hone.1, hone.2]
    cases accepted with
    | true => exact iff_of_true (by simp [Nat.add_comm]) rfl
    | false => exact iff_of_false (by simp) Bool.noConfusion
  | @connectDone i success hc ho =>
    obtain ⟨hdone, hcard⟩ := h.connectDone hc
    obtain ⟨hf, hh, hconn⟩ := s.last_connectDone i
    cases success with
    | true =>
      obtain ⟨ht, hiff⟩ := hdone.connected
      have hone : answers ((s.requestDone i).onConnect true).2 = 1 := by
        rw [onConnect, runConnectCallback, if_pos hdone.reports]
        rfl
      have hnone : connects ((s.requestDone i).onConnect true).2 = 0 := by
        rw [onConnect, runConnectCallback, if_pos hdone.reports]
        rfl
      refine ⟨fun _ => ht, ?_⟩
      rw [requestDone_last, hf, hh] at hiff
      rw [hone, hnone, ← hcard]
      refine Iff.trans ?_ hiff
      omega
    | false =>
      obtain ⟨ht, hiff⟩ := hdone.failedConnect (h.socket_lt hc)
      have hnone : connects ((s.requestDone i).onConnect false).2 = 0 ∧
          answers ((s.requestDone i).onConnect false).2 = 0 := by
        rw [onConnect]
        split <;> exact ⟨rfl, rfl⟩
      rw [requestDone_last, hh, hconn] at hiff
      refine ⟨fun ho => ht (hconn.mpr ho.2), ?_⟩
      rw [hnone.1, hnone.2, ← hcard]
      refine Iff.trans ?_ hiff
      omega
  | message => exact ⟨fun _ => h, iff_of_true rfl trivial⟩
  | @stream i event he socket hs =>
    refine ⟨fun _ => h.stream hs, iff_of_true ?_ ?_⟩
    · rw [card_pendings_stream hs]
      rfl
    · rcases he with ⟨input, rfl⟩ | rfl <;> exact trivial
  | @lost i j event he socket hs hc hj =>
    obtain ⟨hconnects, hanswers⟩ := closeHandle_counts (s.setSocket i socket) j .onClose
    refine ⟨fun _ => (h.stream hs).closeHandle j .onClose, iff_of_true ?_ ?_⟩
    · rw [hconnects, hanswers, (h.stream hs).card_pendings_closeHandle, card_pendings_stream hs]
    · rcases he with ⟨input, rfl⟩ | rfl <;> exact trivial
  | closed hc hi =>
    obtain ⟨ht, hconnects, hcard⟩ := h.closed hc hi
    exact ⟨fun _ => ht, iff_of_true (by rw [hconnects, Nat.zero_add, hcard]) trivial⟩
  | close callback =>
    have hnow : Tidy { s with closes := s.closes + 1 } := ⟨h.reports, h.failed, h.unused⟩
    cases hconn : s.connection_ with
    | none =>
      rw [close_of_none hconn]
      refine ⟨fun _ => hnow, iff_of_true ?_ trivial⟩
      cases callback <;> rfl
    | some j =>
      obtain ⟨hconnects, hanswers⟩ := closeHandle_counts { s with closes := s.closes + 1 } j
        (.user (if callback then some s.closes else none))
      rw [close_of_some hconn]
      refine ⟨fun _ => hnow.closeHandle j _, iff_of_true ?_ trivial⟩
      rw [hconnects, hanswers, hnow.card_pendings_closeHandle]
      rfl

end tidy

theorem tidy_new (onMessageCallback : Bool) : Tidy (new true onMessageCallback) :=
  ⟨rfl, fun _ hf => Bool.noConfusion hf, fun _ _ => ⟨rfl, rfl⟩⟩

theorem answered_new (onMessageCallback : Bool) : Answered (new true onMessageCallback, []) := rfl

theorem Tidy.answered_iff (h : Tidy s) {log : List Action} (hp : Answered (s, log))
    (hd : Does s event r) : Answered (r.1, log ++ r.2) ↔ Orderly s event := by
  rw [← (h.balance hd).2]
  have hnow : connects log = answers log + (pendings s).card := hp
  show connects (log ++ r.2) = answers (log ++ r.2) + (pendings r.1).card ↔ _
  rw [connects, answers, List.countP_append, List.countP_append, ← connects, ← connects, ← answers,
    ← answers]
  omega

/-- Where one attempt is under way at a time, an event is orderly unless its request is refused. -/
theorem Single.orderly_iff (h : Single s) (hd : Does s event r) :
    Orderly s event ↔ event ≠ .connect false := by
  cases hd with
  | connect accepted =>
    cases accepted with
    | true => exact iff_of_true rfl nofun
    | false => exact iff_of_false nofun fun hn => hn rfl
  | @connectDone i success hc ho =>
    obtain ⟨rfl, hopened⟩ := h.connecting i hc
    refine iff_of_true ?_ nofun
    cases success with
    | true => exact fun hf => Phase.noConfusion (hf.2.symm.trans hopened)
    | false => exact ⟨hopened, .inl rfl⟩
  | message => exact iff_of_true trivial nofun
  | stream he hs => rcases he with ⟨input, rfl⟩ | rfl <;> exact iff_of_true trivial nofun
  | lost he hs hc hj => rcases he with ⟨input, rfl⟩ | rfl <;> exact iff_of_true trivial nofun
  | closed hc hi => exact iff_of_true trivial nofun
  | close callback => exact iff_of_true trivial nofun

/-- In every run: in all states along it every attempt is answered, and no handle freed that libuv
still serves, exactly if no request is refused, and every `connect` and every success is careful. -/
theorem answered_iff_careful {onMessageCallback : Bool} {events : List Event}
    {t : TcpClient × List Action}
    (hr : (Machine.logged step).run (new true onMessageCallback, []) events = some t) :
    (∀ before later u, events = before ++ later →
        (Machine.logged step).run (new true onMessageCallback, []) before = some u →
          Answered u ∧ Owned u.1) ↔
      (Machine.logged step).Throughout (fun s event => event ≠ .connect false ∧ Careful s.1 event)
        (new true onMessageCallback, []) events := by
  refine Step.prefixes_iff_throughout (I := fun s => Tidy s.1 ∧ Unmade s.1 ∧ Single s.1)
    (P := fun s => Answered s ∧ Owned s.1) ?_ ?_
    ⟨tidy_new _, fun _ _ => ⟨rfl, rfl⟩, single_new _ _⟩
    ⟨answered_new _, fun _ hi => absurd rfl hi⟩ hr
  · rintro s event t ⟨htidy, hu, hsingle⟩ ⟨-, howned⟩ ⟨ha, hc⟩ ht
    obtain ⟨r, hstep, rfl⟩ := Option.map_eq_some_iff.mp ht
    have hd := does_of_step hstep
    have hnext := hsingle.step hu hc hd
    exact ⟨(htidy.balance hd).1 ((hsingle.orderly_iff hd).mpr ha), (howned.step_iff hu hd).1, hnext⟩
  · rintro s event t ⟨htidy, hu, hsingle⟩ ⟨hp, howned⟩ ht
    obtain ⟨r, hstep, rfl⟩ := Option.map_eq_some_iff.mp ht
    have hd := does_of_step hstep
    exact and_congr ((htidy.answered_iff hp hd).trans (hsingle.orderly_iff hd))
      (howned.step_iff hu hd).2

theorem answered_iff_careful_failure : ∃ t, (Machine.logged step).run (new true true, [])
      [.connect true, .connectDone 0 false, .closed 0, .connect true] = some t ∧ Answered t := by
  have hall := (@answered_iff_careful true [.connect true, .connectDone 0 false, .closed 0,
    .connect true] _ rfl).mpr (.cons ⟨nofun, absurd rfl⟩ rfl (.cons ⟨nofun, trivial⟩ rfl
      (.cons ⟨nofun, trivial⟩ rfl (.cons ⟨nofun, absurd rfl⟩ rfl trivial))))
  exact ⟨_, rfl, (hall _ [] _ (List.append_nil _).symm rfl).1⟩

theorem not_answered_refused :
    ∃ t, (Machine.logged step).run (new true true, []) [.connect false] = some t ∧ ¬ Answered t :=
  ⟨_, rfl, Nat.one_ne_zero⟩

end AeProxy.TcpClient
