import Mathlib.Data.Nat.Count
import AeProxy.Client.Ownership

/-! The connections of a client, numbered as they are made: a socket on which the attempt has failed
has none. In a careful run each socket is one attempt, and then a connection or nothing. -/
namespace AeProxy.TcpClient
open Lib

/-- A connection has been made on it: its callback is set, or it has been asked to close. -/
def Socket.Made (self : Socket) : Prop :=
  self.connection.onMessageCallback = true ∨ self.connection.closeCompleteCallback.isSome = true

instance : DecidablePred Socket.Made :=
  fun _ => inferInstanceAs (Decidable (_ = true ∨ _ = true))

/-- The number of the connection on a socket. -/
def number (self : TcpClient) (i : Nat) : Nat := Nat.count (fun j => (self.socket j).Made) i

/-- libuv reads from the sockets of connections alone. -/
def Served (s : TcpClient) : Event → Prop
  | .read i _ => (s.socket i).Made
  | _ => True

/-- What a socket is used for: an attempt, and a connection once it has succeeded. A closing that
ends in `after_connect_fail` is the last attempt's. -/
structure Socket.Fits (attempts i : Nat) (socket : Socket) : Prop where
  made : socket.Made → i < attempts ∧ socket.connecting = false ∧ socket.failed = false
  raw : ¬ socket.Made → socket.shutdowns = 0 ∧ (socket.handle = .closing → socket.failed = true)
  failed : socket.failed = true → socket.handle = .closing → i = attempts - 1

structure Regular (s : TcpClient) : Prop where
  single : Single s
  unmade : Unmade s
  fits : ∀ i, (s.socket i).Fits s.attempts i
  connection : ∀ i, s.connection_ = some i → (s.socket i).Made

section regular
variable {s t : TcpClient} {i : Nat} {socket : Socket}

theorem not_made_raw (connecting : Bool) (handle : Phase) :
    ¬ (Socket.raw connecting handle).Made := by
  rintro (hm | hm) <;> cases hm

theorem number_congr {n : Nat} (h : ∀ i < n, ((t.socket i).Made ↔ (s.socket i).Made)) :
    t.number n = s.number n :=
  Nat.le_antisymm (Nat.count_mono_left fun i hi => (h i hi).mp)
    (Nat.count_mono_left fun i hi => (h i hi).mpr)

theorem made_setSocket (hm : socket.Made ↔ (s.socket i).Made) (j : Nat) :
    ((s.setSocket i socket).socket j).Made ↔ (s.socket j).Made := by
  rcases eq_or_ne j i with rfl | hj
  · rw [setSocket_self, hm]
  · rw [setSocket_of_ne _ _ _ hj]

theorem number_setSocket (hm : socket.Made ↔ (s.socket i).Made) :
    (s.setSocket i socket).number = s.number :=
  funext fun _ => number_congr fun j _ => made_setSocket hm j

theorem Regular.fits_update (h : Regular s) {attempts : Nat} (hs : attempts = s.attempts)
    (hsocket : socket.Fits attempts i) (j : Nat) :
    ((s.setSocket i socket).socket j).Fits attempts j := by
  rcases eq_or_ne j i with rfl | hj
  · rwa [setSocket_self]
  · rw [setSocket_of_ne _ _ _ hj, hs]
    exact h.fits j

/-- A socket that stays what it is, an attempt or a connection. -/
theorem Regular.setSocket (h : Regular s) (hi : i < s.attempts) (hm : socket.Made ↔ (s.socket i).Made)
    (hconnecting : socket.connecting = true →
      (s.socket i).connecting = true ∧ socket.handle = .opened)
    (hsocket : socket.Fits s.attempts i) : Regular (s.setSocket i socket) where
  single := h.single.update rfl rfl rfl hconnecting
  unmade j hj := by
    rw [setSocket_of_ne _ _ _ (Nat.ne_of_gt (Nat.lt_of_lt_of_le hi hj))]
    exact h.unmade j hj
  fits := h.fits_update rfl hsocket
  connection j hj := (made_setSocket hm j).mpr (h.connection j hj)

/-- A connection. -/
theorem Regular.setMade (h : Regular s) (hi : (s.socket i).Made) (hm : socket.Made)
    (hconnecting : socket.connecting = (s.socket i).connecting)
    (hfailed : socket.failed = (s.socket i).failed) : Regular (s.setSocket i socket) := by
  obtain ⟨hlt, hc, hf⟩ := (h.fits i).made hi
  rw [hc] at hconnecting
  rw [hf] at hfailed
  exact h.setSocket hlt (iff_of_true hm hi) (fun ht => Bool.noConfusion (hconnecting.symm.trans ht))
    ⟨fun _ => ⟨hlt, hconnecting, hfailed⟩, fun hn => absurd hm hn,
      fun ht => Bool.noConfusion (hfailed.symm.trans ht)⟩

theorem made_closeHandle (s : TcpClient) (i : Nat) (callback : CloseCallback) :
    Socket.Made { s.socket i with connection := ((s.socket i).connection.close (some callback)).1 } := by
  refine .inr ?_
  rcases eq_or_ne (s.socket i).connection.handle .opened with ho | ho
  · rw [TcpConnection.close_of_opened ho]
    rfl
  · rw [TcpConnection.close_of_not_opened ho]
    rfl

theorem Regular.closeHandle (h : Regular s) (hi : (s.socket i).Made) (callback : CloseCallback) :
    Regular (s.closeHandle i callback).1 := by
  rw [closeHandle_fst]
  exact h.setMade hi (made_closeHandle s i callback) rfl rfl

theorem Regular.onConnectClose (h : Regular s) : Regular s.onConnectClose.1 := by
  unfold TcpClient.onConnectClose
  split
  next i hi => exact h.closeHandle (h.connection i hi) .onClose
  next => exact h

theorem Regular.onSocketClose (h : Regular s) (i : Nat) : Regular (s.onSocketClose i).1 := by
  unfold TcpClient.onSocketClose
  split
  next => exact h.onConnectClose
  next => exact h

theorem Regular.onMesageReceive (h : Regular s) (hi : (s.socket i).Made) (input : TcpServer.Input) :
    Regular (s.onMesageReceive i input).1 := by
  have hgone : Regular (s.setConnection i ((s.socket i).connection.setConnectStatus false)) :=
    h.setMade hi hi rfl rfl
  cases input with
  | data => exact h
  | error => exact hgone.onSocketClose i
  | eof accepted =>
    cases accepted with
    | false => exact hgone
    | true =>
      simp only [TcpClient.onMesageReceive, if_true, setConnection, setSocket_setSocket,
        setSocket_self]
      exact h.setMade hi hi rfl rfl

/-- A request to shut down is a connection's. -/
theorem Regular.shutting (h : Regular s) (hi : 0 < (s.socket i).shutdowns) : (s.socket i).Made := by
  by_contra hn
  exact Nat.ne_of_gt hi ((h.fits i).raw hn).1

theorem Regular.onClosed (h : Regular s) (hc : (s.socket i).handle = .closing)
    (hi : (s.socket i).connecting = false) : Regular (s.onClosed i).1 := by
  have hlt : i < s.attempts := by
    by_contra hle
    exact Phase.noConfusion (hc.symm.trans (h.unmade i (Nat.le_of_not_lt hle)).2)
  rw [onClosed_fst]
  refine h.setSocket hlt Iff.rfl (fun ht => Bool.noConfusion (hi.symm.trans ht)) ⟨?_, ?_, ?_⟩
  · exact (h.fits i).made
  · exact fun hn => ⟨((h.fits i).raw hn).1, nofun⟩
  · exact fun _ => nofun

theorem Regular.setCloses (h : Regular s) (closes : Nat) : Regular { s with closes := closes } :=
  ⟨⟨h.single.connecting, h.single.connection⟩, h.unmade, h.fits, h.connection⟩

theorem Regular.close (h : Regular s) (callback : Bool) : Regular (s.close callback).1 := by
  cases hconn : s.connection_ with
  | none =>
    rw [close_of_none hconn]
    exact h.setCloses _
  | some i =>
    rw [close_of_some hconn]
    exact (h.setCloses (s.closes + 1)).closeHandle (h.connection i hconn) _

theorem fits_raw (attempts i : Nat) (connecting : Bool) {handle : Phase}
    (hopen : handle ≠ .closing) : (Socket.raw connecting handle).Fits attempts i where
  made hm := absurd hm (not_made_raw connecting handle)
  raw _ := ⟨rfl, fun hclosing => absurd hclosing hopen⟩
  failed hf := Bool.noConfusion hf

theorem Regular.connect (h : Regular s) {accepted : Bool} (hc : Careful s (.connect accepted)) :
    Regular (s.connect accepted).1 where
  single := h.single.connect hc
  unmade j hj := by
    have hne : j ≠ s.attempts := Nat.ne_of_gt hj
    have hold : (s.connect accepted).1.socket j = s.socket j := setSocket_of_ne _ _ _ hne
    rw [hold]
    exact h.unmade j (Nat.le_of_succ_le hj)
  fits j := by
    rcases eq_or_ne j s.attempts with rfl | hj
    · have hnew : (s.connect accepted).1.socket s.attempts = .raw accepted .opened :=
        setSocket_self ..
      rw [hnew]
      exact fits_raw _ _ accepted Phase.noConfusion
    · have hold : (s.connect accepted).1.socket j = s.socket j := setSocket_of_ne _ _ _ hj
      rw [hold]
      refine ⟨fun hm => ?_, (h.fits j).raw, fun hf hclosing => ?_⟩
      · obtain ⟨hlt, hrest⟩ := (h.fits j).made hm
        exact ⟨Nat.lt_succ_of_lt hlt, hrest⟩
      · -- the last attempt would have to be the connection's
        obtain rfl : j = s.socket_ := (h.fits j).failed hf hclosing
        have hconn := hc (by rw [hclosing]; exact Phase.noConfusion)
        have hmade := (h.fits s.socket_).made (h.connection _ hconn)
        exact Bool.noConfusion (hmade.2.2.symm.trans hf)
  connection j hj := by
    have hlt := ((h.fits j).made (h.connection j hj)).1
    have hold : (s.connect accepted).1.socket j = s.socket j :=
      setSocket_of_ne _ _ _ (Nat.ne_of_lt hlt)
    rw [hold]
    exact h.connection j hj

/-- The request is the last attempt's, on which there is no connection yet. -/
theorem Regular.attempt (h : Regular s) (hi : (s.socket i).connecting = true) :
    i = s.socket_ ∧ (s.socket i).handle = .opened ∧ i < s.attempts ∧ ¬ (s.socket i).Made := by
  obtain ⟨hlast, ho⟩ := h.single.connecting i hi
  refine ⟨hlast, ho, ?_, fun hm => Bool.noConfusion (((h.fits i).made hm).2.1.symm.trans hi)⟩
  by_contra hle
  exact Bool.noConfusion ((h.unmade i (Nat.le_of_not_lt hle)).1.symm.trans hi)

theorem Regular.requestDone (h : Regular s) (hi : (s.socket i).connecting = true) :
    Regular (s.requestDone i) := by
  obtain ⟨hlast, -, hlt, hraw⟩ := h.attempt hi
  exact h.setSocket hlt Iff.rfl Bool.noConfusion
    ⟨fun hm => absurd hm hraw, (h.fits i).raw, fun _ _ => hlast⟩

/-- The connection on the last socket. -/
theorem onConnect_made (s : TcpClient) :
    ((s.onConnect true).1.socket s.socket_).Made := by
  have hnew : (s.onConnect true).1.socket s.socket_ = { s.socket s.socket_ with
      failed := false
      connection := { TcpConnection.new "" with handle := (s.socket s.socket_).handle } } :=
    setSocket_self ..
  rw [hnew]
  exact .inl rfl

theorem Regular.connectDone (h : Regular s) (hi : (s.socket i).connecting = true) (success : Bool) :
    Regular ((s.requestDone i).onConnect success).1 := by
  have hdone := h.requestDone hi
  have hsingle := h.single.connectDone h.unmade hi success
  obtain ⟨rfl, -, hlt, hraw⟩ := h.attempt hi
  have hnow : (s.requestDone s.socket_).socket s.socket_ =
      { s.socket s.socket_ with connecting := false } := setSocket_self ..
  cases success with
  | true =>
    refine ⟨hsingle, hdone.unmade.onConnect, ?_, fun j hj => ?_⟩
    · refine hdone.fits_update rfl ⟨fun _ => ⟨hlt, ?_, rfl⟩, fun hn => absurd (.inl rfl) hn, nofun⟩
      rw [requestDone_last, hnow]
    · obtain rfl : s.socket_ = j := Option.some.inj hj
      exact onConnect_made _
  | false =>
    rw [TcpClient.onConnect, requestDone_last, hnow]
    split
    next =>
      have hfits := (hdone.fits s.socket_).raw
      rw [hnow] at hfits
      refine hdone.setSocket hlt ?_ Bool.noConfusion
        ⟨fun hm => absurd hm hraw, fun hn => ⟨(hfits hn).1, fun _ => rfl⟩, fun _ _ => rfl⟩
      rw [hnow]
      exact Iff.rfl
    next => exact hdone

theorem regular_new (connectCallback onMessageCallback : Bool) :
    Regular (new connectCallback onMessageCallback) where
  single := single_new connectCallback onMessageCallback
  unmade _ _ := ⟨rfl, rfl⟩
  fits i := fits_raw _ i false Phase.noConfusion
  connection := nofun

theorem Regular.step (h : Regular s) {event : Event} (hc : Careful s event) (hserved : Served s event)
    {r : TcpClient × List Action} (hs : step s event = some r) : Regular r.1 := by
  cases event with
  | connect accepted =>
    cases hs
    exact h.connect hc
  | connectDone i success =>
    obtain ⟨⟨hi, -⟩, he⟩ := Option.ite_none_right_eq_some.mp hs
    cases he
    exact h.connectDone hi success
  | read i input =>
    obtain ⟨-, he⟩ := Option.ite_none_right_eq_some.mp hs
    cases he
    exact h.onMesageReceive hserved input
  | shutdownDone i =>
    obtain ⟨hi, he⟩ := Option.ite_none_right_eq_some.mp hs
    cases he
    have hspent : Regular (s.setSocket i { s.socket i with
        shutdowns := (s.socket i).shutdowns - 1 }) :=
      h.setMade (h.shutting hi) (h.shutting hi) rfl rfl
    exact hspent.onSocketClose i
  | closed i =>
    obtain ⟨⟨hclosing, -, hi⟩, he⟩ := Option.ite_none_right_eq_some.mp hs
    cases he
    exact h.onClosed hclosing hi
  | close callback =>
    cases hs
    exact h.close callback

end regular
end AeProxy.TcpClient
