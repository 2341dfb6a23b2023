import AeProxy.Server.Registry
import Mathlib.Data.List.Count

/-! The life of a connection of a server whose user leaves closing to it: however many triggers hit
it, its handle is closed once, and its user hears of it, and its entry goes, when that completes. -/
namespace AeProxy.TcpServer
open Lib

/-- What the completion of a closing does. -/
def Action.isCompletion : Action → Bool
  | .connectClose _ => true
  | .erase _ _ => true
  | _ => false

def completions (self : TcpServer) : List Action := self.log.filter Action.isCompletion

/-- Accepted peers have names without an entry, and only the server closes connections. -/
def Managed (s : TcpServer) : Event → Prop
  | .accept name => s.getConnection name = none
  | .closeConnection _ => False
  | .closeByUser _ _ => False
  | _ => True

theorem Managed.clear {s : TcpServer} {event : Event} (h : Managed s event) : Clear s event := by
  cases event with
  | closeConnection name => exact h.elim
  | accept name => exact h
  | _ => exact trivial

/-- What the log says about each connection, by the phase its handle is in. -/
structure Life (s : TcpServer) : Prop where
  requested : ∀ c, s.log.count (.uvClose c) =
    if c < s.accepted ∧ (s.connection c).handle ≠ .opened then 1 else 0
  notified : ∀ c, s.log.count (.connectClose c) ≤
    if c < s.accepted ∧ (s.connection c).handle = .closed then 1 else 0
  acceptor : s.log.count .uvCloseAcceptor = if s.accetper.handle = .opened then 0 else 1
  silent : ∀ c, (s.connection c).handle ≠ .opened → (s.connection c).onMessageCallback = false
  slot : ∀ c, (s.connection c).handle = .closing →
    (s.connection c).closeCompleteCallback = some .closeConnection
  order : s.log.Pairwise fun a b => ∀ c, a = .uvClose c → b ≠ .message c
  unswept : ∀ name, .erase name true ∉ s.log

/-- One event of the life of the connections: `requested` to `unswept` for everything so far,
then what belongs to a completion, and that nothing of it happens elsewhere. -/
structure Lifecycle (s : TcpServer) (event : Event) (t : TcpServer) : Prop where
  requested : ∀ c, t.log.count (.uvClose c) ≤ 1
  acceptor : t.log.count .uvCloseAcceptor ≤ 1
  notified : ∀ c, t.log.count (.connectClose c) ≤ 1
  silent : t.log.Pairwise fun a b => ∀ c, a = .uvClose c → b ≠ .message c
  unswept : ∀ name, .erase name true ∉ t.log
  completed : ∀ c closes, event = .closed c closes →
    s.getConnection (s.connection c).name = some c ∧
    t.connnections = s.connnections.erase (s.connection c).name ∧
    t.completions = s.completions ++ (if s.onConnectCloseCallback then [.connectClose c] else []) ++
      [.erase (s.connection c).name false]
  elsewhere : (∀ c closes, event ≠ .closed c closes) → t.completions = s.completions ∧
    ∀ name c, s.getConnection name = some c → t.getConnection name = some c

theorem life_listening (onMessage onConnectClose : Bool) :
    Life (listening onMessage onConnectClose) where
  requested c := by simp [listening]
  notified c := by simp [listening]
  acceptor := rfl
  silent _ _ := rfl
  slot _ h := by cases h
  order := .nil
  unswept _ := List.not_mem_nil

namespace Life
variable {s t : TcpServer}

theorem requested_le (h : Life s) (c : Nat) : s.log.count (.uvClose c) ≤ 1 := by
  rw [h.requested c]
  split <;> omega

theorem acceptor_le (h : Life s) : s.log.count .uvCloseAcceptor ≤ 1 := by
  rw [h.acceptor]
  split <;> omega

theorem notified_le (h : Life s) (c : Nat) : s.log.count (.connectClose c) ≤ 1 := by
  apply Nat.le_trans (h.notified c)
  split <;> omega

/-- Nothing the log is about has changed. -/
theorem congr (h : Life s) (hlog : t.log = s.log) (haccepted : t.accepted = s.accepted)
    (hacceptor : t.accetper.handle = s.accetper.handle)
    (hconn : ∀ c, (t.connection c).handle = (s.connection c).handle ∧
      (t.connection c).onMessageCallback = (s.connection c).onMessageCallback ∧
      (t.connection c).closeCompleteCallback = (s.connection c).closeCompleteCallback) : Life t where
  requested c := by
    rw [hlog, haccepted, (hconn c).1]
    exact h.requested c
  notified c := by
    rw [hlog, haccepted, (hconn c).1]
    exact h.notified c
  acceptor := by
    rw [hlog, hacceptor]
    exact h.acceptor
  silent c hc := by
    rw [(hconn c).2.1]
    exact h.silent c ((hconn c).1 ▸ hc)
  slot c hc := by
    rw [(hconn c).2.2]
    exact h.slot c ((hconn c).1 ▸ hc)
  order := hlog ▸ h.order
  unswept name := by
    rw [hlog]
    exact h.unswept name

/-- An action that says nothing about a connection that is not closed yet, with the acceptor
changed as the action says. -/
theorem append (h : Life s) {action : Action} {acceptor : TcpAcceptor Unit}
    (hu : ∀ c, action ≠ .uvClose c)
    (hn : ∀ c, action = .connectClose c → s.log.count (.connectClose c) = 0 ∧
      c < s.accepted ∧ (s.connection c).handle = .closed)
    (ha : (s.log ++ [action]).count .uvCloseAcceptor = if acceptor.handle = .opened then 0 else 1)
    (hm : ∀ c, action = .message c → (s.connection c).handle = .opened)
    (he : ∀ name, action ≠ .erase name true) :
    Life ({ s with accetper := acceptor }.emit action) where
  requested c := by
    show (s.log ++ [action]).count _ = _
    rw [List.count_append, List.count_singleton, if_neg (by simpa using hu c), Nat.add_zero]
    exact h.requested c
  notified c := by
    show (s.log ++ [action]).count _ ≤ _
    rw [List.count_append, List.count_singleton]
    split
    · rename_i hac
      obtain ⟨h0, hc⟩ := hn c (by simpa using hac)
      have hpos : c < (s.emit action).accepted ∧
          ((s.emit action).connection c).handle = .closed := hc
      rw [h0]
      exact Nat.le_of_eq (if_pos hpos).symm
    · exact h.notified c
  acceptor := ha
  silent := h.silent
  slot := h.slot
  order := by
    show (s.log ++ [action]).Pairwise _
    rw [List.pairwise_append]
    refine ⟨h.order, List.pairwise_singleton _ _, ?_⟩
    intro a hmem b hb c hac hbc
    obtain rfl := List.mem_singleton.mp hb
    have hcount := h.requested c
    rw [if_neg (fun hp => hp.2 (hm c hbc)), List.count_eq_zero] at hcount
    exact hcount (hac ▸ hmem)
  unswept name hname := by
    rcases List.mem_append.mp hname with hname | hname
    · exact h.unswept name hname
    · exact he name (List.mem_singleton.mp hname).symm

theorem emit (h : Life s) {action : Action} (hu : ∀ c, action ≠ .uvClose c)
    (hn : ∀ c, action = .connectClose c → s.log.count (.connectClose c) = 0 ∧
      c < s.accepted ∧ (s.connection c).handle = .closed)
    (ha : action ≠ .uvCloseAcceptor)
    (hm : ∀ c, action = .message c → (s.connection c).handle = .opened)
    (he : ∀ name, action ≠ .erase name true) : Life (s.emit action) := by
  refine h.append hu hn ?_ hm he
  rw [List.count_append, List.count_singleton, if_neg (by simpa using ha), Nat.add_zero]
  exact h.acceptor

/-- The request that closes an open connection. -/
theorem closing (hs : Sound s) (h : Life s) {c : Nat} (ho : (s.connection c).handle = .opened) :
    Life (s.closing c (some .closeConnection)) := by
  have hlt : c < s.accepted := by
    by_contra hle
    rw [hs.unseen c (Nat.le_of_not_lt hle)] at ho
    cases ho
  obtain ⟨hp, -⟩ := TcpConnection.closeSlot.close_opened (s := s.connection c) ho
    (some CloseCallback.closeConnection)
  have hself : ((s.closing c (some .closeConnection)).connection c) =
      ((s.connection c).close (some .closeConnection)).1 := setConnection_self ..
  have hne {d : Nat} (hd : d ≠ c) : (s.closing c (some .closeConnection)).connection d =
      s.connection d := setConnection_of_ne _ _ _ hd
  have hclosing : ((s.closing c (some .closeConnection)).connection c).handle = .closing := by
    rw [hself]
    exact hp
  have hlog : (s.closing c (some .closeConnection)).log = s.log ++ [.uvClose c] := rfl
  have hacc : (s.closing c (some .closeConnection)).accepted = s.accepted := rfl
  refine ⟨fun d => ?_, fun d => ?_, ?_, fun d hd => ?_, fun d hd => ?_, ?_, fun name hname => ?_⟩
  · rw [hlog, List.count_append, List.count_singleton, h.requested d, hacc]
    rcases eq_or_ne d c with rfl | hd
    · rw [hclosing, ho]
      simp [hlt]
    · have hneq : (Action.uvClose c == .uvClose d) = false := by simpa using Ne.symm hd
      rw [hne hd, hneq]
      rfl
  · rw [hlog, List.count_append, List.count_singleton, if_neg (by simp), Nat.add_zero, hacc]
    apply Nat.le_trans (h.notified d)
    rcases eq_or_ne d c with rfl | hd
    · rw [ho]
      simp
    · rw [hne hd]
  · rw [hlog, List.count_append, List.count_singleton, if_neg (by simp), Nat.add_zero]
    exact h.acceptor
  · rcases eq_or_ne d c with rfl | hdc
    · rw [hself]
      exact (close_connection_fields _ _).2.2.1
    · rw [hne hdc] at hd ⊢
      exact h.silent d hd
  · rcases eq_or_ne d c with rfl | hdc
    · rw [hself]
      exact (close_connection_fields _ _).2.2.2
    · rw [hne hdc] at hd ⊢
      exact h.slot d hd
  · rw [hlog, List.pairwise_append]
    refine ⟨h.order, List.pairwise_singleton _ _, fun a _ b hb d _ hbd => ?_⟩
    rw [List.mem_singleton.mp hb] at hbd
    cases hbd
  · rw [hlog] at hname
    rcases List.mem_append.mp hname with hname | hname
    · exact h.unswept name hname
    · cases List.mem_singleton.mp hname

theorem accept (h : Life s) (name : String) : Life (s.onAccept name) := by
  have hlog := onAccept_log s name
  have hself : (s.onAccept name).connection s.accepted = .new name := by
    rw [onAccept_connection, Function.update_self]
  have hne {c : Nat} (hc : c ≠ s.accepted) : (s.onAccept name).connection c = s.connection c := by
    rw [onAccept_connection, Function.update_of_ne hc]
  have hlt {c : Nat} (hc : c ≠ s.accepted) : c < s.accepted + 1 ↔ c < s.accepted := by omega
  refine ⟨fun c => ?_, fun c => ?_, ?_, fun c hc => ?_, fun c hc => ?_, hlog ▸ h.order,
    fun name' => ?_⟩
  · rw [hlog, h.requested c, onAccept_accepted]
    rcases eq_or_ne c s.accepted with rfl | hc
    · rw [hself, if_neg (fun hp => Nat.lt_irrefl _ hp.1), if_neg (fun hp => hp.2 rfl)]
    · simp only [hne hc, hlt hc]
  · rw [hlog, onAccept_accepted]
    apply Nat.le_trans (h.notified c)
    rcases eq_or_ne c s.accepted with rfl | hc
    · rw [if_neg (fun hp => Nat.lt_irrefl _ hp.1)]
      exact Nat.zero_le _
    · simp only [hne hc, hlt hc, Nat.le_refl]
  · rw [hlog, onAccept_accetper]
    exact h.acceptor
  · rcases eq_or_ne c s.accepted with rfl | hca
    · rw [hself] at hc
      exact absurd rfl hc
    · rw [hne hca] at hc ⊢
      exact h.silent c hc
  · rcases eq_or_ne c s.accepted with rfl | hca
    · rw [hself] at hc
      cases hc
    · rw [hne hca] at hc ⊢
      exact h.slot c hc
  · rw [hlog]
    exact h.unswept name'

/-- The handle of a connection has been closed. -/
theorem closed (h : Life s) {c : Nat} (hc : (s.connection c).handle = .closing) :
    Life (s.setConnection c (s.connection c).onClosed.1) := by
  have hself : (s.setConnection c (s.connection c).onClosed.1).connection c =
      (s.connection c).onClosed.1 := setConnection_self ..
  have hne {d : Nat} (hd : d ≠ c) : (s.setConnection c (s.connection c).onClosed.1).connection d =
      s.connection d := setConnection_of_ne _ _ _ hd
  refine ⟨fun d => ?_, fun d => ?_, h.acceptor, fun d hd => ?_, fun d hd => ?_, h.order, h.unswept⟩
  · apply (h.requested d).trans
    rcases eq_or_ne d c with rfl | hd
    · rw [hself, hc]
      show _ = if d < s.accepted ∧ Phase.closed ≠ .opened then 1 else 0
      simp only [ne_eq, reduceCtorEq, not_false_eq_true]
    · rw [hne hd]
      rfl
  · apply Nat.le_trans (h.notified d)
    rcases eq_or_ne d c with rfl | hd
    · rw [hc, if_neg (fun hp => Phase.noConfusion hp.2)]
      exact Nat.zero_le _
    · rw [hne hd]
      exact Nat.le_refl _
  · rcases eq_or_ne d c with rfl | hdc
    · rw [hself]
      exact h.silent d (by rw [hc]; exact Phase.noConfusion)
    · rw [hne hdc] at hd ⊢
      exact h.silent d hd
  · rcases eq_or_ne d c with rfl | hdc
    · rw [hself] at hd
      cases hd
    · rw [hne hdc] at hd ⊢
      exact h.slot d hd

/-- The request that closes the acceptor. -/
theorem acceptorClosing (h : Life s) (ho : s.accetper.handle = .opened)
    {acceptor : TcpAcceptor Unit} (ha : acceptor.handle = .closing) :
    Life ({ s with accetper := acceptor }.emit .uvCloseAcceptor) := by
  refine h.append nofun nofun ?_ nofun nofun
  rw [List.count_append, List.count_singleton_self, h.acceptor, if_pos ho, ha]
  rfl

end Life

/-- Neither the registry has changed, nor has anything been completed. -/
structure Plain (s t : TcpServer) : Prop extends Quiet s t where
  completions : t.completions = s.completions
  sweeping : t.sweeping = s.sweeping
  user : t.onConnectCloseCallback = s.onConnectCloseCallback

theorem Plain.refl (s : TcpServer) : Plain s s := ⟨.refl s, rfl, rfl, rfl⟩

theorem Plain.emit {s t : TcpServer} (h : Plain s t) {action : Action}
    (ha : action.isCompletion = false) : Plain s (t.emit action) where
  toQuiet := h.toQuiet.emit action
  completions := by
    show (t.log ++ [action]).filter _ = _
    rw [List.filter_append, List.filter_singleton, ha, ← h.completions]
    exact List.append_nil _
  sweeping := h.sweeping
  user := h.user

/-- Behind `s₀`, with nothing changed or completed since and all lives in order. -/
def Tame (s₀ s : TcpServer) : Prop := Follows (fun s => Life s ∧ Plain s₀ s) s

theorem tame_closing (s₀ s : TcpServer) (c : Nat) (h : Tame s₀ s)
    (ho : (s.connection c).handle = .opened) :
    Life (s.closing c (some .closeConnection)) ∧
      Plain s₀ (s.closing c (some .closeConnection)) := by
  have hq := h.also.2.toQuiet.trans (quiet_request s c (some .closeConnection))
  have hplain : Plain s₀ (s.setConnection c ((s.connection c).close (some .closeConnection)).1) :=
    ⟨hq, h.also.2.completions, h.also.2.sweeping, h.also.2.user⟩
  exact ⟨h.also.1.closing h.sound ho, hplain.emit rfl⟩

namespace Tame
variable {s₀ s : TcpServer}

theorem start (hs : Sound s) (hr : Registered s) (hl : Life s) : Tame s s :=
  ⟨hs, hr, hl, .refl s⟩

theorem onSocketClose (h : Tame s₀ s) (c : Nat) : Tame s₀ (s.onSocketClose c) :=
  Follows.onSocketClose (tame_closing s₀) h c

/-- The fields that the registry does not depend on may change, and what is logged with them. -/
theorem congr {t : TcpServer} (h : Tame s₀ s) (hl : Life t)
    (hmap : t.connnections = s.connnections) (hconn : t.connection = s.connection)
    (haccepted : t.accepted = s.accepted) (hdone : t.completions = s.completions)
    (hsweeping : t.sweeping = s.sweeping)
    (huser : t.onConnectCloseCallback = s.onConnectCloseCallback) : Tame s₀ t := by
  have hq : Quiet s t := .congr hmap hconn haccepted
  exact ⟨hq.sound h.sound (hconn ▸ h.sound.callback), hq.registered h.registered, hl,
    h.also.2.toQuiet.trans hq, hdone.trans h.also.2.completions,
    hsweeping.trans h.also.2.sweeping, huser.trans h.also.2.user⟩

theorem setAcceptor (h : Tame s₀ s) {acceptor : TcpAcceptor Unit}
    (ha : s.log.count .uvCloseAcceptor = if acceptor.handle = .opened then 0 else 1) :
    Tame s₀ { s with accetper := acceptor } :=
  have hl := h.also.1
  h.congr ⟨hl.requested, hl.notified, ha, hl.silent, hl.slot, hl.order, hl.unswept⟩
    rfl rfl rfl rfl rfl rfl

theorem setShutdowns (h : Tame s₀ s) (shutdowns : Nat → Nat) :
    Tame s₀ { s with shutdowns := shutdowns } :=
  h.congr (h.also.1.congr rfl rfl rfl fun _ => ⟨rfl, rfl, rfl⟩) rfl rfl rfl rfl rfl rfl

theorem emit (h : Tame s₀ s) {action : Action} (ha : action.isCompletion = false)
    (hl : Life (s.emit action)) : Tame s₀ (s.emit action) :=
  h.congr hl rfl rfl rfl ((Plain.refl s).emit ha).completions rfl rfl

theorem setConnectStatus (h : Tame s₀ s) (c : Nat) :
    Tame s₀ (s.setConnection c ((s.connection c).setConnectStatus false)) := by
  obtain ⟨hq, hs⟩ := quiet_setConnectStatus h.sound c
  refine ⟨hs, hq.registered h.registered, h.also.1.congr rfl rfl rfl fun d => ?_,
    h.also.2.toQuiet.trans hq, h.also.2.completions, h.also.2.sweeping, h.also.2.user⟩
  rcases eq_or_ne d c with rfl | hne
  · rw [setConnection_self]
    exact ⟨rfl, rfl, rfl⟩
  · rw [setConnection_of_ne _ _ _ hne]
    exact ⟨rfl, rfl, rfl⟩

theorem sweep (h : Tame s₀ s) : Tame s₀ s.sweep := by
  have hstart : Tame { s₀ with sweeping := true } { s with sweeping := true } :=
    ⟨h.sound.congr rfl rfl rfl, h.registered,
      h.also.1.congr rfl rfl rfl fun _ => ⟨rfl, rfl, rfl⟩,
      ⟨⟨h.also.2.connnections, h.also.2.accepted, h.also.2.name, h.also.2.closed⟩,
        h.also.2.completions, rfl, h.also.2.user⟩⟩
  obtain ⟨u, hu, he⟩ := Follows.sweep (tame_closing _) hstart
  have hback : Tame s₀ { u with sweeping := s.sweeping } :=
    ⟨hu.sound.congr rfl rfl rfl, hu.registered,
      hu.also.1.congr rfl rfl rfl fun _ => ⟨rfl, rfl, rfl⟩,
      ⟨⟨hu.also.2.connnections, hu.also.2.accepted, hu.also.2.name, hu.also.2.closed⟩,
        hu.also.2.completions, h.also.2.sweeping, hu.also.2.user⟩⟩
  rw [he]
  apply hback.emit rfl
  apply hback.also.1.emit <;> simp

theorem onAcceptorClosed (h : Tame s₀ s) (callback : Option Unit) :
    Tame s₀ (s.onAcceptorClosed callback) := by
  cases callback with
  | none => exact h
  | some _ => exact h.sweep

/-- The acceptor's handle is closed by the first request only. -/
theorem close (h : Tame s₀ s) : Tame s₀ s.close := by
  have hcount := h.also.1.acceptor
  rcases eq_or_ne s.accetper.handle .opened with ho | ho
  · obtain ⟨hp, -, heff⟩ := TcpAcceptor.closeSlot.close_opened ho (some ())
    have hp' : (s.accetper.close (some ())).1.handle = .closing := hp
    have heff' : (s.accetper.close (some ())).2 = .uvClose := heff
    have hclose : s.close =
        { s with accetper := (s.accetper.close (some ())).1 }.emit .uvCloseAcceptor := by
      simp only [TcpServer.close, heff']
    have hplain : Plain s (s.emit .uvCloseAcceptor) := (Plain.refl s).emit rfl
    rw [hclose]
    exact h.congr (h.also.1.acceptorClosing ho hp') rfl rfl rfl hplain.completions rfl rfl
  · obtain ⟨hp, -, heff⟩ := TcpAcceptor.closeSlot.close_closing ho (some ())
    have hp' : (s.accetper.close (some ())).1.handle = s.accetper.handle := hp
    have heff' : (s.accetper.close (some ())).2 = .complete (some ()) := heff
    have hclose : s.close =
        { s with accetper := (s.accetper.close (some ())).1 }.onAcceptorClosed (some ()) := by
      simp only [TcpServer.close, heff']
    rw [hclose]
    exact (h.setAcceptor (by rw [hp']; exact hcount)).onAcceptorClosed _

theorem iterate_close (h : Tame s₀ s) (n : Nat) : Tame s₀ (TcpServer.close^[n] s) := by
  induction n with
  | zero => exact h
  | succ n ih =>
    rw [Function.iterate_succ_apply']
    exact ih.close

theorem onMesageReceive (h : Tame s₀ s) (c : Nat) (input : Input) :
    Tame s₀ (s.onMesageReceive c input) := by
  cases input with
  | data =>
    simp only [TcpServer.onMesageReceive]
    split
    · rename_i hcb
      rw [Bool.and_eq_true] at hcb
      apply h.emit rfl
      apply h.also.1.emit <;> simp
      by_contra hopen
      rw [h.also.1.silent c hopen] at hcb
      exact Bool.noConfusion hcb.1
    · exact h
  | error => exact (h.setConnectStatus c).onSocketClose c
  | eof accepted =>
    cases accepted with
    | true => exact (h.setConnectStatus c).setShutdowns _
    | false => exact h.setConnectStatus c

/-- What such a stretch shows of the lives. -/
theorem lifecycle (h : Tame s₀ s) {event : Event} (he : ∀ c closes, event ≠ .closed c closes) :
    Lifecycle s₀ event s where
  requested := h.also.1.requested_le
  acceptor := h.also.1.acceptor_le
  notified := h.also.1.notified_le
  silent := h.also.1.order
  unswept := h.also.1.unswept
  completed c closes hc := absurd hc (he c closes)
  elsewhere _ := ⟨h.also.2.completions, fun name _ hf => (h.also.2.getConnection name).trans hf⟩

end Tame

/-! The events that do change the registry. -/

section registry
variable {s : TcpServer}

theorem lifecycle_accept (hl : Life s) {name : String} (hf : s.getConnection name = none) :
    Lifecycle s (.accept name) (s.onAccept name) where
  requested := (hl.accept name).requested_le
  acceptor := (hl.accept name).acceptor_le
  notified := (hl.accept name).notified_le
  silent := (hl.accept name).order
  unswept := (hl.accept name).unswept
  completed c closes hc := by cases hc
  elsewhere _ := by
    refine ⟨congrArg (List.filter _) (onAccept_log s name), fun name' c hc => ?_⟩
    rw [onAccept_getConnection, if_neg, hc]
    rintro ⟨-, rfl⟩
    rw [hf] at hc
    cases hc

/-- A completed closing: the user hears of it, may close the server, and the entry goes. -/
theorem onClosed_tame (hs : Sound s) (hr : Registered s) (hl : Life s) {c : Nat}
    (hc : (s.connection c).handle = .closing) (closes : Nat) :
    ∃ u, Tame (if s.onConnectCloseCallback then
        (s.setConnection c (s.connection c).onClosed.1).emit (.connectClose c)
      else s.setConnection c (s.connection c).onClosed.1) u ∧
      s.onClosed c closes = u.removeConnection (s.connection c).name := by
  have hs' := hs.closed hc
  have hr' := hr.closed c
  have hl' := hl.closed hc
  have hne : (s.connection c).handle ≠ .closed := by
    rw [hc]
    exact Phase.noConfusion
  have hlt : c < s.accepted := by
    by_contra hle
    exact hne (hs.unseen c (Nat.le_of_not_lt hle))
  have hself : (s.setConnection c (s.connection c).onClosed.1).connection c =
      (s.connection c).onClosed.1 := setConnection_self ..
  have hfind : (s.setConnection c (s.connection c).onClosed.1).getConnection
      (s.connection c).name = some c := hr c hne
  have hname : ((s.setConnection c (s.connection c).onClosed.1).connection c).name =
      (s.connection c).name := by
    rw [hself]
    rfl
  rw [onClosed_eq, hl.slot c hc, closeComplete, hname]
  simp only [connectionClosed, hfind]
  have huser : (s.setConnection c (s.connection c).onClosed.1).onConnectCloseCallback =
      s.onConnectCloseCallback := rfl
  rw [huser]
  split
  · refine ⟨_, ?_, rfl⟩
    apply Tame.iterate_close
    refine .start (hs'.emit _) hr' (hl'.emit ?_ ?_ ?_ ?_ ?_)
    · simp
    · rintro d he
      cases he
      have hcount := hl.notified c
      rw [hc, if_neg (fun hp => Phase.noConfusion hp.2)] at hcount
      exact ⟨Nat.le_zero.mp hcount, hlt, by rw [hself]; rfl⟩
    · simp
    · simp
    · simp
  · exact ⟨_, .start hs' hr' hl', rfl⟩

theorem lifecycle_closed (hs : Sound s) (hr : Registered s) (hl : Life s)
    (hsw : s.sweeping = false) {c : Nat} (hc : (s.connection c).handle = .closing) (closes : Nat) :
    Life (s.onClosed c closes) ∧ (s.onClosed c closes).sweeping = false ∧
      Lifecycle s (.closed c closes) (s.onClosed c closes) := by
  obtain ⟨u, hu, he⟩ := onClosed_tame hs hr hl hc closes
  have husw : u.sweeping = false := by
    rw [hu.also.2.sweeping]
    split <;> exact hsw
  have hmap : u.connnections = s.connnections := by
    rw [hu.also.2.connnections]
    split <;> rfl
  have hdone : u.completions =
      s.completions ++ if s.onConnectCloseCallback then [.connectClose c] else [] := by
    rw [hu.also.2.completions]
    split
    · exact List.filter_append ..
    · exact (List.append_nil _).symm
  have hlife : Life (u.removeConnection (s.connection c).name) := by
    have hl' : Life (u.emit (.erase (s.connection c).name u.sweeping)) :=
      hu.also.1.emit (by simp) (by simp) (by simp) (by simp) (by simp [husw])
    exact ⟨hl'.requested, hl'.notified, hl'.acceptor, hl'.silent, hl'.slot, hl'.order, hl'.unswept⟩
  rw [he]
  refine ⟨hlife, husw, hlife.requested_le, hlife.acceptor_le, hlife.notified_le, hlife.order,
    hlife.unswept, fun d n hd => ?_, fun hn => absurd rfl (hn c closes)⟩
  cases hd
  refine ⟨hr c (by rw [hc]; exact Phase.noConfusion),
    congrArg (AList.erase (s.connection c).name) hmap, ?_⟩
  rw [← hdone, ← husw]
  exact List.filter_append ..

/-- The step lemma: the invariant is kept, and the event has its place in the lives. -/
theorem step_lifecycle (h : Follows (fun s => Life s ∧ s.sweeping = false) s) {event : Event}
    {t : TcpServer} (hm : Managed s event) (ht : step s event = some t) :
    Follows (fun s => Life s ∧ s.sweeping = false) t ∧ Lifecycle s event t := by
  obtain ⟨hs, hr, hl, hsw⟩ := h
  obtain ⟨hs', hreg⟩ := step_registry hs hr ht
  have hr' := hreg.mpr hm.clear
  have hstart := Tame.start hs hr hl
  have htame (htame : Tame s t) (he : ∀ c closes, event ≠ .closed c closes) :
      Follows (fun s => Life s ∧ s.sweeping = false) t ∧ Lifecycle s event t :=
    ⟨⟨hs', hr', htame.also.1, htame.also.2.sweeping.trans hsw⟩, htame.lifecycle he⟩
  cases event with
  | accept name =>
    obtain ⟨-, ht⟩ := Option.ite_none_right_eq_some.mp ht
    cases ht
    exact ⟨⟨hs', hr', hl.accept name, (onAccept_sweeping s name).trans hsw⟩,
      lifecycle_accept hl hm⟩
  | read c input =>
    obtain ⟨-, ht⟩ := Option.ite_none_right_eq_some.mp ht
    cases ht
    exact htame (hstart.onMesageReceive c input) (by simp)
  | shutdownDone c =>
    obtain ⟨-, ht⟩ := Option.ite_none_right_eq_some.mp ht
    cases ht
    exact htame ((hstart.setShutdowns _).onSocketClose c) (by simp)
  | expire c =>
    obtain ⟨-, ht⟩ := Option.ite_none_right_eq_some.mp ht
    cases ht
    exact htame (hstart.onSocketClose c) (by simp)
  | acceptorClosed =>
    obtain ⟨hc, ht⟩ := Option.ite_none_right_eq_some.mp ht
    cases ht
    have hcount := hl.acceptor
    rw [hc] at hcount
    exact htame ((hstart.setAcceptor hcount).onAcceptorClosed _) (by simp)
  | closed c closes =>
    obtain ⟨⟨hc, -⟩, ht⟩ := Option.ite_none_right_eq_some.mp ht
    cases ht
    obtain ⟨hl', hsw', hlc⟩ := lifecycle_closed hs hr hl hsw hc closes
    exact ⟨⟨hs', hr', hl', hsw'⟩, hlc⟩
  | close =>
    cases ht
    exact htame hstart.close (by simp)
  | closeConnection name => exact hm.elim
  | closeByUser c callback => exact hm.elim

end registry

/-- Every step of every run that the user leaves to the server. -/
theorem lifecycle_run (onMessage onConnectClose : Bool) {events : List Event} {event : Event}
    {s t : TcpServer}
    (hm : step.Throughout Managed (listening onMessage onConnectClose) (events ++ [event]))
    (hs : step.run (listening onMessage onConnectClose) events = some s)
    (ht : step s event = some t) : Lifecycle s event t := by
  have hinv : Follows (fun s => Life s ∧ s.sweeping = false) s :=
    Step.run_invariant_of (fun s e t h hm ht => (step_lifecycle h hm ht).1)
      ⟨sound_listening _ _, registered_listening _ _, life_listening _ _, rfl⟩ hm.of_append hs
  exact (step_lifecycle hinv (hm.last hs) ht).2

/-- Three triggers and two sweeps on one connection, whose closing then completes. -/
theorem lifecycle_run_swept : ∃ s t,
    step.run (listening true true) [.accept "10.0.0.1:4000", .read 0 .data, .read 0 (.eof true),
      .expire 0, .close, .acceptorClosed, .shutdownDone 0] = some s ∧
    step s (.closed 0 1) = some t ∧ Lifecycle s (.closed 0 1) t := by
  have hm : step.Throughout Managed (listening true true) ([.accept "10.0.0.1:4000",
      .read 0 .data, .read 0 (.eof true), .expire 0, .close, .acceptorClosed, .shutdownDone 0] ++
      [.closed 0 1]) :=
    .cons rfl rfl <| .cons trivial rfl <| .cons trivial rfl <| .cons trivial rfl <|
      .cons trivial rfl <| .cons trivial rfl <| .cons trivial rfl <| .cons trivial rfl trivial
  exact ⟨_, _, rfl, rfl, lifecycle_run true true hm rfl rfl⟩

end AeProxy.TcpServer
