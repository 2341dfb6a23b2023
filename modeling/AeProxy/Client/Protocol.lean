import AeProxy.Client.Attempt
import AeProxy.Lib.Log

/-! What a client reports to a user who waits for the end of an attempt with the next. -/
namespace AeProxy.TcpClient
open Lib

def Action.report : Action → Option ConnectStatus
  | .status _ report => some report
  | _ => none

def reports (log : List Action) : List ConnectStatus := log.filterMap Action.report

/-- What is reported of one attempt, up to now or in all. -/
inductive Block where
  | failed
  | succeeded
  | closed

def Block.reports : Block → List ConnectStatus
  | .failed => [.connectFail]
  | .succeeded => [.connectSuccess]
  | .closed => [.connectSuccess, .connectClose]

def blocks (list : List Block) : List ConnectStatus := (list.map Block.reports).flatten

/-- The first `connect`, or one after the attempt before was reported to have failed or closed. -/
def Waits : TcpClient × List Action → Event → Prop
  | (s, log), .connect _ => s.attempts = 0 ∨
      .status s.socket_ .connectFail ∈ log ∨ .status s.socket_ .connectClose ∈ log
  | _, _ => True

/-- A message comes after the success of its attempt was reported, and before its socket was asked
to close. -/
def Between (before : List Action) : Action → Prop
  | .message i => .status i .connectSuccess ∈ before ∧ .uvClose i ∉ before
  | _ => True

/-- The last report of the attempt is its success, and a second one may follow. -/
def Stage.Open (stage : Stage) : Prop := stage = .up ∨ stage = .closing .onClose

section moves
variable {attempt call : Nat} {stage stage' : Stage} {event : Event} {out : List Action}

theorem mem_called {a : Action} {callback : Option Nat} :
    a ∈ called callback ↔ ∃ call, callback = some call ∧ a = .userClosed call := by
  cases callback <;> simp [called]

theorem Moves.uvClose (h : Moves attempt call stage event out stage') {i : Nat}
    (hi : .uvClose i ∈ out) : i = attempt ∧ stage ≠ .ended ∧ stage' ≠ .waiting ∧ stage' ≠ .up := by
  cases h <;> simp_all [mem_called]

theorem Moves.message_up (h : Moves attempt call stage event out stage') {i : Nat}
    (hi : .message i ∈ out) : i = attempt ∧ stage = .up ∧ out = [.message i] := by
  cases h <;> simp_all [mem_called]

theorem Moves.status (h : Moves attempt call stage event out stage') {i : Nat}
    {report : ConnectStatus} (hi : .status i report ∈ out) :
    i = attempt ∧ stage ≠ .ended ∧ (report ≠ .connectSuccess → stage' = .ended) := by
  cases h <;> simp_all [mem_called]

theorem Moves.young (h : Moves attempt call stage event out stage')
    (hs : stage' = .waiting ∨ stage' = .up) : stage = .waiting ∨ stage = .up := by
  cases h <;> simp_all

theorem Moves.up (h : Moves attempt call stage event out stage') (hs : stage' = .up) :
    stage = .up ∨ .status attempt .connectSuccess ∈ out := by
  cases h <;> simp_all

theorem Moves.ended (h : Moves attempt call stage event out stage') (hs : stage = .ended) :
    stage' = .ended := by
  cases h <;> simp_all

/-- At most one report is added, `connectClose` only behind a success. -/
theorem Moves.reports (h : Moves attempt call stage event out stage') :
    reports out = [] ∧ (stage'.Open → stage.Open) ∨
      reports out = [.connectSuccess] ∧ stage' = .up ∨
      reports out = [.connectFail] ∧ stage' = .ended ∨
      reports out = [.connectClose] ∧ stage' = .ended ∧ stage.Open := by
  cases h with
  | connected => exact .inr (.inl ⟨rfl, rfl⟩)
  | reported => exact .inr (.inr (.inl ⟨rfl, rfl⟩))
  | closedByPeer => exact .inr (.inr (.inr ⟨rfl, rfl, .inr rfl⟩))
  | closeIdle hstage callback => cases callback <;> exact .inl ⟨rfl, id⟩
  | closeAgain earlier callback => cases callback <;> exact .inl ⟨rfl, by simp [Stage.Open]⟩
  | closedByUser callback => cases callback <;> exact .inl ⟨rfl, by simp [Stage.Open]⟩
  | silent => exact .inl ⟨rfl, id⟩
  | message => exact .inl ⟨rfl, id⟩
  | _ => exact .inl ⟨rfl, by simp [Stage.Open]⟩

end moves

/-- What a log says of the client, its last attempt being at the stage. -/
structure Protocol (s : TcpClient) (log : List Action) (stage : Stage) : Prop where
  live : Live s stage
  known : ∀ i, (.uvClose i ∈ log ∨ ∃ status, .status i status ∈ log) → i < s.attempts
  unclosed : stage = .waiting ∨ stage = .up → .uvClose s.socket_ ∉ log
  unreported : stage ≠ .ended →
    .status s.socket_ .connectFail ∉ log ∧ .status s.socket_ .connectClose ∉ log
  succeeded : stage = .up → .status s.socket_ .connectSuccess ∈ log
  reported : ∃ list, reports log = blocks list
  opened : stage.Open → ∃ list, reports log = blocks list ++ [.connectSuccess]
  between : Each Between log

section protocol
variable {s t : TcpClient} {log out : List Action} {stage stage' : Stage} {event : Event}
  {call : Nat}

theorem reports_append (log out : List Action) : reports (log ++ out) = reports log ++ reports out :=
  List.filterMap_append

theorem blocks_append (list more : List Block) : blocks (list ++ more) = blocks list ++ blocks more := by
  rw [blocks, List.map_append, List.flatten_append, blocks, blocks]

theorem Protocol.socket_lt (h : Protocol s log stage) (hs : stage ≠ .ended) :
    s.socket_ < s.attempts :=
  Nat.sub_lt (h.live.started hs) Nat.one_pos

/-- A message is logged between the success and the closing. -/
theorem Protocol.between_append (h : Protocol s log stage)
    (hm : Moves s.socket_ call stage event out stage') : Each Between (log ++ out) := by
  rw [each_append]
  refine ⟨h.between, ?_⟩
  intro before a later he
  have hmem : a ∈ out := he ▸ List.mem_append_right _ List.mem_cons_self
  cases a with
  | message i =>
    obtain ⟨rfl, rfl, hout⟩ := hm.message_up hmem
    obtain ⟨rfl, -⟩ : before = [] ∧ later = [] := by
      rw [hout] at he
      cases before with
      | nil => exact ⟨rfl, (List.cons.inj he).2.symm⟩
      | cons b before => simp at he
    rw [List.append_nil]
    exact ⟨h.succeeded rfl, h.unclosed (.inr rfl)⟩
  | _ => exact trivial

theorem Protocol.moves (h : Protocol s log stage)
    (hm : Moves s.socket_ call stage event out stage') (hlive : Live t stage')
    (ha : t.attempts = s.attempts) : Protocol t (log ++ out) stage' := by
  have hlast : t.socket_ = s.socket_ := congrArg (· - 1) ha
  have hfinal (hs : stage' ≠ .ended) {report : ConnectStatus} (hr : report ≠ .connectSuccess)
      (hlog : .status s.socket_ report ∉ log) : .status t.socket_ report ∉ log ++ out := by
    rw [hlast, List.mem_append, not_or]
    exact ⟨hlog, fun hout => hs ((hm.status hout).2.2 hr)⟩
  refine ⟨hlive, ?_, ?_, ?_, ?_, ?_, ?_, h.between_append hm⟩
  · rintro i (hi | ⟨report, hi⟩)
    · rcases List.mem_append.mp hi with hi | hi
      · exact ha ▸ h.known i (.inl hi)
      · obtain ⟨rfl, hs, -⟩ := hm.uvClose hi
        exact ha ▸ h.socket_lt hs
    · rcases List.mem_append.mp hi with hi | hi
      · exact ha ▸ h.known i (.inr ⟨report, hi⟩)
      · obtain ⟨rfl, hs, -⟩ := hm.status hi
        exact ha ▸ h.socket_lt hs
  · intro hs
    rw [hlast, List.mem_append, not_or]
    refine ⟨h.unclosed (hm.young hs), fun hout => ?_⟩
    obtain ⟨-, -, hw, hu⟩ := hm.uvClose hout
    exact hs.elim hw hu
  · intro hs
    obtain ⟨hf, hc⟩ := h.unreported fun hended => hs (hm.ended hended)
    exact ⟨hfinal hs nofun hf, hfinal hs nofun hc⟩
  · intro hs
    rw [hlast, List.mem_append]
    exact (hm.up hs).imp_left h.succeeded
  · obtain ⟨list, hlist⟩ := h.reported
    rw [reports_append]
    rcases hm.reports with ⟨hr, -⟩ | ⟨hr, -⟩ | ⟨hr, -⟩ | ⟨hr, -, hopen⟩
    · exact ⟨list, by rw [hr, hlist, List.append_nil]⟩
    · exact ⟨list ++ [.succeeded], by rw [hr, hlist, blocks_append]; rfl⟩
    · exact ⟨list ++ [.failed], by rw [hr, hlist, blocks_append]; rfl⟩
    · obtain ⟨list, hlist⟩ := h.opened hopen
      refine ⟨list ++ [.closed], ?_⟩
      rw [hr, hlist, blocks_append, List.append_assoc]
      rfl
  · intro hs
    rw [reports_append]
    rcases hm.reports with ⟨hr, hopen⟩ | ⟨hr, -⟩ | ⟨-, rfl⟩ | ⟨-, rfl, -⟩
    · rw [hr, List.append_nil]
      exact h.opened (hopen hs)
    · obtain ⟨list, hlist⟩ := h.reported
      exact ⟨list, by rw [hr, hlist]⟩
    · exact absurd hs (by simp [Stage.Open])
    · exact absurd hs (by simp [Stage.Open])

/-- The user's next attempt. -/
theorem Protocol.connect (h : Protocol s log stage) {accepted : Bool}
    (hw : Waits (s, log) (.connect accepted)) :
    Protocol (s.connect accepted).1 (log ++ (s.connect accepted).2)
      (if accepted then .waiting else .refused) := by
  have hended : stage = .ended := by
    by_contra hs
    obtain ⟨hf, hc⟩ := h.unreported hs
    rcases hw with hw | hw | hw
    · exact Nat.ne_of_gt (h.live.started hs) hw
    · exact hf hw
    · exact hc hw
  subst hended
  have hlast : (s.connect accepted).1.socket_ = s.attempts := Nat.add_sub_cancel ..
  have hclose (i : Nat) : .uvClose i ∈ log ++ [.connect s.attempts] → .uvClose i ∈ log := by simp
  have hstatus (i : Nat) (report : ConnectStatus) :
      .status i report ∈ log ++ [.connect s.attempts] → .status i report ∈ log := by simp
  have hnew (report : ConnectStatus) :
      .status s.attempts report ∉ log ++ [.connect s.attempts] :=
    fun hi => Nat.lt_irrefl _ (h.known _ (.inr ⟨report, hstatus _ _ hi⟩))
  have hreports : reports (log ++ [.connect s.attempts]) = reports log := by
    rw [reports_append]
    exact List.append_nil _
  refine ⟨h.live.connect accepted, ?_, ?_, ?_, ?_, ?_, ?_, ?_⟩
  · rintro i (hi | ⟨report, hi⟩)
    · exact Nat.lt_succ_of_lt (h.known i (.inl (hclose i hi)))
    · exact Nat.lt_succ_of_lt (h.known i (.inr ⟨report, hstatus i report hi⟩))
  · rw [hlast]
    exact fun _ hi => Nat.lt_irrefl _ (h.known _ (.inl (hclose _ hi)))
  · rw [hlast]
    exact fun _ => ⟨hnew _, hnew _⟩
  · cases accepted <;> exact nofun
  · obtain ⟨list, hlist⟩ := h.reported
    exact ⟨list, hreports.trans hlist⟩
  · cases accepted <;> simp [Stage.Open]
  · exact each_concat.mpr ⟨h.between, trivial⟩

theorem Protocol.step (h : Protocol s log stage) (hw : Waits (s, log) event)
    (hs : Machine.logged TcpClient.step (s, log) event = some (t, out)) :
    ∃ stage', Protocol t out stage' := by
  obtain ⟨⟨t, new⟩, hstep, he⟩ := Option.map_eq_some_iff.mp hs
  obtain ⟨rfl, rfl⟩ := Prod.mk.inj he
  by_cases hconnect : ∃ accepted, event = .connect accepted
  · obtain ⟨accepted, rfl⟩ := hconnect
    obtain ⟨rfl, rfl⟩ := Prod.mk.inj (Option.some.inj hstep)
    exact ⟨_, h.connect hw⟩
  · have hne (accepted : Bool) : event ≠ .connect accepted := fun he => hconnect ⟨accepted, he⟩
    obtain ⟨stage', hm, hlive⟩ := h.live.step hne hstep
    exact ⟨stage', h.moves hm hlive ((does_of_step hstep).attempts hne)⟩

theorem protocol_new (onMessageCallback : Bool) :
    Protocol (new true onMessageCallback) [] .ended :=
  ⟨live_new _, by simp, by simp, by simp, nofun, ⟨[], rfl⟩, by simp [Stage.Open], each_nil⟩

end protocol

/-- However events and calls of `close` come, the reports are blocks one after the other, and the
messages lie within theirs. -/
theorem reports_blocks {onMessageCallback : Bool} {events : List Event} {s : TcpClient}
    {log : List Action}
    (hw : (Machine.logged step).Throughout Waits (new true onMessageCallback, []) events)
    (hr : (Machine.logged step).run (new true onMessageCallback, []) events = some (s, log)) :
    (∃ list, reports log <+: blocks list) ∧ Each Between log := by
  obtain ⟨stage, h⟩ := Step.run_invariant_of (I := fun s => ∃ stage, Protocol s.1 s.2 stage)
    (fun _ _ _ ⟨_, h⟩ hw hs => h.step hw hs) ⟨_, protocol_new _⟩ hw hr
  obtain ⟨list, hlist⟩ := h.reported
  exact ⟨⟨list, hlist ▸ List.prefix_refl _⟩, h.between⟩

theorem reports_blocks_reconnect : ∃ s log,
    (Machine.logged step).run (new true true, []) [.connect true, .connectDone 0 true,
      .read 0 .data, .read 0 .error, .closed 0, .connect true, .connectDone 1 false, .closed 1] =
      some (s, log) ∧
    reports log = blocks [.closed, .failed] ∧
    (∃ list, reports log <+: blocks list) ∧ Each Between log := by
  refine ⟨_, _, rfl, rfl, @reports_blocks true [.connect true, .connectDone 0 true, .read 0 .data,
    .read 0 .error, .closed 0, .connect true, .connectDone 1 false, .closed 1] _ _ ?_ rfl⟩
  refine .cons (.inl rfl) rfl (.cons trivial rfl (.cons trivial rfl (.cons trivial rfl
    (.cons trivial rfl (.cons (.inr (.inr ?_)) rfl (.cons trivial rfl (.cons trivial rfl trivial)))))))
  decide

end AeProxy.TcpClient
