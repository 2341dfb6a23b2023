import AeProxy.Lib.Progress
import AeProxy.Loop.Wakeup
import Mathlib.Algebra.BigOperators.Group.Finset.Basic

/-! The loop gets its work done: whichever of its threads goes on next, the tasks handed to a loop
that runs have all been run after so many steps, and no thread can get stuck before. -/
namespace AeProxy.EventLoop
open Lib
variable {α : Type*} {s t : EventLoop α}

/-- What the thread in `uv_run` and the threads in `run_in_this_loop` do without being asked. -/
def Working : Event α → Prop
  | .deliver | .swap | .exec | .drained | .push _ | .check _ | .send _ => True
  | _ => False

/-- What such a step does. -/
inductive Works (s : EventLoop α) : EventLoop α → Prop
  | deliver (hd : s.delivery = .idle) (hs : s.signal = true) :
    Works s { s with signal := false, delivery := .started }
  | swap (hd : s.delivery = .started) :
    Works s { s with callbacks := [], batch := s.callbacks, delivery := .draining }
  | exec {func : α} {batch : List α} (hb : s.batch = func :: batch) :
    Works s { s with batch := batch, executed := s.executed ++ [func] }
  | drained (hd : s.delivery = .draining) : Works s { s with delivery := .idle }
  | push {thread : Nat} {func : α} (hp : s.poster thread = .pushing func) :
    Works s (s.push thread func)
  | check {thread : Nat} (hp : s.poster thread = .pushed) : Works s (s.check thread)
  | send {thread : Nat} (hp : s.poster thread = .sending) :
    Works s (s.asyncSend.setPoster thread .idle)

theorem works_of_step {event : Event α} (hw : Working event) (ht : step s event = some t) :
    Works s t := by
  cases event with
  | deliver =>
    obtain ⟨⟨-, hd, hs, -⟩, ht⟩ := Option.ite_none_right_eq_some.mp ht
    exact Option.some.inj ht ▸ .deliver hd hs
  | swap =>
    obtain ⟨hd, ht⟩ := Option.ite_none_right_eq_some.mp ht
    exact Option.some.inj ht ▸ .swap hd
  | exec =>
    simp only [step] at ht
    split at ht
    next hb => exact Option.some.inj ht ▸ .exec hb
    next => cases ht
  | drained =>
    obtain ⟨⟨hd, -⟩, ht⟩ := Option.ite_none_right_eq_some.mp ht
    exact Option.some.inj ht ▸ .drained hd
  | push thread =>
    simp only [step] at ht
    split at ht
    next hp => exact Option.some.inj ht ▸ .push hp
    next => cases ht
  | check thread =>
    simp only [step] at ht
    split at ht
    next hp => exact Option.some.inj ht ▸ .check hp
    next => cases ht
  | send thread =>
    simp only [step] at ht
    split at ht
    next hp => exact Option.some.inj ht ▸ .send hp
    next => cases ht
  | run | assign | asyncInit | asyncSend | enter | leave | call | stop | asyncClosed => cases hw

/-! How much there is left to do. A poster counts for the task and the signal it hands on. -/

def Poster.left : Poster α → Nat
  | .idle => 0
  | .pushing _ => 7
  | .pushed => 5
  | .sending => 4

def Delivery.left : Delivery → Nat
  | .idle => 0
  | .started => 2
  | .draining => 1

/-- Of the threads below a number. -/
def postersLeft (n : Nat) (s : EventLoop α) : Nat :=
  ∑ thread ∈ Finset.range n, (s.poster thread).left

def left (n : Nat) (s : EventLoop α) : Nat :=
  s.postersLeft n + (if s.signal then 3 else 0) + s.delivery.left + s.callbacks.length +
    s.batch.length

theorem postersLeft_setPoster {n thread : Nat} (h : thread < n) (s : EventLoop α)
    (poster : Poster α) : (s.setPoster thread poster).postersLeft n + (s.poster thread).left =
      s.postersLeft n + poster.left := by
  have hmem : thread ∈ Finset.range n := Finset.mem_range.mpr h
  have hrest : ∑ thread' ∈ (Finset.range n).erase thread,
        ((s.setPoster thread poster).poster thread').left =
      ∑ thread' ∈ (Finset.range n).erase thread, (s.poster thread').left := by
    refine Finset.sum_congr rfl fun thread' hm => ?_
    rw [setPoster_of_ne s poster (Finset.ne_of_mem_erase hm)]
  rw [postersLeft, postersLeft, ← Finset.add_sum_erase _ _ hmem, ← Finset.add_sum_erase _ _ hmem,
    hrest, setPoster_self]
  omega

/-- The loop is inside `uv_run`, nobody closes it, and the threads that hand it tasks are all
below a number. -/
structure Up (n : Nat) (s : EventLoop α) : Prop where
  fifo : Fifo s
  awake : Awake s
  started : s.status = .started
  sent : s.init = .sent
  busy : ∀ thread, n ≤ thread → s.poster thread = .idle

theorem Up.lt {n thread : Nat} {poster : Poster α} (h : Up n s) (hp : s.poster thread = poster)
    (hl : poster.left ≠ 0) : thread < n := by
  by_contra hle
  rw [← hp, h.busy thread (Nat.le_of_not_lt hle)] at hl
  exact hl rfl

/-- Every step lowers it. -/
theorem Up.left_lt {n : Nat} (h : Up n s) (hw : Works s t) : t.left n < s.left n := by
  cases hw with
  | deliver hd hs => simp [left, postersLeft, hd, hs, Delivery.left]
  | swap hd =>
    have hb : s.batch = [] := h.fifo.batch (by rw [hd]; exact Delivery.noConfusion)
    simp only [left, postersLeft, hd, hb, Delivery.left, List.length_nil]
    omega
  | exec hb => simp [left, postersLeft, hb]
  | drained hd => simp [left, postersLeft, hd, Delivery.left]
  | @push thread func hp =>
    have hsum := postersLeft_setPoster (h.lt hp (Nat.succ_ne_zero _)) s .pushed
    rw [hp] at hsum
    show postersLeft n (s.setPoster thread .pushed) + (if s.signal then 3 else 0) +
      s.delivery.left + (s.callbacks ++ [func]).length + s.batch.length < _
    rw [List.length_append, left]
    simp only [Poster.left, List.length_singleton] at hsum ⊢
    omega
  | @check thread hp =>
    have hc : s.check thread = s.setPoster thread .sending := by
      rw [EventLoop.check, h.sent]
      rfl
    have hsum := postersLeft_setPoster (h.lt hp (Nat.succ_ne_zero _)) s .sending
    rw [hp] at hsum
    rw [hc]
    show postersLeft n (s.setPoster thread .sending) + (if s.signal then 3 else 0) +
      s.delivery.left + s.callbacks.length + s.batch.length < _
    rw [left]
    simp only [Poster.left] at hsum
    omega
  | @send thread hp =>
    have hsum := postersLeft_setPoster (h.lt hp (Nat.succ_ne_zero _)) s .idle
    rw [hp] at hsum
    have hsignal : (if s.asyncSend.signal then 3 else 0) ≤ 3 := by split <;> omega
    show postersLeft n (s.setPoster thread .idle) + (if s.asyncSend.signal then 3 else 0) +
      s.delivery.left + s.callbacks.length + s.batch.length < _
    rw [left]
    simp only [Poster.left] at hsum
    omega

/-- Work leaves the loop running, and threads outside of it stay outside. -/
theorem Works.keeps (h : Works s t) : t.status = s.status ∧ t.init = s.init ∧
    ∀ thread, s.poster thread = .idle → t.poster thread = .idle := by
  have hset (u : EventLoop α) (poster : Poster α) {thread : Nat} (hp : u.poster thread ≠ .idle)
      (thread' : Nat) (hi : u.poster thread' = .idle) :
      (u.setPoster thread poster).poster thread' = .idle := by
    have hne : thread' ≠ thread := by
      rintro rfl
      exact hp hi
    rw [setPoster_of_ne u poster hne, hi]
  cases h with
  | deliver | swap | exec | drained => exact ⟨rfl, rfl, fun _ hi => hi⟩
  | push hp => exact ⟨rfl, rfl, hset s .pushed (by simp [hp])⟩
  | check hp => exact ⟨rfl, rfl, hset s _ (by simp [hp])⟩
  | send hp => exact ⟨rfl, rfl, hset s.asyncSend .idle (by simp [asyncSend, hp])⟩

theorem Up.step {n : Nat} (h : Up n s) {event : Event α} (hw : Working event)
    (ht : EventLoop.step s event = some t) : Up n t := by
  obtain ⟨hst, hi, hb⟩ := (works_of_step hw ht).keeps
  have hn : event ≠ .stop := by
    rintro rfl
    cases hw
  exact ⟨fifo_step h.fifo ht, awake_step h.awake hn ht, hst.trans h.started, hi.trans h.sent,
    fun thread hle => hb thread (h.busy thread hle)⟩

/-- No thread hands on a task, and all tasks handed on have been run. -/
def Settled (s : EventLoop α) : Prop :=
  (∀ thread, s.poster thread = .idle) ∧ s.executed = s.posted

/-- A thread can go on, or the loop can: it has a batch, is behind one, or has a signal. -/
theorem Up.enabled {n : Nat} (h : Up n s) (hs : ¬ Settled s) :
    ∃ event t, Working event ∧ EventLoop.step s event = some t := by
  by_cases hidle : ∀ thread, s.poster thread = .idle
  · cases hb : s.batch with
    | cons func batch =>
      refine ⟨.exec, { s with batch := batch, executed := s.executed ++ [func] }, trivial, ?_⟩
      rw [EventLoop.step, hb]
    | nil =>
      cases hd : s.delivery with
      | started => exact ⟨.swap, _, trivial, if_pos hd⟩
      | draining => exact ⟨.drained, _, trivial, if_pos ⟨hd, hb⟩⟩
      | idle =>
        have hq : s.callbacks ≠ [] := by
          intro hq
          apply hs
          refine ⟨hidle, ?_⟩
          rw [← h.fifo.order, hb, hq, List.append_nil, List.append_nil]
        have hsignal : s.signal = true := by
          rcases h.awake.wakeup hq with hd' | hs | ⟨thread, hp⟩ | hi
          · cases hd.symm.trans hd'
          · exact hs
          · rw [hidle thread] at hp
            exact hp.elim
          · exact absurd h.sent hi
        exact ⟨.deliver, _, trivial, if_pos ⟨h.started, hd, hsignal, h.awake.opened⟩⟩
  · obtain ⟨thread, hp⟩ := not_forall.mp hidle
    cases hposter : s.poster thread with
    | idle => exact absurd hposter hp
    | pushing func =>
      refine ⟨.push thread, s.push thread func, trivial, ?_⟩
      rw [EventLoop.step, hposter]
    | pushed =>
      refine ⟨.check thread, s.check thread, trivial, ?_⟩
      rw [EventLoop.step, hposter]
    | sending =>
      refine ⟨.send thread, s.asyncSend.setPoster thread .idle, trivial, ?_⟩
      rw [EventLoop.step, hposter]

theorem progress (n : Nat) :
    Progress (step : Step (EventLoop α) (Event α)) Working (Up n) Settled (left n) where
  keeps _ _ _ h hw ht := h.step hw ht
  lowers _ _ _ h hw ht := h.left_lt (works_of_step hw ht)
  enabled _ h hs := h.enabled hs

/-- The loop is entered behind `init`, and only so many threads are in it. -/
structure Entered (s : EventLoop α) : Prop where
  sent : s.status ≠ .notStarted ∨ (∃ noWait, s.runner = .looping noWait) → s.init = .sent
  busy : ∃ n, ∀ thread, n ≤ thread → s.poster thread = .idle

theorem entered_new : Entered (new : EventLoop α) where
  sent h := by
    rcases h with hst | ⟨_, hr⟩
    · exact absurd rfl hst
    · cases hr
  busy := ⟨0, fun _ _ => rfl⟩

theorem Entered.step (h : Entered s) {event : Event α} (ht : EventLoop.step s event = some t) :
    Entered t := by
  obtain ⟨hsent, n, hn⟩ := h
  have hset (u : EventLoop α) (thread : Nat) (poster : Poster α) (hu : u.poster = s.poster) :
      ∃ n, ∀ thread', n ≤ thread' → (u.setPoster thread poster).poster thread' = .idle := by
    refine ⟨max n (thread + 1), fun thread' hle => ?_⟩
    rw [setPoster_of_ne u poster (by omega), hu]
    exact hn thread' (by omega)
  cases event with
  | run =>
    obtain ⟨-, ht⟩ := Option.ite_none_right_eq_some.mp ht
    cases ht
    refine ⟨fun hst => hsent (.inl (hst.resolve_right ?_)), n, hn⟩
    rintro ⟨_, hr⟩
    cases hr
  | swap | drained | deliver | asyncClosed =>
    obtain ⟨-, ht⟩ := Option.ite_none_right_eq_some.mp ht
    cases ht
    exact ⟨hsent, n, hn⟩
  | assign | asyncInit =>
    obtain ⟨⟨-, hi⟩, ht⟩ := Option.ite_none_right_eq_some.mp ht
    cases ht
    refine ⟨fun hst => ?_, n, hn⟩
    cases hi.symm.trans (hsent hst)
  | asyncSend =>
    obtain ⟨-, ht⟩ := Option.ite_none_right_eq_some.mp ht
    cases ht
    exact ⟨fun _ => rfl, n, hn⟩
  | enter =>
    simp only [EventLoop.step] at ht
    split at ht
    next =>
      obtain ⟨hi, ht⟩ := Option.ite_none_right_eq_some.mp ht
      cases ht
      exact ⟨fun _ => hi, n, hn⟩
    next => cases ht
  | exec =>
    simp only [EventLoop.step] at ht
    split at ht
    next =>
      cases ht
      exact ⟨hsent, n, hn⟩
    next => cases ht
  | leave =>
    simp only [EventLoop.step] at ht
    split at ht
    next noWait hr =>
      obtain ⟨-, ht⟩ := Option.ite_none_right_eq_some.mp ht
      cases ht
      exact ⟨fun _ => hsent (.inr ⟨noWait, hr⟩), n, hn⟩
    next => cases ht
  | call thread func =>
    simp only [EventLoop.step] at ht
    split at ht
    next =>
      rcases runInThisLoop_cases s thread func with he | ⟨f, he⟩ | ⟨f, he⟩
      · cases he ▸ ht
        exact ⟨hsent, n, hn⟩
      · rw [he] at ht
        cases ht
        exact ⟨hsent, n, hn⟩
      · rw [he] at ht
        cases ht
        exact ⟨hsent, hset s thread _ rfl⟩
    next => cases ht
  | push thread =>
    simp only [EventLoop.step] at ht
    split at ht
    next =>
      cases ht
      exact ⟨hsent, hset s thread .pushed rfl⟩
    next => cases ht
  | check thread =>
    simp only [EventLoop.step] at ht
    split at ht
    next =>
      cases ht
      exact ⟨hsent, hset s thread _ rfl⟩
    next => cases ht
  | send thread =>
    simp only [EventLoop.step] at ht
    split at ht
    next =>
      cases ht
      exact ⟨hsent, hset s.asyncSend thread .idle rfl⟩
    next => cases ht
  | stop =>
    simp only [EventLoop.step] at ht
    split at ht
    all_goals
      cases ht
      exact ⟨hsent, n, hn⟩

/-- The task has been handed to the loop, or a thread is about to. -/
def Handed (s : EventLoop α) (func : α) : Prop :=
  func ∈ s.posted ∨ ∃ thread, s.poster thread = .pushing func

theorem Handed.step {func : α} (h : Handed s func) (hw : Works s t) : Handed t func := by
  have hset (u : EventLoop α) (poster : Poster α) {thread thread' : Nat}
      (hp : ∀ func', u.poster thread ≠ .pushing func')
      (h : u.poster thread' = .pushing func) :
      (u.setPoster thread poster).poster thread' = .pushing func := by
    have hne : thread' ≠ thread := by
      rintro rfl
      exact hp func h
    rw [setPoster_of_ne u poster hne, h]
  cases hw with
  | deliver | swap | exec | drained => exact h
  | @push thread func' hp =>
    rcases h with hm | ⟨thread', hp'⟩
    · exact .inl (List.mem_append_left _ hm)
    · rcases eq_or_ne thread' thread with rfl | hne
      · obtain rfl := Poster.pushing.inj (hp.symm.trans hp')
        exact .inl (List.mem_append_right _ (List.mem_singleton.mpr rfl))
      · exact .inr ⟨thread', (setPoster_of_ne s _ hne).trans hp'⟩
  | check hp => exact h.imp_right fun ⟨thread', hp'⟩ => ⟨thread', hset s _ (by simp [hp]) hp'⟩
  | send hp =>
    exact h.imp_right fun ⟨thread', hp'⟩ =>
      ⟨thread', hset s.asyncSend .idle (by simp [asyncSend, hp]) hp'⟩

theorem Handed.run {func : α} (h : Handed s func) {later : List (Event α)}
    (hw : ∀ event ∈ later, Working event) (ht : EventLoop.step.run s later = some t) :
    Handed t func :=
  Step.run_invariant_of (I := fun s => Handed s func) (C := fun _ event => Working event)
    (fun _ _ _ h hw ht => h.step (works_of_step hw ht)) h
    (Step.throughout_of_forall fun event hm _ => hw event hm) ht

/-- In every state a run reaches inside `uv_run` while nobody stops the loop, whichever threads go
on and in whatever order: they can only take so many steps, and when none can take another, every
task handed to the loop has been run; and there is an order that gets there. -/
theorem handed_executed (events : List (Event α)) {s : EventLoop α} (hn : .stop ∉ events)
    (hr : EventLoop.step.run new events = some s) (hs : s.status = .started) :
    (∃ most, ∀ later t, (∀ event ∈ later, Working event) → EventLoop.step.run s later = some t →
      later.length ≤ most ∧ ((∀ event, Working event → EventLoop.step t event = none) →
        t.executed = t.posted ∧ ∀ func, Handed s func → func ∈ t.executed)) ∧
    ∃ later t, (∀ event ∈ later, Working event) ∧ EventLoop.step.run s later = some t ∧
      t.executed = t.posted ∧ ∀ func, Handed s func → func ∈ t.executed := by
  have hfifo : Fifo s := Step.run_invariant (fun _ _ _ h ht => fifo_step h ht) fifo_new hr
  have hentered : Entered s :=
    Step.run_invariant (fun _ _ _ (h : Entered _) ht => h.step ht) entered_new hr
  have hc : EventLoop.step.Throughout (fun _ (e : Event α) => e ≠ .stop) new events := by
    apply Step.throughout_of_forall
    rintro e he _ rfl
    exact hn he
  have hawake : Awake s :=
    Step.run_invariant_of (fun _ _ _ h hc ht => awake_step h hc ht) awake_new hc hr
  obtain ⟨n, hbusy⟩ := hentered.busy
  have hup : Up n s := by
    refine ⟨hfifo, hawake, hs, hentered.sent (.inl ?_), hbusy⟩
    rw [hs]
    exact Status.noConfusion
  have hall {later : List (Event α)} {t : EventLoop α} (hw : ∀ event ∈ later, Working event)
      (ht : EventLoop.step.run s later = some t) (hg : Settled t) (func : α)
      (hf : Handed s func) : func ∈ t.executed := by
    rw [hg.2]
    refine (hf.run hw ht).resolve_right ?_
    rintro ⟨thread, hp⟩
    cases (hg.1 thread).symm.trans hp
  refine ⟨⟨left n s, fun later t hw ht => ⟨(progress n).length_le hup hw ht, fun hd => ?_⟩⟩, ?_⟩
  · have hg := (progress n).goal_of_done hup hw ht hd
    exact ⟨hg.2, hall hw ht hg⟩
  · obtain ⟨later, t, hw, ht, hg⟩ := (progress n).exists_run hup
    exact ⟨later, t, hw, ht, hg.2, hall hw ht hg⟩

/-- A thread has handed a task to a loop that runs, another is about to. -/
theorem handed_executed_two : ∃ s : EventLoop Nat,
    EventLoop.step.run new [.run 0 false, .assign, .asyncInit, .asyncSend, .enter,
      .call 1 (some 10), .push 1, .call 2 (some 20)] = some s ∧
    ∃ later t, (∀ event ∈ later, Working event) ∧ EventLoop.step.run s later = some t ∧
      t.executed = t.posted ∧ ∀ func, Handed s func → func ∈ t.executed :=
  ⟨_, rfl, (handed_executed [.run 0 false, .assign, .asyncInit, .asyncSend, .enter,
    .call 1 (some 10), .push 1, .call 2 (some 20)] (by simp) rfl rfl).2⟩

end AeProxy.EventLoop
