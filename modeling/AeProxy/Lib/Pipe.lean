import AeProxy.Lib.Incremental

/-! A stream on its way to a reader: what is written arrives in order, cut anywhere. -/
namespace AeProxy.Lib

/-- What is on its way, what the reader has buffered, and the items it has taken. -/
structure Pipe (α β : Type*) where
  wire : List α
  buffer : List α
  received : List β

namespace Pipe
variable {α β : Type*}

def empty : Pipe α β := ⟨[], [], []⟩

def write (self : Pipe α β) (data : List α) : Pipe α β := { self with wire := self.wire ++ data }

/-- So much arrives, and the reader takes the items it can. -/
def read (R : Reader α β) (self : Pipe α β) (n : Nat) : Pipe α β :=
  let (items, buffer) := R.drain (self.buffer ++ self.wire.take n)
  ⟨self.wire.drop n, buffer, self.received ++ items⟩

/-- Of the data written, the reader was fed a part in some chunks, and the rest is on its way. -/
def Carries (R : Reader α β) (data : List α) (p : Pipe α β) : Prop :=
  ∃ chunks, R.feed chunks = (p.received, p.buffer) ∧ chunks.flatten ++ p.wire = data

section carries
variable {R : Reader α β} {good : List α → Prop} {data : List α} {p : Pipe α β}

theorem carries_empty (R : Reader α β) : Carries R [] empty := ⟨[], rfl, rfl⟩

theorem Carries.write (h : Carries R data p) (more : List α) :
    Carries R (data ++ more) (p.write more) := by
  obtain ⟨chunks, hfeed, hdata⟩ := h
  refine ⟨chunks, hfeed, ?_⟩
  rw [Pipe.write, ← List.append_assoc, hdata]

theorem Carries.read (h : Carries R data p) (n : Nat) : Carries R data (p.read R n) := by
  obtain ⟨chunks, hfeed, hdata⟩ := h
  refine ⟨chunks ++ [p.wire.take n], ?_, ?_⟩
  · rw [Reader.feed, List.foldl_append, ← Reader.feed, hfeed]
    rfl
  · rw [List.flatten_concat, List.append_assoc, ← hdata]
    exact congrArg (chunks.flatten ++ ·) (List.take_append_drop n p.wire)

/-- The reader takes the items of the stream in order. -/
theorem Carries.received_prefix (h : Carries R data p) (hR : R.StableOn good) (hg : good data) :
    p.received <+: (R.drain data).1 := by
  obtain ⟨chunks, hfeed, rfl⟩ := h
  have hdrain : R.drain chunks.flatten = (p.received, p.buffer) :=
    (hR.feed_eq_drain chunks (hR.head _ _ hg)).symm.trans hfeed
  obtain ⟨-, happend⟩ := hR.drain_append chunks.flatten p.wire hg
  rw [happend, hdrain]
  exact List.prefix_append _ _

theorem Carries.received_eq (h : Carries R data p) (hR : R.StableOn good) (hg : good data)
    (hw : p.wire = []) : p.received = (R.drain data).1 := by
  obtain ⟨chunks, hfeed, rfl⟩ := h
  rw [hw, List.append_nil] at hg ⊢
  rw [← hR.feed_eq_drain chunks hg, hfeed]

end carries
end Pipe
end AeProxy.Lib
