import AeProxy.Proxy.Format
import AeProxy.Proxy.TcpProxy
import Mathlib.Data.List.Forall2

/-! Commands back to back on one connection, against the chunks the callback gets. -/
namespace AeProxy.Proxy.Framing
open Lib TcpProxy

/-- What a client sends, with lengths the format can write. -/
structure Command where
  command : Int32
  ip : Text
  port : Int32
  message : Text
  ip_length : ip.length < 2 ^ 32
  message_length : message.length < 2 ^ 32

namespace Command

def request (c : Command) : Request := ⟨c.command, c.ip, c.port, c.message⟩

/-- What a command asks for: only a bind has an agent connect, to the command's own server. -/
def action (client : Text) (c : Command) : Action :=
  ⟨client, c.request,
    if c.command = 0 then some (connectRealServer client c.ip c.port c.message) else none⟩

def encode (m : Msgpack) (c : Command) : List UInt8 :=
  m.packInt c.command ++ (m.packStr c.ip ++ (m.packInt c.port ++ m.packStr c.message))

end Command

/-- A chunk of one client, with the memory its callback finds. -/
def arrival (client : Text) : Event → Option (Memory × List UInt8)
  | .message c mem data => if c = client then some (mem, data) else none
  | .connectStatus _ _ => none

def actionsOf (client : Text) (s : State) : List Action :=
  s.actions.filter fun action => action.client = client

section Run
variable {unpacker : Unpacker} {s t : State} {events : List Event}

theorem step_actionsOf {event : Event} (client : Text) (h : step unpacker s event = some t) :
    actionsOf client t = actionsOf client s ++ (arrival client event).toList.map fun a =>
      onMessage client (unpack a.1 (unpacker.objects a.2)) := by
  cases event with
  | message c mem data =>
    obtain rfl := Option.some.inj h
    rw [actionsOf, List.filter_append, ← actionsOf, arrival]
    by_cases hc : c = client
    · subst hc
      simp [onMessage]
    · simp [onMessage, hc]
  | connectStatus agent success =>
    obtain ⟨a, -, rfl⟩ := Option.map_eq_some_iff.mp h
    cases success <;> simp [arrival, actionsOf]

theorem run_actionsOf (client : Text) (h : (step unpacker).run s events = some t) :
    actionsOf client t = actionsOf client s ++ (events.filterMap (arrival client)).map fun a =>
      onMessage client (unpack a.1 (unpacker.objects a.2)) := by
  induction events generalizing s with
  | nil =>
    cases h
    rw [List.filterMap_nil, List.map_nil, List.append_nil]
  | cons event events ih =>
    obtain ⟨u, hu, ht⟩ := Step.run_cons_eq_some.mp h
    rw [ih ht, step_actionsOf client hu, List.append_assoc, ← List.map_append]
    cases ha : arrival client event with
    | none => rw [List.filterMap_cons_none ha]; rfl
    | some a => rw [List.filterMap_cons_some ha]; rfl

end Run

section Whole
variable (m : Msgpack)

theorem objects_packInt (i : Int32) (rest : List UInt8) :
    ∃ obj, obj.integer? = some i.toInt ∧
      Unpacker.objects m.toReader (m.packInt i ++ rest) =
        obj :: Unpacker.objects m.toReader rest := by
  obtain ⟨obj, hn, h⟩ := m.next_packInt i rest
  exact ⟨obj, hn, Unpacker.objects_cons h⟩

theorem objects_packStr {s : Text} (h : s.length < 2 ^ 32) (rest : List UInt8) :
    Unpacker.objects m.toReader (m.packStr s ++ rest) =
      .str s :: Unpacker.objects m.toReader rest :=
  Unpacker.objects_cons (m.next_packStr s rest h)

/-- A whole command is read as it was sent, whatever follows it in the chunk. -/
theorem unpack_encode (mem : Memory) (c : Command) (rest : List UInt8) :
    unpack mem (Unpacker.objects m.toReader (c.encode m ++ rest)) = c.request := by
  obtain ⟨a, ha, hao⟩ := objects_packInt m c.command
    (m.packStr c.ip ++ (m.packInt c.port ++ (m.packStr c.message ++ rest)))
  obtain ⟨b, hb, hbo⟩ := objects_packInt m c.port (m.packStr c.message ++ rest)
  rw [Command.encode, List.append_assoc, List.append_assoc, List.append_assoc, hao,
    objects_packStr m c.ip_length, hbo, objects_packStr m c.message_length, unpack_four,
    Object.i64_toInt32 ha, Object.i64_toInt32 hb, Int32.ofInt_toInt, Int32.ofInt_toInt]
  rfl

end Whole

section Reads

theorem integer_of_i64 {obj : Object} {i : Int32} (h : ∀ other, (obj.i64 other).toInt32 = i) :
    ∃ n, obj.integer? = some n ∧ Int32.ofInt n = i := by
  cases hn : obj.integer? with
  | none =>
    have h0 := h 0
    rw [← h 1, Object.i64_of_integer?_none hn, Object.i64_of_integer?_none hn] at h0
    exact absurd h0 (by decide)
  | some n => exact ⟨n, rfl, (Object.i64_toInt32 hn 0).symm.trans (h 0)⟩

theorem str_of_strOr {obj : Object} {s : Text} (h : ∀ other, obj.strOr other = s) :
    obj = .str s := by
  cases hs : obj.str? with
  | none =>
    have h0 := h []
    rw [← h [0], Object.strOr_of_str?_none hs, Object.strOr_of_str?_none hs] at h0
    cases h0
  | some s' =>
    obtain rfl := Object.str?_eq_some.mp hs
    rw [← h []]
    rfl

/-- Objects that give the command whatever the memory holds. A message left out reads as an empty
one. -/
theorem objects_of_reads {objs : List Object} {c : Command}
    (h : ∀ mem, unpack mem objs = c.request) :
    ∃ a b objs' n k, objs = a :: .str c.ip :: b :: objs' ∧
      (a.integer? = some n ∧ Int32.ofInt n = c.command) ∧
      (b.integer? = some k ∧ Int32.ofInt k = c.port) ∧
      (objs' = [] ∧ c.message = [] ∨ ∃ more, objs' = .str c.message :: more) := by
  -- Memories that hold the same number, or text, wherever they are read.
  have hmem (i : Int32) (j : Int64) (s : Text) := h ⟨i, i, fun _ => j, fun _ => s⟩
  have hport (hp : ∀ i : Int32, i = c.port) : False :=
    absurd ((hp 0).trans (hp 1).symm) (by decide)
  match objs with
  | [] => exact (hport fun i => congrArg Request.port (hmem i 0 [])).elim
  | [a] => exact (hport fun i => congrArg Request.port (hmem i 0 [])).elim
  | [a, b] => exact (hport fun i => congrArg Request.port (hmem i 0 [])).elim
  | [a, i, b] =>
    obtain ⟨n, hn⟩ := integer_of_i64 fun j => congrArg Request.command (hmem 0 j [])
    obtain rfl := str_of_strOr fun s => congrArg Request.ip (hmem 0 0 s)
    obtain ⟨k, hk⟩ := integer_of_i64 fun j => congrArg Request.port (hmem 0 j [])
    exact ⟨a, b, [], n, k, rfl, hn, hk, .inl ⟨rfl, (congrArg Request.message (hmem 0 0 [])).symm⟩⟩
  | a :: i :: b :: d :: more =>
    simp only [unpack_four] at hmem
    obtain ⟨n, hn⟩ := integer_of_i64 fun j => congrArg Request.command (hmem 0 j [])
    obtain rfl := str_of_strOr fun s => congrArg Request.ip (hmem 0 0 s)
    obtain ⟨k, hk⟩ := integer_of_i64 fun j => congrArg Request.port (hmem 0 j [])
    obtain rfl := str_of_strOr fun s => congrArg Request.message (hmem 0 0 s)
    exact ⟨a, b, _, n, k, rfl, hn, hk, .inr ⟨more, rfl⟩⟩

variable {m : Msgpack} {chunk : List UInt8} {c : Command}

/-- The chunk gives the command, whatever the memory holds. -/
def Reads (m : Msgpack) (chunk : List UInt8) (c : Command) : Prop :=
  ∀ mem, unpack mem (Unpacker.objects m.toReader chunk) = c.request

theorem encode_length (m : Msgpack) (c : Command) : (c.encode m).length =
    (m.packInt c.command).length + (m.packStr c.ip).length + (m.packInt c.port).length +
      (m.packStr c.message).length := by
  simp only [Command.encode, List.length_append]
  omega

/-- The first object of such a chunk, and the lengths of it and of the rest. -/
theorem Reads.lengths (h : Reads m chunk c) : ∃ a rest n, m.next chunk = (some a, rest) ∧
    a.integer? = some n ∧ Int32.ofInt n = c.command ∧
    (m.packInt c.command).length + rest.length ≤ chunk.length ∧
    (m.packStr c.ip).length + (m.packInt c.port).length ≤ rest.length ∧
    ((c.encode m).length ≤ chunk.length ∨ c.message = []) := by
  obtain ⟨a, b, objs, n, k, ho, ⟨hn, hc⟩, ⟨hk, hp⟩, hm⟩ := objects_of_reads h
  obtain ⟨r, ha, ho⟩ := Unpacker.next_of_objects ho
  obtain ⟨r', hi, ho⟩ := Unpacker.next_of_objects ho
  obtain ⟨r'', hb, ho⟩ := Unpacker.next_of_objects ho
  have hla := m.packInt_least _ _ _ _ ha hn
  have hli := m.packStr_least _ _ _ hi
  have hlb := m.packInt_least _ _ _ _ hb hk
  rw [hc] at hla
  rw [hp] at hlb
  refine ⟨a, r, n, ha, hn, hc, hla, by omega, ?_⟩
  rcases hm with ⟨-, hm⟩ | ⟨more, rfl⟩
  · exact .inr hm
  · obtain ⟨rest, hd, -⟩ := Unpacker.next_of_objects ho
    have hld := m.packStr_least _ _ _ hd
    rw [encode_length]
    exact .inl (by omega)

/-- At most the byte of an empty message is missing. -/
theorem Reads.encode_le (h : Reads m chunk c) : (c.encode m).length ≤ chunk.length ∨
    c.message = [] ∧ (c.encode m).length ≤ chunk.length + 1 := by
  obtain ⟨a, rest, n, -, -, -, hla, hlr, hm⟩ := h.lengths
  rcases hm with hm | hm
  · exact .inl hm
  · refine .inr ⟨hm, ?_⟩
    rw [encode_length, hm, m.packStr_nil]
    omega

/-- Without its first byte a command does not give itself. -/
theorem Reads.cons_ne (h : Reads m chunk c) (b : UInt8) : b :: chunk ≠ c.encode m := by
  intro he
  obtain ⟨a, rest, n, ha, hn, hc, hla, hlr, hm⟩ := h.lengths
  have hl := congrArg List.length he
  rw [List.length_cons, encode_length] at hl
  rw [encode_length] at hm
  have hd : (m.packStr c.message).length = 1 := by
    rw [hm.resolve_left (by omega), m.packStr_nil]
  exact m.packInt_tail _ _ _ _ _ _ _ _ c.ip_length he.symm ha hn (by omega) hc

/-- A chunk does not begin with an empty string. -/
theorem Reads.ne_packStr (h : Reads m chunk c) (rest : List UInt8) :
    chunk ≠ m.packStr [] ++ rest := by
  rintro rfl
  obtain ⟨a, r, n, ha, hn, -⟩ := h.lengths
  rw [m.next_packStr [] rest (by decide)] at ha
  cases ha
  cases hn

theorem Reads.length_pos (h : Reads m chunk c) : 0 < chunk.length := by
  obtain ⟨a, rest, n, ha, -⟩ := h.lengths
  exact Nat.zero_lt_of_lt (m.shrinks _ _ _ ha)

/-- Where an empty message is left for the next chunk, that chunk begins with a string. -/
theorem flatten_ne_of_left {chunks : List (List UInt8)} {commands : List Command}
    (ht : List.Forall₂ (Reads m) chunks commands) {left stream : List UInt8}
    (hm : c.message = []) (hl : c.encode m = chunk ++ left) (hc : left.length = 1) : chunks.flatten ≠ left ++ stream := by
  have hleft : left = m.packStr [] := by
    rw [Command.encode, hm, ← List.append_assoc, ← List.append_assoc] at hl
    exact (List.append_inj_right' hl (by rw [m.packStr_nil, hc])).symm
  subst hleft
  intro hs
  cases ht with
  | nil =>
    have hlen := congrArg List.length hs
    rw [List.length_append, hc] at hlen
    simp at hlen
    omega
  | cons h' _ =>
    have hpos := h'.length_pos
    rw [List.flatten_cons] at hs
    rcases List.append_eq_append_iff.mp hs with ⟨more, he, -⟩ | ⟨more, he, -⟩
    · rw [he, List.length_append] at hc
      obtain rfl : more = [] := List.eq_nil_of_length_eq_zero (by omega)
      rw [List.append_nil] at he
      exact h'.ne_packStr [] (by rw [he, List.append_nil])
    · exact h'.ne_packStr more he

/-- Chunks that give the commands of the stream they make up are cut between the commands. The
induction carries the bytes of the next command that the chunks before have taken. -/
theorem chunks_eq {chunks : List (List UInt8)} {commands : List Command} {taken : List UInt8}
    (h : List.Forall₂ (Reads m) chunks commands)
    (hs : taken ++ chunks.flatten = (commands.map (Command.encode m)).flatten) :
    taken = [] ∧ chunks = commands.map (Command.encode m) := by
  induction h generalizing taken with
  | nil => exact ⟨(List.append_eq_nil_iff.mp hs).1, rfl⟩
  | @cons chunk c chunks commands hc ht ih =>
    rw [List.flatten_cons, List.map_cons, List.flatten_cons, ← List.append_assoc] at hs
    have whole (hl : taken ++ chunk = c.encode m) : taken = [] ∧ chunk = c.encode m := by
      have hlen := congrArg List.length hl
      rw [List.length_append] at hlen
      match taken with
      | [] => exact ⟨rfl, hl⟩
      | [b] => exact absurd hl (hc.cons_ne b)
      | _ :: _ :: _ =>
        simp only [List.length_cons] at hlen
        have := hc.encode_le
        omega
    rcases List.append_eq_append_iff.mp hs with ⟨left, hl, hr⟩ | ⟨taken', hl, hr⟩
    · cases left with
      | nil =>
        rw [List.append_nil] at hl
        obtain ⟨rfl, rfl⟩ := whole hl.symm
        exact ⟨rfl, congrArg _ (ih ((List.nil_append _).trans hr)).2⟩
      | cons b left =>
        have hlen := congrArg List.length hl
        simp only [List.length_append, List.length_cons] at hlen
        rcases hc.encode_le with he | ⟨hm, he⟩
        · omega
        · obtain rfl : taken = [] := List.eq_nil_of_length_eq_zero (by omega)
          have hleft : (b :: left).length = 1 := by
            rw [List.length_cons]
            omega
          exact absurd hr (flatten_ne_of_left ht hm hl hleft)
    · obtain ⟨rfl, rfl⟩ := ih hr.symm
      rw [List.append_nil] at hl
      obtain ⟨rfl, rfl⟩ := whole hl
      exact ⟨rfl, rfl⟩

end Reads

section Acts
variable {m : Msgpack} {client : Text} {commands : List Command} {chunks : List (List UInt8)}

/-- However the chunks of one client come in between other events, the callback acts on exactly
these commands, each once and in order. -/
def ActsOn (m : Msgpack) (client : Text) (commands : List Command) (chunks : List (List UInt8)) :
    Prop :=
  ∀ events s, (events.filterMap (arrival client)).map Prod.snd = chunks →
    (step m.toReader).run .new events = some s →
    actionsOf client s = commands.map (Command.action client)

/-- A bind's own server is a C string. -/
theorem onMessage_eq_action {c : Command} :
    onMessage client c.request = c.action client ↔ (c.command = 0 → 0 ∉ c.ip) := by
  rw [onMessage, Command.action]
  by_cases hc : c.command = 0
  · simp [Command.request, hc, connectRealServer, cStr_eq_self]
  · simp [Command.request, hc]

theorem run_messages (client : Text) (mem : Memory) (s : State) (chunks : List (List UInt8)) :
    ∃ t, (step m.toReader).run s (chunks.map (Event.message client mem)) = some t := by
  induction chunks generalizing s with
  | nil => exact ⟨s, rfl⟩
  | cons data chunks ih =>
    obtain ⟨t, ht⟩ := ih _
    exact ⟨t, Step.run_cons_eq_some.mpr ⟨_, rfl, ht⟩⟩

theorem filterMap_messages (client : Text) (mem : Memory) (chunks : List (List UInt8)) :
    (chunks.map (Event.message client mem)).filterMap (arrival client) = chunks.map (mem, ·) := by
  induction chunks with
  | nil => rfl
  | cons data chunks ih =>
    have hd : arrival client (.message client mem data) = some (mem, data) := if_pos rfl
    rw [List.map_cons, List.filterMap_cons_some hd, ih, List.map_cons]

theorem ActsOn.map_eq (h : ActsOn m client commands chunks) (mem : Memory) :
    chunks.map (fun data => onMessage client (unpack mem (Unpacker.objects m.toReader data))) =
      commands.map (Command.action client) := by
  obtain ⟨t, ht⟩ := run_messages (m := m) client mem .new chunks
  have ha := filterMap_messages client mem chunks
  rw [← h _ t (by rw [ha, List.map_map]; exact List.map_id _) ht, run_actionsOf client ht, ha,
    List.map_map]
  rfl

theorem reads_of_map_eq (h : ∀ mem, chunks.map (fun data =>
      onMessage client (unpack mem (Unpacker.objects m.toReader data))) =
        commands.map (Command.action client)) : List.Forall₂ (Reads m) chunks commands := by
  let mem : Memory := ⟨0, 0, fun _ => 0, fun _ => []⟩
  induction chunks generalizing commands with
  | nil =>
    cases commands with
    | nil => exact .nil
    | cons c commands => cases h mem
  | cons data chunks ih =>
    cases commands with
    | nil => cases h mem
    | cons c commands =>
      refine .cons (fun mem => ?_) (ih fun mem => (List.cons.inj (h mem)).2)
      exact congrArg Action.request (List.cons.inj (h mem)).1

theorem unpack_encode_self (m : Msgpack) (mem : Memory) (c : Command) :
    unpack mem (Unpacker.objects m.toReader (c.encode m)) = c.request := by
  have := unpack_encode m mem c []
  rwa [List.append_nil] at this

/-- Chunks that are the commands, whatever memory each of them meets. -/
theorem map_onMessage (hip : ∀ c ∈ commands, c.command = 0 → 0 ∉ c.ip)
    {arrivals : List (Memory × List UInt8)}
    (ha : arrivals.map Prod.snd = commands.map (Command.encode m)) :
    arrivals.map (fun a => onMessage client (unpack a.1 (Unpacker.objects m.toReader a.2))) =
      commands.map (Command.action client) := by
  induction commands generalizing arrivals with
  | nil => rw [List.map_eq_nil_iff.mp ha, List.map_nil, List.map_nil]
  | cons c commands ih =>
    obtain ⟨⟨mem, data⟩, arrivals, rfl, hd, ht⟩ := List.map_eq_cons_iff.mp ha
    obtain rfl : data = c.encode m := hd
    rw [List.map_cons, List.map_cons, unpack_encode_self,
      onMessage_eq_action.mpr (hip c List.mem_cons_self),
      ih (fun c' hc' => hip c' (List.mem_cons_of_mem c hc')) ht]

/-- The callback acts on the commands exactly if every chunk is one whole command and no bind has a
server with a zero byte. -/
theorem actsOn_iff (m : Msgpack) (client : Text) (commands : List Command)
    (chunks : List (List UInt8)) (hs : chunks.flatten = (commands.map (Command.encode m)).flatten) :
    ActsOn m client commands chunks ↔
      chunks = commands.map (Command.encode m) ∧ ∀ c ∈ commands, c.command = 0 → 0 ∉ c.ip := by
  constructor
  · intro h
    have hm := h.map_eq
    obtain ⟨-, rfl⟩ := chunks_eq (reads_of_map_eq hm) ((List.nil_append _).trans hs)
    refine ⟨rfl, fun c hc => ?_⟩
    have hact := hm ⟨0, 0, fun _ => 0, fun _ => []⟩
    rw [List.map_map] at hact
    have hone := List.map_inj_left.mp hact c hc
    rw [Function.comp_apply, unpack_encode_self] at hone
    exact onMessage_eq_action.mp hone
  · rintro ⟨rfl, hip⟩ events s ha hr
    rw [run_actionsOf client hr, map_onMessage hip ha]
    rfl

/-- A bind to port 80 of `127.0.0.1`, with `hello`. -/
def hello : Command where
  command := 0
  ip := [49, 50, 55, 46, 48, 46, 48, 46, 49]
  port := 80
  message := [104, 101, 108, 108, 111]
  ip_length := by decide
  message_length := by decide

example : hello.encode Format.msgpack =
    [0, 169, 49, 50, 55, 46, 48, 46, 48, 46, 49, 80, 165, 104, 101, 108, 108, 111] := by decide

theorem actsOn_two_whole :
    ActsOn Format.msgpack [49] [hello, hello]
      [hello.encode Format.msgpack, hello.encode Format.msgpack] :=
  (actsOn_iff Format.msgpack [49] [hello, hello] _ rfl).mpr ⟨rfl, by decide⟩

/-- Two commands in one chunk, and one command in two. -/
theorem not_actsOn_coalesced_or_split :
    (([hello.encode Format.msgpack ++ hello.encode Format.msgpack].flatten =
        ([hello, hello].map (Command.encode Format.msgpack)).flatten ∧
      ¬ ActsOn Format.msgpack [49] [hello, hello]
        [hello.encode Format.msgpack ++ hello.encode Format.msgpack])) ∧
    ([(hello.encode Format.msgpack).take 9, (hello.encode Format.msgpack).drop 9].flatten =
        ([hello].map (Command.encode Format.msgpack)).flatten ∧
      ¬ ActsOn Format.msgpack [49] [hello]
        [(hello.encode Format.msgpack).take 9, (hello.encode Format.msgpack).drop 9]) := by
  let mem : Memory := ⟨0, 0, fun _ => 0, fun _ => []⟩
  refine ⟨⟨by decide, fun h => ?_⟩, by decide, fun h => ?_⟩
  · have hl := congrArg List.length (h.map_eq mem)
    cases hl
  · have hl := congrArg List.length (h.map_eq mem)
    cases hl

end Acts
end AeProxy.Proxy.Framing
