import AeProxy.Lib.System
import AeProxy.Proxy.Msgpack
import Mathlib.Data.List.AList

/-! `TcpProxy`: the callback for what a client sends, and the agents it connects. -/
namespace AeProxy.Proxy.TcpProxy
open Lib

/-- What `unpack` returns. -/
structure Request where
  command : Int32
  ip : Text
  port : Int32
  message : Text
  deriving DecidableEq, Repr

def assign (mem : Memory) (i : Nat) (obj : Object) (locals : Request) : Request :=
  match i with
  | 0 => { locals with command := (obj.i64 (mem.i64 0)).toInt32 }
  | 1 => { locals with ip := obj.strOr (mem.str 1) }
  | 2 => { locals with port := (obj.i64 (mem.i64 2)).toInt32 }
  | 3 => { locals with message := obj.strOr (mem.str 3) }
  | _ => locals

def unpack (mem : Memory) (objs : List Object) : Request :=
  unpackLoop (assign mem) 0 ⟨mem.command, [], mem.port, []⟩ objs

/-- An agent, with what its callback has captured. -/
structure TcpAgent where
  client : Text
  ip : Text
  port : Int32
  message : Text
  deriving DecidableEq, Repr

/-- One run of the message callback, and the agent it made, if any. -/
structure Action where
  client : Text
  request : Request
  agent : Option TcpAgent
  deriving DecidableEq

structure State where
  actions : List Action
  session : AList fun _ : Text => Nat

/-- A chunk from a client, or the end of an agent's connecting. -/
inductive Event where
  | message (client : Text) (mem : Memory) (data : List UInt8)
  | connectStatus (agent : Nat) (success : Bool)

namespace State

def new : State := ⟨[], ∅⟩

/-- The agents made by `connect_real_server`, in order. -/
def agents (self : State) : List TcpAgent := self.actions.filterMap Action.agent

end State

def connectRealServer (client ip : Text) (port : Int32) (message : Text) : TcpAgent :=
  ⟨client, ip, port, message⟩

/-- The message callback. -/
def onMessage (client : Text) (request : Request) : Action :=
  ⟨client, request,
    if request.command = 0 then
      some (connectRealServer client (cStr request.ip) request.port request.message)
    else none⟩

/-- The callback of a connecting agent. -/
def onConnectStatus (self : State) (agent : Nat) (success : Bool) : Option State :=
  self.agents[agent]?.map fun a =>
    if success then { self with session := self.session.insert a.client agent } else self

def step (unpacker : Unpacker) : Step State Event := fun self event =>
  match event with
  | .message client mem data =>
    some { self with
      actions := self.actions ++ [onMessage client (unpack mem (unpacker.objects data))] }
  | .connectStatus agent success => onConnectStatus self agent success

section Unpack
variable {mem : Memory} {objs : List Object}

theorem assign_command {i : Nat} (hi : 1 ≤ i) (obj : Object) (locals : Request) :
    (assign mem i obj locals).command = locals.command := by
  unfold assign
  split
  case h_1 => omega
  all_goals rfl

/-- The command is decided by the first object. -/
theorem unpack_command (obj : Object) :
    (unpack mem (obj :: objs)).command = (obj.i64 (mem.i64 0)).toInt32 :=
  unpackLoop_keeps Request.command (fun _ hi => assign_command hi) (Nat.le_refl 1) _ objs

/-- Behind the fourth object nothing is stored. -/
theorem unpack_four (a b c d : Object) :
    unpack mem (a :: b :: c :: d :: objs) = ⟨(a.i64 (mem.i64 0)).toInt32, b.strOr (mem.str 1),
      (c.i64 (mem.i64 2)).toInt32, d.strOr (mem.str 3)⟩ := by
  apply unpackLoop_keeps id (k := 4) ?_ (Nat.le_refl 4)
  intro i hi obj locals
  unfold assign
  split
  all_goals first | omega | rfl

end Unpack

end AeProxy.Proxy.TcpProxy
