import AeProxy.Server.TcpConnection

/-! The four classes that close their handle through a single callback slot: a second request
overwrites the callback of the first, and runs its own at once. -/
namespace AeProxy
open Lib

structure Timer (κ : Type*) where
  closeComplete : Option κ
  handle : Phase

namespace Timer
variable {κ : Type*}

def closeSlot : CloseSlot (Timer κ) κ where
  phase self := self.handle
  slot self := self.closeComplete
  fill self callback := { self with closeComplete := callback }
  withPhase self phase := { self with handle := phase }
  phase_fill _ _ := rfl
  slot_fill _ _ := rfl
  phase_withPhase _ _ := rfl
  slot_withPhase _ _ := rfl

def close (self : Timer κ) (callback : Option κ) : Timer κ × CloseEffect κ :=
  closeSlot.close self callback

/-- The callback is run before the handle is deleted. -/
def onClosed (self : Timer κ) : Timer κ × Option κ := closeSlot.onClosed self

end Timer

structure UdpSocket (κ : Type*) where
  on_close : Option κ
  handle : Phase

namespace UdpSocket
variable {κ : Type*}

def closeSlot : CloseSlot (UdpSocket κ) κ where
  phase self := self.handle
  slot self := self.on_close
  fill self callback := { self with on_close := callback }
  withPhase self phase := { self with handle := phase }
  phase_fill _ _ := rfl
  slot_fill _ _ := rfl
  phase_withPhase _ _ := rfl
  slot_withPhase _ _ := rfl

def close (self : UdpSocket κ) (callback : Option κ) : UdpSocket κ × CloseEffect κ :=
  closeSlot.close self callback

def onClosed (self : UdpSocket κ) : UdpSocket κ × Option κ := closeSlot.onClosed self

end UdpSocket

namespace CloseOnce
open CloseSlot
variable {κ : Type*}

/-- Whatever the state of an object whose handle is open, the callbacks of the requests made before
its closing completes are delivered as they should be for a single request only. -/
theorem deliversOnce_iff_single (calls : List (Option κ)) :
    (∀ connection : TcpConnection κ, connection.handle = .opened →
      (TcpConnection.closeSlot.DeliversOnce connection calls ↔ Single calls)) ∧
    (∀ acceptor : TcpAcceptor κ, acceptor.handle = .opened →
      (TcpAcceptor.closeSlot.DeliversOnce acceptor calls ↔ Single calls)) ∧
    (∀ timer : Timer κ, timer.handle = .opened →
      (Timer.closeSlot.DeliversOnce timer calls ↔ Single calls)) ∧
    (∀ socket : UdpSocket κ, socket.handle = .opened →
      (UdpSocket.closeSlot.DeliversOnce socket calls ↔ Single calls)) :=
  ⟨fun _ h => TcpConnection.closeSlot.deliversOnce_iff h calls,
    fun _ h => TcpAcceptor.closeSlot.deliversOnce_iff h calls,
    fun _ h => Timer.closeSlot.deliversOnce_iff h calls,
    fun _ h => UdpSocket.closeSlot.deliversOnce_iff h calls⟩

theorem deliversOnce_iff_single_new :
    TcpConnection.closeSlot.DeliversOnce (.new "peer") [some 7] ↔ Single [some 7] :=
  (deliversOnce_iff_single [some 7]).1 (.new "peer") rfl

/-- The server closes a connection, and its user does so too before the handle is closed. -/
theorem not_deliversOnce_twice :
    ¬ TcpConnection.closeSlot.DeliversOnce (.new "peer") [some 0, some 1] := by
  rintro ⟨hearly, -⟩
  cases hearly

end CloseOnce
end AeProxy
