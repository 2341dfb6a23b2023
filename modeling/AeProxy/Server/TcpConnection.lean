import AeProxy.Lib.CloseSlot

/-! `TcpConnection` and `TcpAcceptor` as far as closing goes. Stopping the reads of a handle first
changes nothing about its closing, and is left out. -/
namespace AeProxy
open Lib

/-- Whether the connection is up, which of the callbacks of its owner are set, and the one for the
end of the closing, of which there are the kinds `κ`. -/
structure TcpConnection (κ : Type*) where
  name : String
  connected : Bool
  onMessageCallback : Bool
  onConnectCloseCallback : Bool
  closeCompleteCallback : Option κ
  handle : Phase

namespace TcpConnection
variable {κ : Type*}

/-- As an owner creates it, with its two callbacks set. -/
def new (name : String) : TcpConnection κ := ⟨name, true, true, true, none, .opened⟩

def setConnectStatus (self : TcpConnection κ) (status : Bool) : TcpConnection κ :=
  { self with connected := status }

/-- `close` takes back the owner's callbacks as well. -/
def closeSlot : CloseSlot (TcpConnection κ) κ where
  phase self := self.handle
  slot self := self.closeCompleteCallback
  fill self callback := { self with
    onMessageCallback := false, onConnectCloseCallback := false, closeCompleteCallback := callback }
  withPhase self phase := { self with handle := phase }
  phase_fill _ _ := rfl
  slot_fill _ _ := rfl
  phase_withPhase _ _ := rfl
  slot_withPhase _ _ := rfl

def close (self : TcpConnection κ) (callback : Option κ) : TcpConnection κ × CloseEffect κ :=
  closeSlot.close self callback

def onClosed (self : TcpConnection κ) : TcpConnection κ × Option κ := closeSlot.onClosed self

theorem close_of_opened {self : TcpConnection κ} (h : self.handle = .opened)
    (callback : Option κ) : self.close callback =
      ({ closeSlot.fill self callback with handle := .closing }, .uvClose) := by
  apply if_pos
  show self.handle.isClosing = false
  rw [h]
  rfl

theorem close_of_not_opened {self : TcpConnection κ} (h : self.handle ≠ .opened)
    (callback : Option κ) : self.close callback =
      (closeSlot.fill self callback, .complete callback) := by
  apply if_neg
  show ¬ self.handle.isClosing = false
  rwa [Phase.isClosing_eq_false]

end TcpConnection

structure TcpAcceptor (κ : Type*) where
  onCloseCompletCallback : Option κ
  handle : Phase

namespace TcpAcceptor
variable {κ : Type*}

def new : TcpAcceptor κ := ⟨none, .opened⟩

def closeSlot : CloseSlot (TcpAcceptor κ) κ where
  phase self := self.handle
  slot self := self.onCloseCompletCallback
  fill self callback := { self with onCloseCompletCallback := callback }
  withPhase self phase := { self with handle := phase }
  phase_fill _ _ := rfl
  slot_fill _ _ := rfl
  phase_withPhase _ _ := rfl
  slot_withPhase _ _ := rfl

def close (self : TcpAcceptor κ) (callback : Option κ) : TcpAcceptor κ × CloseEffect κ :=
  closeSlot.close self callback

def onClosed (self : TcpAcceptor κ) : TcpAcceptor κ × Option κ := closeSlot.onClosed self

theorem close_of_opened {self : TcpAcceptor κ} (h : self.handle = .opened) (callback : Option κ) :
    self.close callback = (⟨callback, .closing⟩, .uvClose) :=
  if_pos (Phase.isClosing_eq_false.mpr h)

theorem close_of_not_opened {self : TcpAcceptor κ} (h : self.handle ≠ .opened)
    (callback : Option κ) : self.close callback = (⟨callback, self.handle⟩, .complete callback) :=
  if_neg (Phase.isClosing_eq_false.not.mpr h)

end TcpAcceptor
end AeProxy
