import AeProxy.Packet.Number
import Mathlib.Data.List.TakeDrop
import Mathlib.Data.List.Basic

/-! `Packet`, the frame it packs a payload into, and the byte buffer it is read from. -/
namespace AeProxy

/-- The static members `HeadByte`, `EndByte` and `Mode` of `Packet`, as initialised. -/
structure Packet.Format where
  headByte : UInt8 := 0x7e
  endByte : UInt8 := 0xe7
  mode : Packet.DataMode := .littleEndian
  deriving DecidableEq, Repr

/-- `std::string buffer_` and `uint16_t dataSize_`. -/
structure Packet where
  buffer : List UInt8
  dataSize : UInt16
  deriving DecidableEq, Repr

/-- The one member of the class, `std::list<uint8_t> buffer_`. -/
abbrev ListBuffer := List UInt8

namespace ListBuffer

def append (buf : ListBuffer) (data : List UInt8) : ListBuffer := buf ++ data

/-- The return code and the string with what was read pushed onto its end. -/
def readBufferN (buf : ListBuffer) (data : List UInt8) (n : Nat) : Int × List UInt8 :=
  if n > buf.length then (-1, data) else (0, data ++ buf.take n)

abbrev readSize (buf : ListBuffer) : Nat := buf.length

abbrev clearBufferN (buf : ListBuffer) (n : Nat) : ListBuffer := buf.drop n

end ListBuffer

namespace Packet
open Lib
variable (fmt : Format)

def new : Packet := ⟨[], 0⟩

abbrev packetMinSize : Nat := 4

/-- `std::copy` of the data to an offset of the string. -/
def copyTo (buffer : List UInt8) (off : Nat) (data : List UInt8) : List UInt8 :=
  buffer.take off ++ data ++ buffer.drop (off + data.length)

/-- `resize` keeps what the object held before, which every later write covers. -/
def pack (self : Packet) (data : List UInt8) (size : UInt16) : Packet :=
  let buffer := self.buffer.takeD (size.toNat + packetMinSize) 0
  let buffer := buffer.set 0 fmt.headByte
  let buffer := packNum fmt.mode 2 buffer 1 size.toBitVec
  let buffer := copyTo buffer 3 (data.take size.toNat)
  ⟨buffer.set (buffer.length - 1) fmt.endByte, size⟩

/-- The string the returned pointer points to. -/
def getData (self : Packet) : List UInt8 := self.buffer.drop 3

def packetSize (self : Packet) : Nat := self.buffer.length % 2 ^ 32

/-- The size is a `size_t` difference cut to 16 bits. -/
def swap (_self : Packet) (str : List UInt8) : Packet :=
  ⟨str, UInt16.ofNat ((str.length + 2 ^ 64 - packetMinSize) % 2 ^ 64)⟩

/-- A head byte, a size field, as many bytes as it says, and the byte behind them. -/
structure Frame where
  size0 : UInt8
  size1 : UInt8
  body : List UInt8
  trailer : UInt8
  sized : body.length = wireValue fmt.mode [size0, size1]

/-- A payload `Packet::pack` accepts: its length fits the `uint16_t` size. -/
structure Payload where
  bytes : List UInt8
  fits : bytes.length < 2 ^ 16

def Payload.size (p : Payload) : UInt16 := UInt16.ofNat p.bytes.length

/-- Pack the payload into a packet object. -/
def Payload.pack (p : Payload) (self : Packet) : Packet := self.pack fmt p.bytes p.size

variable {fmt}

namespace Frame

def bytes (f : Frame fmt) : List UInt8 :=
  fmt.headByte :: f.size0 :: f.size1 :: (f.body ++ [f.trailer])

@[simp] theorem bytes_length (f : Frame fmt) : f.bytes.length = f.body.length + 4 := by
  simp [bytes]

theorem body_length_lt (f : Frame fmt) : f.body.length < 2 ^ 16 := by
  have h := wireValue_lt fmt.mode [f.size0, f.size1]
  rw [f.sized]
  simpa using h

/-- The frame ends with the end byte. -/
def Closed (f : Frame fmt) : Prop := f.trailer = fmt.endByte

instance (f : Frame fmt) : Decidable f.Closed := inferInstanceAs (Decidable (_ = _))

/-- The size field alone fixes how long a frame is. -/
theorem length_eq_of_size {f g : Frame fmt} (h0 : f.size0 = g.size0) (h1 : f.size1 = g.size1) :
    f.bytes.length = g.bytes.length := by
  rw [bytes_length, bytes_length, f.sized, g.sized, h0, h1]

/-- The packet that holds the frame. -/
def packet (f : Frame fmt) : Packet := ⟨f.bytes, UInt16.ofNat f.body.length⟩

@[simp] theorem packet_buffer (f : Frame fmt) : f.packet.buffer = f.bytes := rfl

theorem swap_bytes (f : Frame fmt) (self : Packet) : self.swap f.bytes = f.packet := by
  have hb := f.body_length_lt
  have he : (f.body.length + 4 + 2 ^ 64 - packetMinSize) % 2 ^ 64 = f.body.length := by
    rw [packetMinSize]
    omega
  rw [swap, packet, bytes_length, he]

theorem packet_dataSize (f : Frame fmt) : f.packet.dataSize.toNat = f.body.length := by
  have hb := f.body_length_lt
  rw [packet, UInt16.toNat_ofNat', Nat.mod_eq_of_lt hb]

theorem packet_packetSize (f : Frame fmt) : f.packet.packetSize = f.body.length + 4 := by
  have hb := f.body_length_lt
  rw [packetSize, packet, bytes_length]
  omega

theorem packet_getData (f : Frame fmt) : f.packet.getData = f.body ++ [f.trailer] := rfl

end Frame

namespace Payload

theorem size_toNat (p : Payload) : p.size.toNat = p.bytes.length := by
  rw [size, UInt16.toNat_ofNat', Nat.mod_eq_of_lt p.fits]

private theorem size_field (mode : DataMode) (p : Payload) :
    ∃ s0 s1, wire mode (toBytes 2 p.bytes.length) = [s0, s1] :=
  List.length_eq_two.mp (by simp)

/-- The frame a payload is packed into. -/
def frame (fmt : Format) (p : Payload) : Frame fmt where
  size0 := (wire fmt.mode (toBytes 2 p.bytes.length)).getD 0 0
  size1 := (wire fmt.mode (toBytes 2 p.bytes.length)).getD 1 0
  body := p.bytes
  trailer := fmt.endByte
  sized := by
    obtain ⟨s0, s1, h⟩ := size_field fmt.mode p
    have hv := wireValue_wire fmt.mode 2 p.bytes.length
    have hlt : p.bytes.length < 256 ^ 2 := p.fits
    rw [h, Nat.mod_eq_of_lt hlt] at hv
    simpa only [h, List.getD_cons_zero, List.getD_cons_succ] using hv.symm

theorem frame_closed (p : Payload) : (p.frame fmt).Closed := rfl

theorem frame_bytes (p : Payload) : (p.frame fmt).bytes =
    fmt.headByte :: (wire fmt.mode (toBytes 2 p.bytes.length) ++ (p.bytes ++ [fmt.endByte])) := by
  obtain ⟨s0, s1, h⟩ := size_field fmt.mode p
  simp only [Frame.bytes, frame, h]
  rfl

/-- Packing writes exactly the payload's frame, whatever the object held. -/
theorem pack_eq (p : Payload) (self : Packet) : p.pack fmt self = (p.frame fmt).packet := by
  obtain ⟨x, rest, hr⟩ : ∃ x rest, self.buffer.takeD (p.bytes.length + packetMinSize) 0 = x :: rest :=
    List.exists_cons_of_length_pos (by simp [packetMinSize])
  have hlen : rest.length = p.bytes.length + 3 := by
    have h := congrArg List.length hr
    simpa [packetMinSize] using h.symm
  obtain ⟨y0, y1, rest, rfl⟩ : ∃ y0 y1 r, rest = y0 :: y1 :: r := by
    match rest, hlen with
    | y0 :: y1 :: r, _ => exact ⟨y0, y1, r, rfl⟩
  obtain ⟨s0, s1, hw⟩ := size_field fmt.mode p
  have hs : p.size.toBitVec.toNat = p.bytes.length := p.size_toNat
  have hn : packNum fmt.mode 2 (fmt.headByte :: y0 :: y1 :: rest) 1 p.size.toBitVec =
      fmt.headByte :: s0 :: s1 :: rest := by
    have h := packNum_eq fmt.mode 2 [fmt.headByte] [y0, y1] rest p.size.toBitVec rfl
    rwa [hs, hw] at h
  obtain ⟨z, hz⟩ : ∃ z, rest.drop p.bytes.length = [z] :=
    List.length_eq_one_iff.mp (by simp at hlen ⊢; omega)
  have hcopy : copyTo (fmt.headByte :: s0 :: s1 :: rest) 3 p.bytes =
      fmt.headByte :: s0 :: s1 :: (p.bytes ++ [z]) := by
    rw [copyTo, ← List.drop_drop]
    simp [hz]
  have htake : p.bytes.take p.bytes.length = p.bytes := List.take_of_length_le (Nat.le_refl _)
  simp only [Payload.pack, Packet.pack, size_toNat, hr, List.set_cons_zero, hn, htake, hcopy]
  rw [Frame.packet, frame_bytes, hw]
  simp [Payload.size, frame]

end Payload
end Packet
end AeProxy
