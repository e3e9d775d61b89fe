import DpdkTools.Lib.BigEndian
import DpdkTools.Sockperf.Seqn

/-! The message header of the performance test (`sockperf/sockperf.hpp`): a sequence number of
eight bytes, a type of two and a size of four, each in network order. -/
namespace DpdkTools.Sockperf
set_option autoImplicit false

/-- `sockperf::type`, an enumeration over `std::uint16_t`: a received message may carry any
16-bit value in it. -/
structure MessageType where
  value : UInt16
  deriving Repr, DecidableEq

namespace MessageType

def client : MessageType := ⟨1⟩
def pong : MessageType := ⟨2⟩
def ping : MessageType := ⟨3⟩
def warmupMessage : MessageType := ⟨4⟩
def warmupPong : MessageType := ⟨4 ||| 2⟩
def warmupPing : MessageType := ⟨4 ||| 3⟩

end MessageType

def headerSize : ℕ := 14

/-! ## The fields of the message at `off` -/

def seqn (data : ℕ → UInt8) (off : ℕ) : SeqnT := UInt64.ofNat (BigEndian.load data off 8)

def setSeqn (data : ℕ → UInt8) (off : ℕ) (value : SeqnT) : ℕ → UInt8 :=
  BigEndian.store data off 8 value.toNat

def messageType (data : ℕ → UInt8) (off : ℕ) : MessageType :=
  ⟨UInt16.ofNat (BigEndian.load data (off + 8) 2)⟩

def setMessageType (data : ℕ → UInt8) (off : ℕ) (value : MessageType) : ℕ → UInt8 :=
  BigEndian.store data (off + 8) 2 value.value.toNat

def setMessageSize (data : ℕ → UInt8) (off : ℕ) (value : UInt32) : ℕ → UInt8 :=
  BigEndian.store data (off + 10) 4 value.toNat

theorem seqn_setSeqn (data : ℕ → UInt8) (off : ℕ) (value : SeqnT) :
    seqn (setSeqn data off value) off = value := by
  have h : value.toNat % 256 ^ 8 = value.toNat := Nat.mod_eq_of_lt value.toNat_lt
  rw [seqn, setSeqn, BigEndian.load_store, h, UInt64.ofNat_toNat]

theorem messageType_setMessageType (data : ℕ → UInt8) (off : ℕ) (value : MessageType) :
    messageType (setMessageType data off value) off = value := by
  have h : value.value.toNat % 256 ^ 2 = value.value.toNat := Nat.mod_eq_of_lt value.value.toNat_lt
  rw [messageType, setMessageType, BigEndian.load_store, h, UInt16.ofNat_toNat]

theorem seqn_setMessageType (data : ℕ → UInt8) (off : ℕ) (value : MessageType) :
    seqn (setMessageType data off value) off = seqn data off := by
  rw [seqn, setMessageType, BigEndian.load_store_of_disjoint _ _ _ _ _ _ (by omega), seqn]

end DpdkTools.Sockperf
