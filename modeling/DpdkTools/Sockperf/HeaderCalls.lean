import DpdkTools.Sockperf.Header

/-! Runs of the header's setters, in any order and any number of times, over a message with any
old contents: the packets of a pool are written again and again. -/
namespace DpdkTools.Sockperf
set_option autoImplicit false

def messageSize (data : ℕ → UInt8) (off : ℕ) : UInt32 :=
  UInt32.ofNat (BigEndian.load data (off + 10) 4)

/-- A call of one of the three setters. -/
inductive SetCall where
  | seqn (value : SeqnT)
  | messageType (value : MessageType)
  | messageSize (value : UInt32)
  deriving Repr, DecidableEq

namespace SetCall

def run (off : ℕ) (data : ℕ → UInt8) : SetCall → ℕ → UInt8
  | seqn value => setSeqn data off value
  | messageType value => setMessageType data off value
  | messageSize value => setMessageSize data off value

def seqn? : SetCall → Option SeqnT
  | seqn value => some value
  | _ => none

def messageType? : SetCall → Option MessageType
  | messageType value => some value
  | _ => none

def messageSize? : SetCall → Option UInt32
  | messageSize value => some value
  | _ => none

end SetCall

def setAll (off : ℕ) (calls : List SetCall) (data : ℕ → UInt8) : ℕ → UInt8 :=
  calls.foldl (SetCall.run off) data

/-- The value of the last call that sets the field `get`. -/
def lastSet {α : Type} (get : SetCall → Option α) (calls : List SetCall) : Option α :=
  (calls.filterMap get).getLast?

/-! ## One call -/

theorem seqn_run (data : ℕ → UInt8) (off : ℕ) (call : SetCall) :
    seqn (call.run off data) off = call.seqn?.getD (seqn data off) := by
  cases call with
  | seqn value => exact seqn_setSeqn data off value
  | messageType value => exact seqn_setMessageType data off value
  | messageSize value =>
    have h := BigEndian.load_store_of_disjoint data (off + 10) 4 value.toNat off 8 (by omega)
    exact congrArg UInt64.ofNat h

theorem messageType_run (data : ℕ → UInt8) (off : ℕ) (call : SetCall) :
    messageType (call.run off data) off = call.messageType?.getD (messageType data off) := by
  cases call with
  | seqn value =>
    have h := BigEndian.load_store_of_disjoint data off 8 value.toNat (off + 8) 2 (by omega)
    exact congrArg (fun n => MessageType.mk (UInt16.ofNat n)) h
  | messageType value => exact messageType_setMessageType data off value
  | messageSize value =>
    have h := BigEndian.load_store_of_disjoint data (off + 10) 4 value.toNat (off + 8) 2 (by omega)
    exact congrArg (fun n => MessageType.mk (UInt16.ofNat n)) h

theorem messageSize_setMessageSize (data : ℕ → UInt8) (off : ℕ) (value : UInt32) :
    messageSize (setMessageSize data off value) off = value := by
  have h : value.toNat % 256 ^ 4 = value.toNat := Nat.mod_eq_of_lt value.toNat_lt
  rw [messageSize, setMessageSize, BigEndian.load_store, h, UInt32.ofNat_toNat]

theorem messageSize_run (data : ℕ → UInt8) (off : ℕ) (call : SetCall) :
    messageSize (call.run off data) off = call.messageSize?.getD (messageSize data off) := by
  cases call with
  | seqn value =>
    have h := BigEndian.load_store_of_disjoint data off 8 value.toNat (off + 10) 4 (by omega)
    exact congrArg UInt32.ofNat h
  | messageType value =>
    have h := BigEndian.load_store_of_disjoint data (off + 8) 2 value.value.toNat (off + 10) 4
      (by omega)
    exact congrArg UInt32.ofNat h
  | messageSize value => exact messageSize_setMessageSize data off value

theorem run_outside (data : ℕ → UInt8) (off : ℕ) (call : SetCall) (i : ℕ)
    (h : i < off ∨ off + headerSize ≤ i) : call.run off data i = data i := by
  have hsize : headerSize = 14 := rfl
  cases call with
  | seqn value => exact BigEndian.store_outside data off 8 value.toNat i (by omega)
  | messageType value => exact BigEndian.store_outside data (off + 8) 2 value.value.toNat i (by omega)
  | messageSize value => exact BigEndian.store_outside data (off + 10) 4 value.toNat i (by omega)

/-! ## All calls -/

/-- A field that every call either sets or keeps has the value last set. -/
theorem get_setAll {α : Type} (off : ℕ) (get : (ℕ → UInt8) → α) (get? : SetCall → Option α)
    (hrun : ∀ data call, get (call.run off data) = (get? call).getD (get data))
    (calls : List SetCall) (data : ℕ → UInt8) :
    get (setAll off calls data) = (lastSet get? calls).getD (get data) := by
  induction calls generalizing data with
  | nil => rfl
  | cons call calls ih =>
    have hrest := ih (call.run off data)
    rw [hrun data call] at hrest
    change get (setAll off calls (call.run off data)) = _
    rw [hrest, lastSet, lastSet, List.filterMap_cons]
    cases hget : get? call with
    | none => rfl
    | some value => rw [List.getLast?_cons]; rfl

theorem setAll_outside (off : ℕ) (calls : List SetCall) (data : ℕ → UInt8) (i : ℕ)
    (h : i < off ∨ off + headerSize ≤ i) : setAll off calls data i = data i := by
  induction calls generalizing data with
  | nil => rfl
  | cons call calls ih =>
    have hrest := ih (call.run off data)
    rw [run_outside data off call i h] at hrest
    exact hrest

/-! ## The bytes of the fields -/

theorem seqn_byte (data : ℕ → UInt8) (off i : ℕ) (h : i < 8) :
    data (off + i) = UInt8.ofNat ((seqn data off).toNat / 256 ^ (7 - i)) := by
  have hlt := BigEndian.load_lt data off 8
  have hnat : (seqn data off).toNat = BigEndian.load data off 8 := by
    rw [seqn, UInt64.toNat_ofNat']
    exact Nat.mod_eq_of_lt hlt
  rw [hnat]
  exact BigEndian.byte_eq_load data off 8 i h

theorem messageType_byte (data : ℕ → UInt8) (off i : ℕ) (h : i < 2) :
    data (off + 8 + i) = UInt8.ofNat ((messageType data off).value.toNat / 256 ^ (1 - i)) := by
  have hlt := BigEndian.load_lt data (off + 8) 2
  have hnat : (messageType data off).value.toNat = BigEndian.load data (off + 8) 2 := by
    rw [messageType, UInt16.toNat_ofNat']
    exact Nat.mod_eq_of_lt hlt
  rw [hnat]
  exact BigEndian.byte_eq_load data (off + 8) 2 i h

theorem messageSize_byte (data : ℕ → UInt8) (off i : ℕ) (h : i < 4) :
    data (off + 10 + i) = UInt8.ofNat ((messageSize data off).toNat / 256 ^ (3 - i)) := by
  have hlt := BigEndian.load_lt data (off + 10) 4
  have hnat : (messageSize data off).toNat = BigEndian.load data (off + 10) 4 := by
    rw [messageSize, UInt32.toNat_ofNat']
    exact Nat.mod_eq_of_lt hlt
  rw [hnat]
  exact BigEndian.byte_eq_load data (off + 10) 4 i h

/-- The message at `off` holds the three values, each big-endian in its place, and differs from
`old` in its header at most. -/
structure Holds (old data : ℕ → UInt8) (off : ℕ) (s : SeqnT) (t : MessageType) (z : UInt32) :
    Prop where
  seqn_eq : seqn data off = s
  messageType_eq : messageType data off = t
  messageSize_eq : messageSize data off = z
  seqn_bytes : ∀ i < 8, data (off + i) = UInt8.ofNat (s.toNat / 256 ^ (7 - i))
  messageType_bytes : ∀ i < 2, data (off + 8 + i) = UInt8.ofNat (t.value.toNat / 256 ^ (1 - i))
  messageSize_bytes : ∀ i < 4, data (off + 10 + i) = UInt8.ofNat (z.toNat / 256 ^ (3 - i))
  outside : ∀ i, i < off ∨ off + headerSize ≤ i → data i = old i

/-- Whatever the message held and whatever setters ran over it, every field has the value last
set for it, or its old value when it was never set. -/
theorem setAll_holds (off : ℕ) (calls : List SetCall) (data : ℕ → UInt8) :
    Holds data (setAll off calls data) off
      ((lastSet SetCall.seqn? calls).getD (seqn data off))
      ((lastSet SetCall.messageType? calls).getD (messageType data off))
      ((lastSet SetCall.messageSize? calls).getD (messageSize data off)) := by
  have hseqn := get_setAll off (fun d => seqn d off) SetCall.seqn?
    (fun d call => seqn_run d off call) calls data
  have htype := get_setAll off (fun d => messageType d off) SetCall.messageType?
    (fun d call => messageType_run d off call) calls data
  have hsize := get_setAll off (fun d => messageSize d off) SetCall.messageSize?
    (fun d call => messageSize_run d off call) calls data
  refine ⟨hseqn, htype, hsize, ?_, ?_, ?_, setAll_outside off calls data⟩
  · intro i hi
    rw [← hseqn]
    exact seqn_byte (setAll off calls data) off i hi
  · intro i hi
    rw [← htype]
    exact messageType_byte (setAll off calls data) off i hi
  · intro i hi
    rw [← hsize]
    exact messageSize_byte (setAll off calls data) off i hi

end DpdkTools.Sockperf
