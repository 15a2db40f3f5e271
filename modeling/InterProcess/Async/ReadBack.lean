import InterProcess.Async.MessageBuffer
import InterProcess.LockFree.MessageDelivery

/-!
# Reading a log call back

A message is laid out so that it can be taken apart again, and the address, the
format and every integer are read as they were written. `read` however converts
the eight bytes at the read position whatever the type is: a `false` comes back
as `true` unless the seven bytes behind it are zero, and a double as the number
that its bit pattern stands for as an integer.

`readBack_iff` is exact: the call is read back iff each argument survives what
lies behind it.
-/

namespace InterProcess.Async

open Bytes LockFree LockFree.MessageRingBuffer

variable {s : RingShape}

/-- `rest` lies behind the argument, which is read as it was written. -/
def Survives (rest : List UInt8) : Value → Prop
  | .bool b => b = true ∨ ∀ byte ∈ rest.take 7, byte = 0
  | .signed _ _ => True
  | .unsigned _ _ => True
  | .double bits => bits = 0 ∨ bits = BitVec.ofNat 64 Binary64.fixedPoint

theorem reread_bool (b : Bool) (rest : List UInt8) :
    (Value.bool b).reread rest = .bool b ↔ b = true ∨ ∀ byte ∈ rest.take 7, byte = 0 := by
  have hread : (Value.bool b).reread rest =
      .bool (b.toNat + 256 * ofLittleEndian (rest.take 7) != 0) := by
    rw [Value.reread, Value.loaded_eq]
    cases b <;> rfl
  rw [hread, Value.bool.injEq, ← ofLittleEndian_eq_zero_iff]
  cases b with
  | false => simp
  | true => simp

theorem reread_double (bits : BitVec 64) (rest : List UInt8) :
    (Value.double bits).reread rest = .double bits ↔
      bits = 0 ∨ bits = BitVec.ofNat 64 Binary64.fixedPoint := by
  have hlt : bits.toNat < 2 ^ 64 := bits.isLt
  have hread : (Value.double bits).reread rest =
      .double (BitVec.ofNat 64 (Binary64.ofNat bits.toNat)) := by
    rw [Value.reread, Value.loaded_eq, Value.bytes]
    show Value.double (BitVec.ofNat 64 (Binary64.ofNat
      (ofLittleEndian (littleEndian 8 bits.toNat ++ rest.take 0)))) = _
    rw [List.take_zero, List.append_nil, ofLittleEndian_littleEndian,
      Nat.mod_eq_of_lt (show bits.toNat < 256 ^ 8 from hlt)]
  have hfix : BitVec.ofNat 64 (Binary64.ofNat bits.toNat) = bits ↔
      Binary64.ofNat bits.toNat = bits.toNat := by
    rw [← BitVec.toNat_inj, BitVec.toNat_ofNat, Nat.mod_eq_of_lt (Binary64.ofNat_lt hlt)]
  rw [hread, Value.double.injEq, hfix, Binary64.ofNat_eq_self_iff hlt, ← BitVec.toNat_inj,
    ← BitVec.toNat_inj]
  rfl

/-- An argument is read as it was written iff it survives what is behind it. -/
theorem reread_eq_self_iff (v : Value) (rest : List UInt8) :
    v.reread rest = v ↔ Survives rest v := by
  cases v with
  | bool b => exact reread_bool b rest
  | signed width bits => exact iff_of_true (reread_signed bits rest) trivial
  | unsigned width bits => exact iff_of_true (reread_unsigned bits rest) trivial
  | double bits => exact reread_double bits rest

/-- The address, the arguments and the characters of the format that come out of
the message of a call, for a writer with the buffer `b`. -/
def readBack (s : RingShape) (b : OutputMessageBuffer) (call : LogCall) :
    Option (Value × List Value × List UInt8) := do
  let message ← call.message
  let (formatted, _) ← handle s b message call.types
  some (formatted.address, formatted.values, formatted.format.text)

theorem readBack_eq (hstride : 1 < s.stride) (b : OutputMessageBuffer) {call : LogCall}
    (hformat : call.format ≠ []) :
    readBack s b call = some (call.address,
      rereadAll call.args (call.format ++ b.behind s call.messageSize), call.format) := by
  simp only [readBack, call.message_eq, handle_eq hstride b hformat, Option.bind_eq_bind,
    Option.bind_some, CharSpan.text, List.take_left, call.layout_length]

/-- A call is read back as it was made iff every argument survives the bytes that stand after it in
the message. -/
theorem readBack_iff (hstride : 1 < s.stride) (b : OutputMessageBuffer) (call : LogCall)
    (hformat : call.format ≠ []) :
    readBack s b call = some (call.address, call.args, call.format) ↔
      ∀ before v after, call.args = before ++ v :: after →
        Survives (after.flatMap Value.bytes ++ (call.format ++ b.behind s call.messageSize)) v := by
  rw [readBack_eq hstride b hformat, Option.some.injEq, Prod.mk.injEq, Prod.mk.injEq,
    rereadAll_eq_self_iff]
  simp only [reread_eq_self_iff, true_and, and_true]

/-- `log("%zu", 7, true)`. -/
def logIndex : LogCall where
  formatMessage := BitVec.ofNat _ 0x4010
  args := [.unsigned .eight (BitVec.ofNat _ 7), .bool true]
  format := [37, 122, 117]

theorem readBack_logIndex :
    readBack ring32 .fresh logIndex = some (logIndex.address, logIndex.args, logIndex.format) := by
  refine (readBack_iff (by decide) .fresh logIndex (by decide)).mpr ?_
  intro before v after heq
  have hv : v ∈ logIndex.args := by rw [heq]; exact List.mem_append_right _ List.mem_cons_self
  rcases List.mem_cons.mp hv with rfl | hv
  · trivial
  · cases List.mem_singleton.mp hv
    exact .inl rfl

/-- `log("%d", false)`. -/
def logFalse : LogCall where
  formatMessage := BitVec.ofNat _ 0x4010
  args := [.bool false]
  format := [37, 100]

/-- Not every call is read back: the format is taken for a part of the argument. -/
theorem not_readBack : ¬∀ (s : RingShape) (b : OutputMessageBuffer) (call : LogCall),
    1 < s.stride → call.format ≠ [] →
      readBack s b call = some (call.address, call.args, call.format) := by
  intro hall
  have hread := hall ring32 .fresh logFalse (by decide) (by decide)
  exact absurd hread (by decide +kernel)

end InterProcess.Async
