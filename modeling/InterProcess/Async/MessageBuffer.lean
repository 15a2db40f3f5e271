import InterProcess.LockFree.MessageFifo
import InterProcess.Lib.Binary64

/-!
# A log call as bytes

`log` writes the address of an instance of `format_message`, the arguments and
the characters of the format one behind another into an `input_message_buffer`;
the writer pops the message into its one `output_message_buffer`, reads the
address and calls the instance, which reads the arguments by their types and
takes what remains for the format.

Whatever the type, `read` loads a `std::size_t` at the read position and
converts it. The load may take in bytes behind the value, and behind the message
too: the vector has `sizeof(message_t)` bytes of storage for each byte of the
message. `Reading` says what lies at the read position; the lemmas about the
functions are stated with it.

A failing assertion is `none`.
-/

namespace InterProcess.Async

open Bytes LockFree LockFree.MessageRingBuffer

/-! ## Values -/

/-- `sizeof` of an integer type. -/
inductive Width
  | one
  | two
  | four
  | eight
  deriving DecidableEq, Repr

def Width.bytes : Width → ℕ
  | .one => 1
  | .two => 2
  | .four => 4
  | .eight => 8

/-- The type of an argument, decayed. -/
inductive ArgType
  | bool
  | signed (width : Width)
  | unsigned (width : Width)
  | double
  deriving DecidableEq, Repr

def ArgType.sizeof : ArgType → ℕ
  | .bool => 1
  | .signed width => width.bytes
  | .unsigned width => width.bytes
  | .double => 8

/-- `size_of<Values...>`. -/
def sizeOf (types : List ArgType) : ℕ := (types.map ArgType.sizeof).sum

/-- An argument: a signed integer in two's complement, a double as its bit pattern. -/
inductive Value
  | bool (b : Bool)
  | signed (width : Width) (bits : BitVec (8 * width.bytes))
  | unsigned (width : Width) (bits : BitVec (8 * width.bytes))
  | double (bits : BitVec 64)
  deriving DecidableEq, Repr

def Value.type : Value → ArgType
  | .bool _ => .bool
  | .signed width _ => .signed width
  | .unsigned width _ => .unsigned width
  | .double _ => .double

def Value.toNat : Value → ℕ
  | .bool b => b.toNat
  | .signed _ bits => bits.toNat
  | .unsigned _ bits => bits.toNat
  | .double bits => bits.toNat

/-- The object representation. -/
def Value.bytes (v : Value) : List UInt8 := littleEndian v.type.sizeof v.toNat

@[simp] theorem Value.bytes_length (v : Value) : v.bytes.length = v.type.sizeof :=
  littleEndian_length _ _

theorem bytes_length (args : List Value) :
    (args.flatMap Value.bytes).length = sizeOf (args.map Value.type) := by
  simp [sizeOf, List.length_flatMap, Function.comp_def]

theorem ArgType.sizeof_le (t : ArgType) : t.sizeof ≤ sizeofSize := by
  cases t with
  | bool => decide
  | signed width => cases width <;> decide
  | unsigned width => cases width <;> decide
  | double => decide

/-! ## Writing -/

/-- `input_message_buffer<Capacity>`: the first `size_` bytes of its array. -/
structure InputMessageBuffer (capacity : ℕ) where
  written : List UInt8

namespace InputMessageBuffer

variable {capacity : ℕ}

def size (b : InputMessageBuffer capacity) : ℕ := b.written.length

def full (b : InputMessageBuffer capacity) : Bool := b.size == capacity

/-- `write_impl`, given the object representations of its values. -/
def write (b : InputMessageBuffer capacity) (bytes : List UInt8) :
    Option (InputMessageBuffer capacity) :=
  if b.size + bytes.length ≤ capacity then
    let minSize := min bytes.length (capacity - b.size)
    some { written := b.written ++ bytes.take minSize }
  else none

theorem write_eq {b : InputMessageBuffer capacity} {bytes : List UInt8}
    (h : b.size + bytes.length ≤ capacity) :
    b.write bytes = some { written := b.written ++ bytes } := by
  have hmin : min bytes.length (capacity - b.size) = bytes.length := Nat.min_eq_left (by omega)
  simp only [write, if_pos h, hmin, List.take_length]

end InputMessageBuffer

/-- The overloads of `fill_buffer`: the last value has to fill the buffer. -/
def fillBuffer {capacity : ℕ} (b : InputMessageBuffer capacity) (first : List UInt8) :
    List (List UInt8) → Option (InputMessageBuffer capacity)
  | [] => (b.write first).filter InputMessageBuffer.full
  | next :: rest => (b.write first).bind fun b => fillBuffer b next rest

/-- The arguments of a call of `log`. The characters of `format` are without the
terminating NUL, which `log` cuts off. -/
structure LogCall where
  formatMessage : BitVec (8 * Width.eight.bytes)
  args : List Value
  format : List UInt8
  deriving DecidableEq

namespace LogCall

variable (call : LogCall)

/-- `&format_message<std::decay_t<Args>...>` as a `uintptr_t`. -/
def address : Value := .unsigned .eight call.formatMessage

def types : List ArgType := call.args.map Value.type

/-- `message_size`. -/
def messageSize : ℕ := ArgType.sizeof (.unsigned .eight) + sizeOf call.types + call.format.length

/-- The message `log` pushes. -/
def message : Option (List UInt8) :=
  let buffer : InputMessageBuffer call.messageSize := { written := [] }
  (fillBuffer buffer call.address.bytes (call.args.map Value.bytes ++ [call.format])).bind
    fun b => if call.messageSize = b.size then some b.written else none

/-- Address, arguments and format one behind another. -/
def layout : List UInt8 := call.address.bytes ++ (call.args.flatMap Value.bytes ++ call.format)

end LogCall

theorem fillBuffer_eq {capacity : ℕ} (values : List (List UInt8)) :
    ∀ (b : InputMessageBuffer capacity) (first : List UInt8),
      b.size + (first ++ values.flatten).length = capacity →
        fillBuffer b first values = some { written := b.written ++ (first ++ values.flatten) } := by
  induction values with
  | nil =>
      intro b first h
      rw [List.flatten_nil, List.append_nil] at h ⊢
      rw [fillBuffer, InputMessageBuffer.write_eq h.le, Option.filter_some_pos]
      unfold InputMessageBuffer.size at h
      simp [InputMessageBuffer.full, InputMessageBuffer.size, h]
  | cons next rest ih =>
      intro b first h
      rw [List.flatten_cons, List.length_append] at h
      have hfirst : b.size + first.length ≤ capacity := by omega
      rw [fillBuffer, InputMessageBuffer.write_eq hfirst, Option.bind_some, ih]
      · rw [List.flatten_cons, List.append_assoc]
      · simp only [InputMessageBuffer.size, List.length_append] at h ⊢
        omega

theorem LogCall.layout_length (call : LogCall) : call.layout.length = call.messageSize := by
  simp only [layout, List.length_append, bytes_length, Value.bytes_length, messageSize, types]
  rw [Nat.add_assoc]
  rfl

/-- No assertion of `log` fails, and the message is laid out as said. -/
theorem LogCall.message_eq (call : LogCall) : call.message = some call.layout := by
  have hlayout : call.address.bytes ++ (call.args.map Value.bytes ++ [call.format]).flatten =
      call.layout := by
    rw [layout, List.flatten_append, List.flatten_singleton, List.flatMap_def]
  have hsize : call.messageSize = call.layout.length := call.layout_length.symm
  simp only [message]
  rw [fillBuffer_eq, Option.bind_some, hlayout, List.nil_append]
  · exact if_pos hsize
  · rw [hlayout, InputMessageBuffer.size, List.length_nil, Nat.zero_add, hsize]

/-! ## Reading -/

/-- `output_message_buffer`. -/
structure OutputMessageBuffer where
  buffer : MessageVector
  readCount : ℕ
  deriving DecidableEq

/-- The conversion of a `std::size_t` to the type that `read` returns. -/
def ArgType.ofSize : ArgType → ℕ → Value
  | .bool, n => .bool (n != 0)
  | .signed width, n => .signed width (BitVec.ofNat _ n)
  | .unsigned width, n => .unsigned width (BitVec.ofNat _ n)
  | .double, n => .double (BitVec.ofNat 64 (Binary64.ofNat n))

/-- A `std::span<char>`: the storage from `data()` on, and `size()`. -/
structure CharSpan where
  data : List UInt8
  size : ℕ
  deriving DecidableEq, Repr

/-- The characters of the span. -/
def CharSpan.text (span : CharSpan) : List UInt8 := span.data.take span.size

namespace OutputMessageBuffer

/-- The buffer `start` begins with. -/
def fresh : OutputMessageBuffer := { buffer := [], readCount := 0 }

variable (s : RingShape) (b : OutputMessageBuffer)

def size : ℕ := b.buffer.length / s.stride

def reset : OutputMessageBuffer := { b with readCount := 0 }

/-- `read<Value>()`. The load must not leave the vector's storage either. -/
def read (t : ArgType) : Option (Value × OutputMessageBuffer) :=
  if t.sizeof ≤ b.size s - b.readCount ∧ b.readCount + sizeofSize ≤ b.buffer.length then
    -- eight bytes are loaded for every type
    let data := (b.buffer.drop b.readCount).take sizeofSize
    some (t.ofSize (ofLittleEndian data), { b with readCount := b.readCount + t.sizeof })
  else none

/-- `remaining`. -/
def remaining : Option ℕ :=
  if b.readCount < b.size s then some (b.size s - b.readCount) else none

/-- `read<char>(size)`. -/
def readChars (count : ℕ) : Option (CharSpan × OutputMessageBuffer) :=
  if count ≤ b.size s - b.readCount then
    some (⟨b.buffer.drop b.readCount, count⟩, { b with readCount := b.readCount + count })
  else none

/-- `try_pop` has popped `message` into the vector. -/
def pop (message : List UInt8) : OutputMessageBuffer :=
  { b with buffer := overwrite (resize s b.buffer message.length) message }

end OutputMessageBuffer

variable (s : RingShape)

/-- `read_values`. -/
def readValues : List ArgType → OutputMessageBuffer →
    Option (List Value × OutputMessageBuffer)
  | [], b => some ([], b)
  | t :: types, b => do
      let (value, b) ← b.read s t
      let (values, b) ← readValues types b
      some (value :: values, b)

/-- `format_message<Values...>`: what it calls `printf` with. -/
def formatMessage (types : List ArgType) (b : OutputMessageBuffer) :
    Option ((List Value × CharSpan) × OutputMessageBuffer) := do
  let (values, b) ← readValues s types b
  let count ← b.remaining s
  let (format, b) ← b.readChars s count
  some ((values, format), b)

/-- A message as the writer has read it. -/
structure Formatted where
  address : Value
  values : List Value
  format : CharSpan
  deriving DecidableEq

/-- What `start` does with one message, which is for the instance of
`format_message` with these types. -/
def handle (b : OutputMessageBuffer) (message : List UInt8) (types : List ArgType) :
    Option (Formatted × OutputMessageBuffer) := do
  let (address, b) ← (b.reset.pop s message).read s (.unsigned .eight)
  let ((values, format), b) ← formatMessage s types b
  some ({ address := address, values := values, format := format }, b)

/-- The vector is the one `try_pop` leaves when `message` is the oldest. -/
theorem tryPop_pop {ring : Buffer} {message : List UInt8} {q : List (List UInt8)}
    (h : Holds s ring (message :: q)) (b : OutputMessageBuffer) :
    tryPop s ring b.buffer = (.ok (), (b.pop s message).buffer, (tryPop s ring b.buffer).2.2) := by
  rcases tryPop_spec h b.buffer with ⟨hnil, -⟩ | ⟨m, q', heq, hok, hvector, -⟩
  · cases hnil
  · cases heq
    exact Prod.ext hok (Prod.ext hvector rfl)

/-! ## What is read -/

/-- What is read for `v` when `rest` is behind it. -/
def Value.reread (v : Value) (rest : List UInt8) : Value :=
  v.type.ofSize (ofLittleEndian ((v.bytes ++ rest).take sizeofSize))

/-- A statement about each element of a list and where it stands. -/
theorem forall_split_cons {α : Type*} {a : α} {l : List α} {P : List α → α → List α → Prop} :
    (∀ before x after, a :: l = before ++ x :: after → P before x after) ↔
      P [] a l ∧ ∀ before x after, l = before ++ x :: after → P (a :: before) x after := by
  constructor
  · intro h
    refine ⟨h [] a l rfl, fun before x after heq => h (a :: before) x after ?_⟩
    rw [heq, List.cons_append]
  · rintro ⟨hhead, htail⟩ before x after heq
    cases before with
    | nil =>
        cases heq
        exact hhead
    | cons a' before =>
        cases heq
        exact htail before x after rfl

def rereadAll : List Value → List UInt8 → List Value
  | [], _ => []
  | v :: args, rest => v.reread (args.flatMap Value.bytes ++ rest) :: rereadAll args rest

/-- Each value comes back the same iff each does with what is behind it. -/
theorem rereadAll_eq_self_iff {args : List Value} {rest : List UInt8} :
    rereadAll args rest = args ↔ ∀ before v after, args = before ++ v :: after →
      v.reread (after.flatMap Value.bytes ++ rest) = v := by
  induction args with
  | nil => simp [rereadAll]
  | cons v args ih =>
      rw [rereadAll, List.cons.injEq, ih, forall_split_cons]

/-- The load takes the bytes of the value and what is behind it. -/
theorem Value.loaded_eq (v : Value) (rest : List UInt8) :
    (v.bytes ++ rest).take sizeofSize = v.bytes ++ rest.take (sizeofSize - v.type.sizeof) := by
  have hle : v.bytes.length ≤ sizeofSize := v.bytes_length ▸ v.type.sizeof_le
  rw [List.take_append, List.take_of_length_le hle, v.bytes_length]

/-- The conversion to an integer type drops what does not belong to the value. -/
theorem ofNat_loaded {width : Width} (bits : BitVec (8 * width.bytes)) (rest : List UInt8) :
    BitVec.ofNat (8 * width.bytes) (ofLittleEndian (littleEndian width.bytes bits.toNat ++ rest)) =
      bits := by
  have hpow : 2 ^ (8 * width.bytes) = 256 ^ width.bytes := Nat.pow_mul 2 8 _
  have hlt : bits.toNat < 256 ^ width.bytes := hpow ▸ bits.isLt
  refine BitVec.eq_of_toNat_eq ?_
  rw [BitVec.toNat_ofNat, hpow, ofLittleEndian_littleEndian_append, Nat.mod_eq_of_lt hlt]

theorem reread_signed {width : Width} (bits : BitVec (8 * width.bytes)) (rest : List UInt8) :
    (Value.signed width bits).reread rest = .signed width bits := by
  rw [Value.reread, Value.loaded_eq]
  exact congrArg (Value.signed width) (ofNat_loaded bits _)

theorem reread_unsigned {width : Width} (bits : BitVec (8 * width.bytes)) (rest : List UInt8) :
    (Value.unsigned width bits).reread rest = .unsigned width bits := by
  rw [Value.reread, Value.loaded_eq]
  exact congrArg (Value.unsigned width) (ofNat_loaded bits _)

/-- `unread` is what is left of the message, `tail` what lies behind it. -/
structure Reading (b : OutputMessageBuffer) (unread tail : List UInt8) : Prop where
  data : b.buffer.drop b.readCount = unread ++ tail
  size_eq : b.size s = b.readCount + unread.length
  room : sizeofSize ≤ tail.length

/-- The buffer after `count` more bytes are read. -/
def OutputMessageBuffer.skip (b : OutputMessageBuffer) (count : ℕ) : OutputMessageBuffer :=
  { b with readCount := b.readCount + count }

/-- The bytes behind a message of `count` bytes when it has been popped. -/
def OutputMessageBuffer.behind (b : OutputMessageBuffer) (count : ℕ) : List UInt8 :=
  (resize s b.buffer count).drop count

variable {s} {b : OutputMessageBuffer} {unread tail : List UInt8}

@[simp] theorem OutputMessageBuffer.skip_skip (b : OutputMessageBuffer) (count count' : ℕ) :
    (b.skip count).skip count' = b.skip (count + count') := by
  simp [skip, Nat.add_assoc]

theorem Reading.skip {bytes : List UInt8} (h : Reading s b (bytes ++ unread) tail) :
    Reading s (b.skip bytes.length) unread tail where
  data := by
    have hdata := h.data
    rw [OutputMessageBuffer.skip, ← List.drop_drop, hdata, List.append_assoc, List.drop_left]
  size_eq := by
    have hsize := h.size_eq
    rw [List.length_append] at hsize
    show b.size s = b.readCount + bytes.length + unread.length
    omega
  room := h.room

theorem Reading.read {v : Value} (h : Reading s b (v.bytes ++ unread) tail) :
    b.read s v.type = some (v.reread (unread ++ tail), b.skip v.bytes.length) := by
  have hsize := h.size_eq
  have hroom := h.room
  have hlen := congrArg List.length h.data
  simp only [List.length_append, List.length_drop, Value.bytes_length] at hsize hlen
  have hfits : v.type.sizeof ≤ b.size s - b.readCount ∧
      b.readCount + sizeofSize ≤ b.buffer.length := by
    unfold sizeofSize at hroom ⊢
    omega
  rw [OutputMessageBuffer.read, if_pos hfits, h.data, List.append_assoc, Value.bytes_length]
  rfl

theorem Reading.readValues {args : List Value} :
    ∀ {b : OutputMessageBuffer}, Reading s b (args.flatMap Value.bytes ++ unread) tail →
      readValues s (args.map Value.type) b =
        some (rereadAll args (unread ++ tail), b.skip (args.flatMap Value.bytes).length) := by
  induction args with
  | nil => intro b h; rfl
  | cons v args ih =>
      intro b h
      rw [List.flatMap_cons, List.append_assoc] at h
      have hread := h.read
      have hrest := ih h.skip
      simp only [List.map_cons, Async.readValues, hread, hrest, rereadAll, Option.bind_eq_bind,
        Option.bind_some, List.append_assoc, List.flatMap_cons, List.length_append,
        OutputMessageBuffer.skip_skip]

theorem Reading.readChars (h : Reading s b unread tail) (hunread : unread ≠ []) :
    b.remaining s = some unread.length ∧
      b.readChars s unread.length =
        some (⟨unread ++ tail, unread.length⟩, b.skip unread.length) := by
  have hsize := h.size_eq
  have hpos := List.length_pos_of_ne_nil hunread
  have hleft : b.size s - b.readCount = unread.length := by omega
  constructor
  · rw [OutputMessageBuffer.remaining, if_pos (by omega), hleft]
  · rw [OutputMessageBuffer.readChars, if_pos hleft.ge, h.data]
    rfl

/-- With nothing left for the format the assertion of `remaining` fails. -/
theorem Reading.remaining_nil (h : Reading s b [] tail) : b.remaining s = none := by
  have hsize := h.size_eq
  rw [List.length_nil] at hsize
  rw [OutputMessageBuffer.remaining, if_neg (by omega)]

theorem behind_length (b : OutputMessageBuffer) (count : ℕ) :
    (b.behind s count).length = count * s.stride - count := by
  rw [OutputMessageBuffer.behind, List.length_drop, resize_length]

/-- A popped message is at the start of the vector. -/
theorem reading_pop (hstride : 1 < s.stride) (b : OutputMessageBuffer) {message : List UInt8}
    (hlen : sizeofSize ≤ message.length) :
    Reading s (b.reset.pop s message) message (b.behind s message.length) where
  data := rfl
  size_eq := by
    have hvector := overwrite_resize_length s b.buffer message
    show (overwrite (resize s b.buffer message.length) message).length / s.stride =
      0 + message.length
    rw [hvector, Nat.mul_div_cancel _ s.stride_pos, Nat.zero_add]
  room := by
    have hdouble : message.length * 2 ≤ message.length * s.stride := Nat.mul_le_mul_left _ hstride
    rw [behind_length]
    omega

theorem LogCall.sizeofSize_le (call : LogCall) : sizeofSize ≤ call.layout.length := by
  rw [call.layout_length]
  exact Nat.le_add_right_of_le (Nat.le_add_right _ _)

/-! ## One message -/

variable (s)

/-- The writer's buffer when a message has been read to its end. -/
def OutputMessageBuffer.done (b : OutputMessageBuffer) (message : List UInt8) :
    OutputMessageBuffer :=
  (b.reset.pop s message).skip message.length

variable {s}

theorem LogCall.address_reread (call : LogCall) (rest : List UInt8) :
    call.address.reread rest = call.address := reread_unsigned _ rest

/-- Address and arguments are read; what happens then depends on the format. -/
theorem handle_format (hstride : 1 < s.stride) (b : OutputMessageBuffer) (call : LogCall) :
    ∃ b', Reading s b' call.format (b.behind s call.layout.length) ∧
      b'.skip call.format.length = b.done s call.layout ∧
      handle s b call.layout call.types = (do
        let count ← b'.remaining s
        let (format, b') ← b'.readChars s count
        some (⟨call.address,
          rereadAll call.args (call.format ++ b.behind s call.layout.length), format⟩, b')) := by
  have hstart := reading_pop hstride b call.sizeofSize_le
  have haddress : (b.reset.pop s call.layout).read s (.unsigned .eight) = _ := hstart.read
  have hvalues := hstart.skip.readValues
  have hformat := hstart.skip.skip
  refine ⟨_, hformat, ?_, ?_⟩
  · rw [OutputMessageBuffer.skip_skip, OutputMessageBuffer.skip_skip, ← List.length_append,
      ← List.length_append]
    rfl
  · rw [call.address_reread] at haddress
    simp only [handle, formatMessage, haddress, hvalues, LogCall.types, Option.bind_eq_bind,
      Option.bind_some, Option.bind_assoc]

theorem handle_eq (hstride : 1 < s.stride) (b : OutputMessageBuffer) {call : LogCall}
    (hformat : call.format ≠ []) :
    handle s b call.layout call.types =
      some (⟨call.address, rereadAll call.args (call.format ++ b.behind s call.layout.length),
        ⟨call.format ++ b.behind s call.layout.length, call.format.length⟩⟩,
        b.done s call.layout) := by
  obtain ⟨b', hreading, hdone, hhandle⟩ := handle_format hstride b call
  obtain ⟨hremaining, hchars⟩ := hreading.readChars hformat
  simp only [hhandle, hremaining, hchars, hdone, Option.bind_eq_bind, Option.bind_some]

/-- Without a format an assertion fails. -/
theorem handle_nil (hstride : 1 < s.stride) (b : OutputMessageBuffer) {call : LogCall}
    (hformat : call.format = []) : handle s b call.layout call.types = none := by
  obtain ⟨b', hreading, -, hhandle⟩ := handle_format hstride b call
  rw [hformat] at hreading
  simp only [hhandle, hreading.remaining_nil, Option.bind_eq_bind, Option.bind_none]

end InterProcess.Async
