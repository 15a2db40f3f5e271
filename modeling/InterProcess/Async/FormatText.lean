import InterProcess.Async.MessageBuffer
import InterProcess.LockFree.MessageDelivery

/-!
# The text that `printf` gets

`log` leaves out the NUL that ends the format, and `printf` is called with the
bytes in the writer's vector: its text ends at the first NUL behind the format,
which is not at its end when there is something else. What lies there depends on
the messages the vector held before. `resize` keeps the bytes of the elements
that stay, each of them `sizeof(message_t)` wide, and the message overwrites no
more bytes than it has.

So a byte of an earlier message is still there when every message since has been
short enough not to overwrite it and long enough not to drop it (`Leftover`).
`printsFormats_iff` says that there is no other way for the text to go wrong.
-/

namespace InterProcess.Async

open Bytes LockFree LockFree.MessageRingBuffer

variable {s : RingShape}

/-- The C string at the start of the bytes. Without a NUL among them `printf`
reads on behind the vector's storage. -/
def cString (data : List UInt8) : Option (List UInt8) :=
  if 0 ∈ data then some (data.takeWhile fun byte => byte != 0) else none

/-- A writer handles the messages of the calls one after another. What it prints:
the format of each as `printf` sees it. -/
def handleAll (s : RingShape) : OutputMessageBuffer → List LogCall → Option (List (List UInt8))
  | _, [] => some []
  | b, call :: calls => do
      let message ← call.message
      let (formatted, b) ← handle s b message call.types
      let text ← cString formatted.format.data
      let texts ← handleAll s b calls
      some (text :: texts)

/-- After these messages the byte at offset `p` of the vector is one of a message,
not zero: no later message was long enough to overwrite it, or so short that
`resize` dropped it. -/
def Leftover (stride : ℕ) (messages : List (List UInt8)) (p : ℕ) : Prop :=
  ∃ older m newer, messages = older ++ m :: newer ∧ m[p]?.getD 0 ≠ 0 ∧
    ∀ m' ∈ newer, m'.length ≤ p ∧ p < m'.length * stride

/-! ## C strings -/

theorem cString_append {text rest : List UInt8} {byte : UInt8} (htext : 0 ∉ text) :
    cString (text ++ byte :: rest) = some text ↔ byte = 0 := by
  have hall : ∀ c ∈ text, (c != 0) = true := fun c hc =>
    bne_iff_ne.mpr fun hzero => htext (hzero ▸ hc)
  unfold cString
  rw [List.takeWhile_append_of_pos hall]
  by_cases hbyte : byte = 0
  · subst hbyte
    simp
  · simp [hbyte]

/-! ## What the vector keeps -/

theorem resize_getD (s : RingShape) (v : MessageVector) (count p : ℕ) :
    (resize s v count)[p]?.getD 0 = if p < count * s.stride then v[p]?.getD 0 else 0 := by
  unfold resize
  rw [List.getElem?_append, List.getElem?_take, List.getElem?_replicate, List.length_take]
  split
  · next hlt => rw [if_pos (by omega), if_pos (by omega)]
  · next hge =>
      have hzero : (if p - min (count * s.stride) v.length < count * s.stride - v.length
          then some (0 : UInt8) else none).getD 0 = 0 := by split <;> rfl
      rw [hzero]
      split
      · rw [List.getElem?_eq_none (by omega)]
        rfl
      · rfl

theorem overwrite_getD (v : MessageVector) (m : List UInt8) (p : ℕ) :
    (overwrite v m)[p]?.getD 0 = if p < m.length then m[p]?.getD 0 else v[p]?.getD 0 := by
  unfold overwrite
  rw [List.getElem?_append, List.getElem?_drop]
  split
  · rfl
  · next hge => rw [Nat.add_sub_cancel' (not_lt.mp hge)]

/-- A byte of the vector that is not zero is left over from one of the messages. -/
def Remembers (s : RingShape) (b : OutputMessageBuffer) (messages : List (List UInt8)) : Prop :=
  ∀ p, b.buffer[p]?.getD 0 ≠ 0 ↔ Leftover s.stride messages p

theorem not_leftover_nil (stride p : ℕ) : ¬Leftover stride [] p := by
  rintro ⟨older, m, newer, heq, -⟩
  cases older <;> cases heq

/-- Nothing is left over behind the longest message so far. -/
theorem not_leftover_of_length_le {stride p : ℕ} {messages : List (List UInt8)}
    (h : ∀ m ∈ messages, m.length ≤ p) : ¬Leftover stride messages p := by
  rintro ⟨older, m, newer, rfl, hbyte, -⟩
  have hle := h m (List.mem_append_right _ List.mem_cons_self)
  rw [List.getElem?_eq_none hle] at hbyte
  exact hbyte rfl

/-- What is left over after one more message. -/
theorem leftover_append {stride p : ℕ} {messages : List (List UInt8)} {m : List UInt8} :
    Leftover stride (messages ++ [m]) p ↔ m[p]?.getD 0 ≠ 0 ∨
      (m.length ≤ p ∧ p < m.length * stride) ∧ Leftover stride messages p := by
  constructor
  · rintro ⟨older, m', newer, heq, hbyte, hnewer⟩
    rcases List.eq_nil_or_concat newer with rfl | ⟨newer, m'', rfl⟩
    · obtain ⟨-, hm⟩ := List.append_inj' heq rfl
      cases hm
      exact .inl hbyte
    · rw [List.concat_eq_append] at heq hnewer
      rw [← List.cons_append, ← List.append_assoc] at heq
      obtain ⟨rfl, hm⟩ := List.append_inj' heq rfl
      cases hm
      exact .inr ⟨hnewer m (List.mem_append_right _ List.mem_cons_self), older, m', newer, rfl,
        hbyte, fun x hx => hnewer x (List.mem_append_left _ hx)⟩
  · rintro (hbyte | ⟨hm, older, m', newer, rfl, hbyte, hnewer⟩)
    · exact ⟨messages, m, [], rfl, hbyte, fun _ hx => absurd hx List.not_mem_nil⟩
    · refine ⟨older, m', newer ++ [m], by simp, hbyte, fun x hx => ?_⟩
      rcases List.mem_append.mp hx with hx | hx
      · exact hnewer x hx
      · exact List.mem_singleton.mp hx ▸ hm

theorem remembers_fresh (s : RingShape) : Remembers s .fresh [] := fun p =>
  iff_of_false (not_not.mpr rfl) (not_leftover_nil s.stride p)

/-- The vector after one more message. -/
theorem Remembers.done {b : OutputMessageBuffer} {messages : List (List UInt8)}
    (h : Remembers s b messages) (m : List UInt8) :
    Remembers s (b.done s m) (messages ++ [m]) := by
  intro p
  have hbyte : (b.done s m).buffer[p]?.getD 0 = if p < m.length then m[p]?.getD 0
      else if p < m.length * s.stride then b.buffer[p]?.getD 0 else 0 := by
    rw [← resize_getD, ← overwrite_getD]
    rfl
  rw [hbyte, leftover_append, ← h p]
  by_cases hlt : p < m.length
  · rw [if_pos hlt]
    have hle : ¬m.length ≤ p := not_le.mpr hlt
    simp [hle]
  · have hnone : m[p]?.getD 0 = 0 := by
      rw [List.getElem?_eq_none (not_lt.mp hlt)]
      rfl
    rw [if_neg hlt, hnone]
    by_cases hkept : p < m.length * s.stride
    · simp [not_lt.mp hlt, hkept]
    · simp [hkept]

/-! ## Runs of the writer -/

/-- A message is printed as it should be iff the byte behind it is zero. -/
theorem cString_format (hstride : 1 < s.stride) {b : OutputMessageBuffer}
    {messages : List (List UInt8)} (h : Remembers s b messages) {call : LogCall}
    (hnul : 0 ∉ call.format) :
    cString (call.format ++ b.behind s call.layout.length) = some call.format ↔
      ¬Leftover s.stride messages call.messageSize := by
  have hsize := call.sizeofSize_le
  have hlt : call.layout.length < call.layout.length * s.stride := by
    have hdouble : call.layout.length * 2 ≤ call.layout.length * s.stride :=
      Nat.mul_le_mul_left _ hstride
    unfold sizeofSize at hsize
    omega
  obtain ⟨byte, rest, hbehind⟩ : ∃ byte rest, b.behind s call.layout.length = byte :: rest := by
    refine List.exists_cons_of_length_pos ?_
    rw [behind_length]
    omega
  have hbyte : byte = b.buffer[call.layout.length]?.getD 0 := by
    have hhead := congrArg (fun l => l[0]?.getD 0) hbehind
    simp only [OutputMessageBuffer.behind, List.getElem?_drop, Nat.add_zero, resize_getD,
      if_pos hlt, List.getElem?_cons_zero, Option.getD_some] at hhead
    exact hhead.symm
  rw [hbehind, cString_append hnul, hbyte, ← h, ← call.layout_length, not_not]

theorem handleAll_cons (hstride : 1 < s.stride) (b : OutputMessageBuffer) {call : LogCall}
    (calls : List LogCall) (hformat : call.format ≠ []) :
    handleAll s b (call :: calls) = (do
      let text ← cString (call.format ++ b.behind s call.layout.length)
      let texts ← handleAll s (b.done s call.layout) calls
      some (text :: texts)) := by
  simp only [handleAll, call.message_eq, handle_eq hstride b hformat, Option.bind_eq_bind,
    Option.bind_some]

/-- One step: the first text is right, and so are the others. -/
theorem handleAll_cons_iff (hstride : 1 < s.stride) {b : OutputMessageBuffer}
    {messages : List (List UInt8)} (h : Remembers s b messages) {call : LogCall}
    (calls : List LogCall) (hnul : 0 ∉ call.format) :
    handleAll s b (call :: calls) = some ((call :: calls).map LogCall.format) ↔
      (call.format ≠ [] ∧ ¬Leftover s.stride messages call.messageSize) ∧
        handleAll s (b.done s call.layout) calls = some (calls.map LogCall.format) := by
  by_cases hformat : call.format = []
  · simp [handleAll, call.message_eq, handle_nil hstride b hformat, hformat]
  · rw [handleAll_cons hstride b calls hformat, ← cString_format hstride h hnul]
    simp [Option.bind_eq_some_iff, hformat]

/-- Also for a writer that has handled messages before. -/
theorem Remembers.printsFormats {calls : List LogCall} (hstride : 1 < s.stride) :
    ∀ {b : OutputMessageBuffer} {messages : List (List UInt8)}, Remembers s b messages →
      (∀ call ∈ calls, 0 ∉ call.format) →
      (handleAll s b calls = some (calls.map LogCall.format) ↔
        ∀ before call after, calls = before ++ call :: after → call.format ≠ [] ∧
          ¬Leftover s.stride (messages ++ before.map LogCall.layout) call.messageSize) := by
  induction calls with
  | nil => intro b messages h hnul; simp [handleAll]
  | cons call calls ih =>
      intro b messages h hnul
      rw [handleAll_cons_iff hstride h calls (hnul call List.mem_cons_self), forall_split_cons,
        ih (h.done call.layout) fun call' hcall' => hnul call' (List.mem_cons_of_mem _ hcall')]
      simp only [List.map_nil, List.append_nil, List.map_cons, List.append_assoc,
        List.cons_append, List.nil_append]

/-- The writer prints the formats of the calls iff each has one, and the byte
behind its message is none that is left over from the messages before. -/
theorem printsFormats_iff (hstride : 1 < s.stride) (calls : List LogCall)
    (hnul : ∀ call ∈ calls, 0 ∉ call.format) :
    handleAll s .fresh calls = some (calls.map LogCall.format) ↔
      ∀ before call after, calls = before ++ call :: after →
        call.format ≠ [] ∧
          ¬Leftover s.stride (before.map LogCall.layout) call.messageSize :=
  (remembers_fresh s).printsFormats hstride hnul

/-- `log("%zu", 7)`. -/
def logSeven : LogCall where
  formatMessage := BitVec.ofNat _ 0x4010
  args := [.unsigned .eight (BitVec.ofNat _ 7)]
  format := [37, 122, 117]

/-- Three calls like those of `main`, of one length. -/
theorem printsFormats_logSeven : handleAll ring32 .fresh (List.replicate 3 logSeven) =
    some ((List.replicate 3 logSeven).map LogCall.format) := by
  refine (printsFormats_iff (by decide) (List.replicate 3 logSeven) (by decide)).mpr ?_
  intro before call after heq
  have hall : ∀ c ∈ before ++ call :: after, c = logSeven := fun c hc =>
    List.eq_of_mem_replicate (heq ▸ hc)
  obtain rfl := hall call (List.mem_append_right _ List.mem_cons_self)
  refine ⟨by decide, not_leftover_of_length_le fun m hm => ?_⟩
  obtain ⟨c, hc, rfl⟩ := List.mem_map.mp hm
  rw [hall c (List.mem_append_left _ hc), LogCall.layout_length]

/-- `log("aaaa")`, then `log("b")`. -/
def logShorter : List LogCall :=
  [⟨BitVec.ofNat _ 0x4010, [], [97, 97, 97, 97]⟩, ⟨BitVec.ofNat _ 0x4010, [], [98]⟩]

/-- Not for every sequence of calls: the second is printed as `baaa`. -/
theorem not_printsFormats : ¬∀ (s : RingShape) (calls : List LogCall), 1 < s.stride →
    (∀ call ∈ calls, 0 ∉ call.format) →
      handleAll s .fresh calls = some (calls.map LogCall.format) := by
  intro hall
  have hprinted := hall ring32 logShorter (by decide) (by decide)
  exact absurd hprinted (by decide +kernel)

end InterProcess.Async
