/-
Streams of length-prefixed frames.

A frame is a fixed number of big-endian length bytes followed by a non-empty
payload.  A reader appends each chunk of the stream to a buffer and drains the
complete frames from its front.  Whatever the chunks are, the buffer then holds
a proper prefix of the next frame and the drained payloads are those sent.

The drain loop is a parameter: a reader of this file supplies its own loop and
shows what it does on a buffer of complete frames followed by a partial one.
-/
import Mathlib

set_option autoImplicit false

abbrev Bytes : Type := List UInt8

namespace LengthPrefix

/-! ### Big-endian lengths -/

def encodeLength : Nat → Nat → Bytes
  | 0, _ => []
  | width + 1, value => encodeLength width (value / 256) ++ [UInt8.ofNat (value % 256)]

def decodeLength (bytes : Bytes) : Nat :=
  bytes.foldl (fun total byte => total * 256 + byte.toNat) 0

@[simp] theorem encodeLength_length (width value : Nat) :
    (encodeLength width value).length = width := by
  induction width generalizing value with
  | zero => rfl
  | succ width ih => rw [encodeLength, List.length_append, ih]; rfl

private theorem decodeLength_encodeLength (width value : Nat) (fits : value < 256 ^ width) :
    decodeLength (encodeLength width value) = value := by
  induction width generalizing value with
  | zero =>
      rw [Nat.pow_zero] at fits
      have zero : value = 0 := by omega
      rw [zero]
      rfl
  | succ width ih =>
      have quotient : value / 256 < 256 ^ width := by
        apply Nat.div_lt_of_lt_mul
        rwa [Nat.pow_succ, Nat.mul_comm] at fits
      have prior := ih (value / 256) quotient
      unfold decodeLength at prior ⊢
      rw [encodeLength, List.foldl_append, prior]
      simp only [List.foldl_cons, List.foldl_nil, UInt8.toNat_ofNat']
      omega

theorem decodeLength_concat (front : Bytes) (byte : UInt8) :
    decodeLength (front ++ [byte]) = decodeLength front * 256 + byte.toNat := by
  unfold decodeLength
  rw [List.foldl_append, List.foldl_cons, List.foldl_nil]

theorem decodeLength_lt (bytes : Bytes) : decodeLength bytes < 256 ^ bytes.length := by
  induction bytes using List.reverseRecOn with
  | nil => exact Nat.one_pos
  | append_singleton front byte ih =>
      have code := byte.toNat_lt
      rw [decodeLength_concat, List.length_append, List.length_singleton, Nat.pow_succ]
      omega

theorem encodeLength_decodeLength (bytes : Bytes) :
    encodeLength bytes.length (decodeLength bytes) = bytes := by
  induction bytes using List.reverseRecOn with
  | nil => rfl
  | append_singleton front byte ih =>
      have small := byte.toNat_lt
      have quotient : (decodeLength front * 256 + byte.toNat) / 256 = decodeLength front := by omega
      have digit : (decodeLength front * 256 + byte.toNat) % 256 = byte.toNat := by omega
      rw [List.length_append, List.length_singleton, encodeLength, decodeLength_concat, quotient, digit, ih,
        UInt8.ofNat_toNat]

/-! ### Frames -/

variable {width : Nat}

def frame (width : Nat) (payload : Bytes) : Bytes :=
  encodeLength width payload.length ++ payload

def frames (width : Nat) (payloads : List Bytes) : Bytes :=
  payloads.flatMap (frame width)

/-- Payloads that a frame can carry: not empty, and with a length that fits. -/
structure Carried (width : Nat) (payload : Bytes) : Prop where
  nonempty : payload ≠ []
  fits : payload.length < 256 ^ width

/-- No complete frame in the buffer: length bytes or payload bytes are missing. -/
def Partial (width : Nat) (buffer : Bytes) : Prop :=
  buffer.length < width ∨ buffer.length - width < decodeLength (buffer.take width)

def NoFrame (width : Nat) (buffer : Bytes) : Prop :=
  ∀ payload rest, Carried width payload → buffer ≠ frame width payload ++ rest

@[simp] theorem frame_length (payload : Bytes) :
    (frame width payload).length = width + payload.length := by
  rw [frame, List.length_append, encodeLength_length]

theorem frame_append_length (payload rest : Bytes) :
    (frame width payload ++ rest).length = width + (payload.length + rest.length) := by
  rw [List.length_append, frame_length, Nat.add_assoc]

@[simp] theorem frames_nil : frames width [] = [] := rfl

@[simp] theorem frames_cons (payload : Bytes) (rest : List Bytes) :
    frames width (payload :: rest) = frame width payload ++ frames width rest := rfl

@[simp] theorem frames_append (first second : List Bytes) :
    frames width (first ++ second) = frames width first ++ frames width second :=
  List.flatMap_append

theorem Carried.length_pos {payload : Bytes} (carried : Carried width payload) :
    0 < payload.length :=
  List.length_pos_of_ne_nil carried.nonempty

theorem decodeLength_take_of_fits {payload : Bytes} (fits : payload.length < 256 ^ width)
    (rest : Bytes) :
    decodeLength ((frame width payload ++ rest).take width) = payload.length := by
  have header : (frame width payload ++ rest).take width =
      encodeLength width payload.length := by
    rw [frame, List.append_assoc, List.take_append_of_le_length (by simp)]
    exact List.take_of_length_le (by simp)
  rw [header]
  exact decodeLength_encodeLength width payload.length fits

theorem decodeLength_take_frame {payload : Bytes} (carried : Carried width payload)
    (rest : Bytes) :
    decodeLength ((frame width payload ++ rest).take width) = payload.length :=
  decodeLength_take_of_fits carried.fits rest

theorem payload_of_frame (payload rest : Bytes) :
    ((frame width payload ++ rest).drop width).take payload.length = payload := by
  rw [frame, List.append_assoc, List.drop_append_of_le_length (by simp),
    List.drop_of_length_le (by simp), List.nil_append,
    List.take_append_of_le_length (Nat.le_refl _), List.take_length]

theorem drop_frame (payload rest : Bytes) :
    (frame width payload ++ rest).drop (payload.length + width) = rest := by
  rw [List.drop_append_of_le_length (by rw [frame_length]; omega),
    List.drop_of_length_le (by rw [frame_length]; omega), List.nil_append]

theorem Partial.payload_missing {buffer : Bytes} (incomplete : Partial width buffer)
    (header : width ≤ buffer.length) :
    buffer.length - width < decodeLength (buffer.take width) := by
  rcases incomplete with short | missing
  · omega
  · exact missing

/-- A proper prefix of a stream's first frame is a partial frame. -/
theorem partial_of_short {next : Bytes} (carried : Carried width next) {buffer future rest : Bytes}
    (stream : buffer ++ future = frame width next ++ rest)
    (shorter : buffer.length < (frame width next).length) : Partial width buffer := by
  by_cases header : buffer.length < width
  · exact Or.inl header
  · have lengthBytes : buffer.take width = (frame width next ++ rest).take width := by
      rw [← stream, List.take_append_of_le_length (Nat.not_lt.mp header)]
    right
    rw [lengthBytes, decodeLength_take_frame carried]
    rw [frame_length] at shorter
    omega

/-! ### Cutting a stream behind its complete frames -/

/-- The first bytes of a stream: a number of complete frames and a proper
prefix of the next one. -/
structure Cut (width : Nat) (payloads : List Bytes) (received : Bytes)
    (complete pending : List Bytes) (tail : Bytes) : Prop where
  split : payloads = complete ++ pending
  front : received = frames width complete ++ tail
  short : ∀ next later, pending = next :: later → tail.length < (frame width next).length

theorem Cut.nil (payloads : List Bytes) (carried : ∀ payload ∈ payloads, Carried width payload) :
    Cut width payloads [] [] payloads [] where
  split := rfl
  front := rfl
  short := by
    intro next later same
    have positive := (carried next (by rw [same]; exact List.mem_cons_self)).length_pos
    rw [frame_length, List.length_nil]
    omega

theorem Cut.append {payloads complete pending fresh later : List Bytes}
    {received tail more rest : Bytes} (cut : Cut width payloads received complete pending tail)
    (next : Cut width pending (tail ++ more) fresh later rest) :
    Cut width payloads (received ++ more) (complete ++ fresh) later rest where
  split := by rw [cut.split, next.split, List.append_assoc]
  front := by
    rw [cut.front, List.append_assoc, next.front, frames_append, List.append_assoc]
  short := next.short

theorem Cut.unique {payloads complete pending complete' pending' : List Bytes}
    {received tail tail' : Bytes} (cut : Cut width payloads received complete pending tail)
    (other : Cut width payloads received complete' pending' tail') :
    complete = complete' ∧ pending = pending' ∧ tail = tail' := by
  induction complete generalizing payloads received complete' with
  | nil =>
      cases complete' with
      | nil =>
          refine ⟨rfl, ?_, ?_⟩
          · exact cut.split.symm.trans other.split
          · exact cut.front.symm.trans other.front
      | cons payload rest =>
          have bound := cut.short payload (rest ++ pending') (cut.split.symm.trans other.split)
          have lengths := congrArg List.length (cut.front.symm.trans other.front)
          rw [frames_cons, frames_nil, List.nil_append, List.length_append,
            List.length_append] at lengths
          omega
  | cons head rest ih =>
      cases complete' with
      | nil =>
          have bound := other.short head (rest ++ pending) (other.split.symm.trans cut.split)
          have lengths := congrArg List.length (cut.front.symm.trans other.front)
          rw [frames_cons, frames_nil, List.nil_append, List.length_append,
            List.length_append] at lengths
          omega
      | cons head' rest' =>
          obtain ⟨rfl, splits⟩ := List.cons.inj (cut.split.symm.trans other.split)
          have fronts := cut.front.symm.trans other.front
          rw [frames_cons, frames_cons, List.append_assoc, List.append_assoc] at fronts
          have inner : Cut width (rest ++ pending) (frames width rest ++ tail) rest pending tail :=
            { split := rfl, front := rfl, short := cut.short }
          have inner' :
              Cut width (rest ++ pending) (frames width rest ++ tail) rest' pending' tail' :=
            { split := splits
              front := List.append_cancel_left fronts
              short := other.short }
          obtain ⟨rests, pendings, tails⟩ := ih inner inner'
          exact ⟨by rw [rests], pendings, tails⟩

/-- Every prefix of a stream of frames can be cut, and the stream goes on with
the frames that are pending. -/
theorem cut_front (payloads : List Bytes) {received future : Bytes}
    (stream : received ++ future = frames width payloads) :
    ∃ complete pending tail, Cut width payloads received complete pending tail ∧
      tail ++ future = frames width pending := by
  induction payloads generalizing received with
  | nil =>
      have both := List.append_eq_nil_iff.mp stream
      refine ⟨[], [], received, ⟨rfl, rfl, ?_⟩, stream⟩
      intro next later impossible
      cases impossible
  | cons head later ih =>
      rw [frames_cons] at stream
      by_cases short : received.length < (frame width head).length
      · refine ⟨[], head :: later, received, ⟨rfl, rfl, ?_⟩, stream⟩
        intro next following same
        obtain ⟨rfl, _⟩ := List.cons.inj same
        exact short
      · have whole : frame width head <+: received :=
          List.prefix_of_prefix_length_le (List.prefix_append _ (frames width later))
            ⟨future, stream⟩ (Nat.not_lt.mp short)
        obtain ⟨remaining, rfl⟩ := whole
        rw [List.append_assoc] at stream
        obtain ⟨complete, pending, tail, cut, back⟩ := ih (List.append_cancel_left stream)
        refine ⟨head :: complete, pending, tail, ⟨?_, ?_, cut.short⟩, back⟩
        · rw [cut.split]
          rfl
        · rw [cut.front, frames_cons, List.append_assoc]

/-- The payloads whose frames end within the first `count` bytes of their stream. -/
def delivered (width : Nat) : List Bytes → Nat → List Bytes
  | [], _ => []
  | payload :: later, count =>
      if (frame width payload).length ≤ count then
        payload :: delivered width later (count - (frame width payload).length)
      else []

theorem delivered_zero (positive : 0 < width) (payloads : List Bytes) :
    delivered width payloads 0 = [] := by
  cases payloads with
  | nil => rfl
  | cons payload later =>
      rw [delivered, if_neg]
      rw [frame_length]
      omega

theorem delivered_whole (payloads : List Bytes) :
    delivered width payloads (frames width payloads).length = payloads := by
  induction payloads with
  | nil => rfl
  | cons payload later ih =>
      rw [frames_cons, List.length_append, delivered, if_pos (by omega), Nat.add_sub_cancel_left, ih]

theorem Cut.delivered_eq {payloads complete pending : List Bytes} {received tail : Bytes}
    (cut : Cut width payloads received complete pending tail) :
    delivered width payloads received.length = complete := by
  induction complete generalizing payloads received with
  | nil =>
      cases same : pending with
      | nil =>
          rw [cut.split, same]
          rfl
      | cons next later =>
          have shorter := cut.short next later same
          rw [cut.split, cut.front, same, frames_nil, List.nil_append, List.nil_append, delivered,
            if_neg (Nat.not_le.mpr shorter)]
  | cons payload rest ih =>
      have inner : Cut width (rest ++ pending) (frames width rest ++ tail) rest pending tail :=
        { split := rfl, front := rfl, short := cut.short }
      have size : received.length =
          (frame width payload).length + (frames width rest ++ tail).length := by
        rw [cut.front, frames_cons, List.append_assoc, List.length_append]
      rw [cut.split, List.cons_append, delivered, if_pos (by omega), size, Nat.add_sub_cancel_left,
        ih inner]

theorem cut_delivered {payloads : List Bytes} {received future : Bytes}
    (stream : received ++ future = frames width payloads) :
    ∃ pending tail,
      Cut width payloads received (delivered width payloads received.length) pending tail ∧
        tail ++ future = frames width pending := by
  obtain ⟨complete, pending, tail, cut, back⟩ := cut_front payloads stream
  refine ⟨pending, tail, ?_, back⟩
  rw [cut.delivered_eq]
  exact cut

theorem Cut.carried {payloads complete pending : List Bytes} {received tail : Bytes}
    (cut : Cut width payloads received complete pending tail)
    (carried : ∀ payload ∈ payloads, Carried width payload) :
    (∀ payload ∈ complete, Carried width payload) ∧
      ∀ payload ∈ pending, Carried width payload := by
  constructor
  · intro payload member
    exact carried payload (by rw [cut.split]; exact List.mem_append_left _ member)
  · intro payload member
    exact carried payload (by rw [cut.split]; exact List.mem_append_right _ member)

theorem Cut.incomplete {payloads complete pending : List Bytes} {received tail future : Bytes}
    (cut : Cut width payloads received complete pending tail) (positive : 0 < width)
    (carried : ∀ payload ∈ payloads, Carried width payload)
    (stream : tail ++ future = frames width pending) : Partial width tail := by
  have carriedPending := (cut.carried carried).2
  cases back : pending with
  | nil =>
      rw [back] at stream
      have both := List.append_eq_nil_iff.mp stream
      left
      rw [both.1]
      exact positive
  | cons next later =>
      rw [back] at stream
      exact partial_of_short (carriedPending next (by rw [back]; exact List.mem_cons_self))
        stream (cut.short next later back)

/-- What is buffered behind the complete frames begins the next one. -/
theorem Cut.begins_next {payloads complete pending : List Bytes} {received tail future : Bytes}
    (cut : Cut width payloads received complete pending tail)
    (stream : tail ++ future = frames width pending) {next : Bytes} {later : List Bytes}
    (back : pending = next :: later) : tail <+: frame width next ∧ tail ≠ frame width next := by
  have shorter := cut.short next later back
  rw [back, frames_cons] at stream
  constructor
  · exact List.prefix_of_prefix_length_le ⟨future, stream⟩ (List.prefix_append _ _)
      (Nat.le_of_lt shorter)
  · intro same
    rw [same] at shorter
    exact Nat.lt_irrefl _ shorter

/-! ### Reading in chunks -/

section chunks

variable {State Fault : Type}

def readChunk (drain : Bytes → State → Except Fault (Bytes × State))
    (reader : Bytes × State) (chunk : Bytes) : Except Fault (Bytes × State) :=
  drain (reader.1 ++ chunk) reader.2

/-- What a drain loop owes: from a buffer of complete frames and a partial one
it hands over the complete frames in order, one handler call each, and leaves
the partial one. -/
def Drains (width : Nat) (admissible : List Bytes → Bytes → Prop)
    (handle : State → Bytes → Except Fault State)
    (drain : Bytes → State → Except Fault (Bytes × State)) : Prop :=
  ∀ complete tail state, (∀ payload ∈ complete, Carried width payload) → Partial width tail →
    admissible complete tail →
    drain (frames width complete ++ tail) state =
      (complete.foldlM handle state).map (fun final => (tail, final))

def EachBuffered (width : Nat) (payloads : List Bytes)
    (admissible : List Bytes → Bytes → Prop) (chunks : List Bytes) : Prop :=
  ∀ before chunk after, chunks = before ++ chunk :: after →
    ∀ complete pending tail fresh later rest,
      Cut width payloads before.flatten complete pending tail →
      Cut width pending (tail ++ chunk) fresh later rest → admissible fresh rest

/-- After any number of callbacks the reader has handed over the complete
frames received so far, in order, and buffers the bytes behind them. -/
def InStep (width : Nat) (handle : State → Bytes → Except Fault State)
    (drain : Bytes → State → Except Fault (Bytes × State)) (state : State)
    (payloads chunks : List Bytes) : Prop :=
  ∀ front back, chunks = front ++ back → ∀ complete pending tail,
    Cut width payloads front.flatten complete pending tail →
    front.foldlM (readChunk drain) ([], state) =
      (complete.foldlM handle state).map (fun final => (tail, final))

variable {handle : State → Bytes → Except Fault State}
variable {drain : Bytes → State → Except Fault (Bytes × State)}
variable {admissible : List Bytes → Bytes → Prop}
variable {payloads chunks : List Bytes} {future : Bytes}

theorem EachBuffered.mono {wider : List Bytes → Bytes → Prop}
    (each : EachBuffered width payloads admissible chunks)
    (implies : ∀ complete tail, admissible complete tail → wider complete tail) :
    EachBuffered width payloads wider chunks := by
  intro before chunk after same complete pending tail fresh later rest cut next
  apply implies
  exact each before chunk after same complete pending tail fresh later rest cut next

theorem foldlM_readChunk_append (front : List Bytes) (chunk : Bytes) (reader : Bytes × State) :
    (front ++ [chunk]).foldlM (readChunk drain) reader =
      front.foldlM (readChunk drain) reader >>= fun middle => readChunk drain middle chunk := by
  rw [List.foldlM_append]
  congr 1
  funext middle
  rw [List.foldlM_cons]
  exact bind_pure _

/-- A loop that drains every buffer of a run is in step throughout it. -/
theorem Drains.inStep (drains : Drains width admissible handle drain) (positive : 0 < width)
    (carried : ∀ payload ∈ payloads, Carried width payload)
    (stream : chunks.flatten ++ future = frames width payloads)
    (each : EachBuffered width payloads admissible chunks) (state : State) :
    InStep width handle drain state payloads chunks := by
  intro front
  induction front using List.reverseRecOn with
  | nil =>
      intro back same complete pending tail cut
      obtain ⟨rfl, _, rfl⟩ := (Cut.nil payloads carried).unique cut
      rfl
  | append_singleton front chunk ih =>
      intro back same complete pending tail cut
      rw [List.append_assoc] at same
      have streamed : front.flatten ++ (chunk ++ (back.flatten ++ future)) =
          frames width payloads := by
        rw [← stream, same]
        simp only [List.flatten_append, List.singleton_append, List.flatten_cons,
          List.append_assoc]
      obtain ⟨earlier, remaining, buffered, cutEarlier, streamEarlier⟩ :=
        cut_front payloads streamed
      rw [← List.append_assoc] at streamEarlier
      obtain ⟨fresh, later, rest, next, streamLater⟩ := cut_front remaining streamEarlier
      have joined := cutEarlier.append next
      rw [List.flatten_append, List.flatten_singleton] at cut
      obtain ⟨rfl, rfl, rfl⟩ := joined.unique cut
      have carriedRemaining := (cutEarlier.carried carried).2
      have carriedFresh := (next.carried carriedRemaining).1
      have incomplete := next.incomplete positive carriedRemaining streamLater
      have admitted := each front chunk back same earlier remaining buffered fresh later rest
        cutEarlier next
      rw [foldlM_readChunk_append, ih (chunk :: back) same earlier remaining buffered cutEarlier,
        List.foldlM_append]
      cases earlier.foldlM handle state with
      | error fault => rfl
      | ok middle =>
          change drain (buffered ++ chunk) middle = _
          rw [next.front]
          exact drains fresh rest middle carriedFresh incomplete admitted

/-- Where it drains no other buffers, and the handler never faults, it is in
step throughout no other run. -/
theorem Drains.inStep_iff (drains : Drains width admissible handle drain) (positive : 0 < width)
    (exact : ∀ complete tail state final, (∀ payload ∈ complete, Carried width payload) →
      drain (frames width complete ++ tail) state = .ok (tail, final) → admissible complete tail)
    (carried : ∀ payload ∈ payloads, Carried width payload)
    (stream : chunks.flatten ++ future = frames width payloads) {state final : State}
    (handled : payloads.foldlM handle state = .ok final) :
    InStep width handle drain state payloads chunks ↔
      EachBuffered width payloads admissible chunks := by
  constructor
  · intro inStep before chunk after same complete pending tail fresh later rest cut next
    have joined := cut.append next
    have received : (before ++ [chunk]).flatten = before.flatten ++ chunk := by
      rw [List.flatten_append, List.flatten_singleton]
    rw [← received] at joined
    have split : chunks = (before ++ [chunk]) ++ after := by
      rw [same, List.append_assoc, List.singleton_append]
    have earlier := inStep before (chunk :: after) same complete pending tail cut
    have together := inStep (before ++ [chunk]) after split _ _ _ joined
    rw [joined.split, List.foldlM_append] at handled
    rw [foldlM_readChunk_append, earlier, List.foldlM_append] at together
    cases front : complete.foldlM handle state with
    | error fault =>
        rw [List.foldlM_append, front] at handled
        cases handled
    | ok middle =>
        rw [List.foldlM_append, front] at handled
        rw [front] at together
        change (fresh.foldlM handle middle >>= fun reached => later.foldlM handle reached) = _
          at handled
        change drain (tail ++ chunk) middle = (fresh.foldlM handle middle).map _ at together
        cases back : fresh.foldlM handle middle with
        | error fault =>
            rw [back] at handled
            cases handled
        | ok reached =>
            rw [back, next.front] at together
            exact exact fresh rest middle reached (next.carried (cut.carried carried).2).1 together
  · intro each
    exact drains.inStep positive carried stream each state

end chunks

/-! ### Loops that take one frame at a time -/

section steps

variable {State Fault : Type} {handle : State → Bytes → Except Fault State}
variable {drain : Bytes → State → Except Fault (Bytes × State)}
variable {fits : Bytes → Bytes → Prop}

def EachFits (width : Nat) (fits : Bytes → Bytes → Prop) : List Bytes → Bytes → Prop
  | [], _ => True
  | payload :: later, tail =>
      fits payload (frames width later ++ tail) ∧ EachFits width fits later tail

/-- A loop that keeps partial frames and takes every frame that fits. -/
theorem drains_of_steps
    (keeps : ∀ buffer state, Partial width buffer → drain buffer state = .ok (buffer, state))
    (takes : ∀ payload rest state, Carried width payload → fits payload rest →
      drain (frame width payload ++ rest) state = handle state payload >>= drain rest) :
    Drains width (EachFits width fits) handle drain := by
  intro complete tail state carried incomplete each
  induction complete generalizing state with
  | nil => exact keeps tail state incomplete
  | cons payload later ih =>
      rw [frames_cons, List.append_assoc,
        takes payload _ state (carried payload List.mem_cons_self) each.1, List.foldlM_cons]
      cases handle state payload with
      | error fault => rfl
      | ok next =>
          exact ih next (fun other member => carried other (List.mem_cons_of_mem payload member))
            each.2

/-- If it also stops in front of the frames that do not fit, it drains no other buffers. -/
theorem exact_of_steps
    (takes : ∀ payload rest state, Carried width payload → fits payload rest →
      drain (frame width payload ++ rest) state = handle state payload >>= drain rest)
    (stops : ∀ payload rest state, Carried width payload → ¬ fits payload rest →
      drain (frame width payload ++ rest) state = .ok (frame width payload ++ rest, state))
    (complete : List Bytes) (tail : Bytes) (state final : State)
    (carried : ∀ payload ∈ complete, Carried width payload)
    (drained : drain (frames width complete ++ tail) state = .ok (tail, final)) :
    EachFits width fits complete tail := by
  induction complete generalizing state with
  | nil => trivial
  | cons payload later ih =>
      have carriedPayload := carried payload List.mem_cons_self
      rw [frames_cons, List.append_assoc] at drained
      by_cases fitting : fits payload (frames width later ++ tail)
      · refine ⟨fitting, ?_⟩
        rw [takes payload _ state carriedPayload fitting] at drained
        cases handled : handle state payload with
        | error fault =>
            rw [handled] at drained
            cases drained
        | ok next =>
            rw [handled] at drained
            exact ih next (fun other member => carried other (List.mem_cons_of_mem payload member))
              drained
      · -- The loop keeps a complete frame, so what it leaves is too long.
        rw [stops payload _ state carriedPayload fitting] at drained
        have lengths := congrArg List.length (Prod.mk.inj (Except.ok.inj drained)).1
        have positive := carriedPayload.length_pos
        rw [List.length_append, List.length_append, frame_length] at lengths
        omega

end steps

/-! ### Reading a stream back -/

theorem drop_width_frame (payload : Bytes) : (frame width payload).drop width = payload :=
  List.drop_left' (encodeLength_length width payload.length)

theorem prefix_of_frames {handed payloads : List Bytes} {rest : Bytes} (positive : 0 < width)
    (small : ∀ payload ∈ handed, payload.length < 256 ^ width)
    (carried : ∀ payload ∈ payloads, payload.length < 256 ^ width)
    (stream : frames width handed ++ rest = frames width payloads) : handed <+: payloads := by
  induction handed generalizing payloads with
  | nil => exact List.nil_prefix
  | cons first later ih =>
      cases payloads with
      | nil =>
          have lengths := congrArg List.length stream
          rw [frames_cons, List.length_append, List.length_append, frame_length,
            frames_nil, List.length_nil] at lengths
          omega
      | cons payload others =>
          rw [frames_cons, frames_cons, List.append_assoc] at stream
          have header : decodeLength ((frame width first ++ (frames width later ++ rest)).take width) =
              decodeLength ((frame width payload ++ frames width others).take width) := by
            rw [stream]
          rw [decodeLength_take_of_fits (small first List.mem_cons_self),
            decodeLength_take_of_fits (carried payload List.mem_cons_self)] at header
          obtain ⟨same, behind⟩ := List.append_inj stream (by rw [frame_length, frame_length, header])
          have payloadsSame := congrArg (List.drop width) same
          rw [drop_width_frame, drop_width_frame] at payloadsSame
          rw [payloadsSame, List.prefix_cons_inj]
          exact ih (fun other member => small other (List.mem_cons_of_mem first member))
            (fun other member => carried other (List.mem_cons_of_mem payload member)) behind

/-- Where no complete frame is left behind them, they are all payloads of the stream. -/
theorem whole_of_noFrame {handed payloads : List Bytes} {rest : Bytes} (positive : 0 < width)
    (small : ∀ payload ∈ handed, payload.length < 256 ^ width)
    (carried : ∀ payload ∈ payloads, Carried width payload)
    (stream : frames width handed ++ rest = frames width payloads)
    (none_left : NoFrame width rest) : handed = payloads ∧ rest = [] := by
  obtain ⟨later, rfl⟩ :=
    prefix_of_frames positive small (fun payload member => (carried payload member).fits) stream
  rw [frames_append] at stream
  have left := List.append_cancel_left stream
  cases later with
  | nil => exact ⟨(List.append_nil _).symm, left⟩
  | cons payload others =>
      have listed : payload ∈ handed ++ payload :: others :=
        List.mem_append_right handed List.mem_cons_self
      exact absurd left (none_left payload (frames width others) (carried payload listed))

/-- The payloads of the complete frames of a stream, and the bytes behind them. -/
def unframe (width : Nat) (stream : Bytes) : List Bytes × Bytes :=
  if _more : 0 < width ∧ width + decodeLength (stream.take width) ≤ stream.length then
    let size := decodeLength (stream.take width)
    let later := unframe width (stream.drop (size + width))
    ((stream.drop width).take size :: later.1, later.2)
  else ([], stream)
termination_by stream.length
decreasing_by
  rw [List.length_drop]
  omega

theorem unframe_frames {payloads : List Bytes} (positive : 0 < width)
    (small : ∀ payload ∈ payloads, payload.length < 256 ^ width) :
    unframe width (frames width payloads) = (payloads, []) := by
  induction payloads with
  | nil =>
      rw [unframe, dif_neg]
      · rfl
      · intro both
        have fits := both.2
        rw [frames_nil, List.length_nil] at fits
        omega
  | cons payload later ih =>
      obtain ⟨first, others⟩ := List.forall_mem_cons.mp small
      rw [frames_cons, unframe, dif_pos]
      · simp only [decodeLength_take_of_fits first, payload_of_frame, drop_frame, ih others]
      · refine ⟨positive, ?_⟩
        rw [decodeLength_take_of_fits first, List.length_append, frame_length]
        omega

/-! ### Frames without their lengths -/

/-- Bytes are a frame exactly when the length in front is that of the rest. -/
theorem frame_take_drop_iff {bytes : Bytes} (header : width ≤ bytes.length) :
    (bytes.drop width).length = decodeLength (bytes.take width) ↔
      ∃ payload, payload.length < 256 ^ width ∧ bytes = frame width payload := by
  constructor
  · intro size
    have taken : (bytes.take width).length = width := List.length_take_of_le header
    have length : encodeLength width (bytes.drop width).length = bytes.take width := by
      have decoded := encodeLength_decodeLength (bytes.take width)
      rw [taken, ← size] at decoded
      exact decoded
    refine ⟨bytes.drop width, ?_, ?_⟩
    · have bound := decodeLength_lt (bytes.take width)
      rw [taken] at bound
      rw [size]
      exact bound
    · unfold frame
      rw [length, List.take_append_drop]
  · intro framed
    obtain ⟨payload, small, rfl⟩ := framed
    have decoded := decodeLength_take_of_fits small []
    rw [List.append_nil] at decoded
    rw [drop_width_frame, decoded]

/-- The chunks of a stream, without what would be their lengths, are its
payloads exactly when they are its frames. -/
theorem map_drop_eq_iff {payloads chunks : List Bytes}
    (long : ∀ chunk ∈ chunks, width ≤ chunk.length)
    (stream : chunks.flatten = frames width payloads) :
    chunks.map (List.drop width) = payloads ↔ chunks = payloads.map (frame width) := by
  constructor
  · intro dropped
    subst dropped
    induction chunks with
    | nil => rfl
    | cons chunk later ih =>
        obtain ⟨first, others⟩ := List.forall_mem_cons.mp long
        have size : chunk.length = (frame width (chunk.drop width)).length := by
          rw [frame_length, List.length_drop]
          omega
        rw [List.flatten_cons, List.map_cons, frames_cons] at stream
        obtain ⟨same, behind⟩ := List.append_inj stream size
        rw [List.map_cons, List.map_cons, ← same, ← ih others behind]
  · intro framed
    rw [framed, List.map_map]
    apply List.map_id''
    exact drop_width_frame

private theorem filter_flatten {chunks : List Bytes} {kept : Bytes → Bool}
    (whole : chunks.flatten.length ≤ (chunks.filter kept).flatten.length) :
    (chunks.filter kept).flatten = chunks.flatten ∧
      ∀ chunk ∈ chunks, kept chunk = false → chunk = [] := by
  induction chunks with
  | nil => exact ⟨rfl, List.forall_mem_nil _⟩
  | cons chunk later ih =>
      rw [List.flatten_cons, List.length_append] at whole
      rw [List.forall_mem_cons]
      cases keeps : kept chunk with
      | true =>
          rw [List.filter_cons_of_pos keeps, List.flatten_cons, List.length_append] at whole
          obtain ⟨same, empty⟩ := ih (Nat.le_of_add_le_add_left whole)
          refine ⟨?_, fun leaves => Bool.noConfusion leaves, empty⟩
          rw [List.filter_cons_of_pos keeps, List.flatten_cons, List.flatten_cons, same]
      | false =>
          have leaves : ¬ kept chunk = true := by
            rw [keeps]
            exact Bool.false_ne_true
          have fewer : (later.filter kept).flatten.length ≤ later.flatten.length :=
            List.filter_sublist.flatten.length_le
          rw [List.filter_cons_of_neg leaves] at whole ⊢
          obtain ⟨same, empty⟩ := ih (by omega)
          have none : chunk = [] := List.length_eq_zero_iff.mp (by omega)
          refine ⟨?_, fun _leaves => none, empty⟩
          rw [same, none, List.flatten_cons, List.nil_append]

private theorem frames_map_drop_length {chunks : List Bytes}
    (long : ∀ chunk ∈ chunks, width ≤ chunk.length) :
    (frames width (chunks.map (List.drop width))).length = chunks.flatten.length := by
  induction chunks with
  | nil => rfl
  | cons chunk later ih =>
      obtain ⟨first, others⟩ := List.forall_mem_cons.mp long
      rw [List.map_cons, frames_cons, List.length_append, frame_length, ih others,
        List.flatten_cons, List.length_append, List.length_drop]
      omega

theorem map_drop_filter {payloads chunks : List Bytes} {kept : Bytes → Bool}
    (long : ∀ chunk, kept chunk = true → width ≤ chunk.length)
    (stream : chunks.flatten = frames width payloads)
    (dropped : (chunks.filter kept).map (List.drop width) = payloads) :
    chunks.filter kept = payloads.map (frame width) ∧
      ∀ chunk ∈ chunks, kept chunk = false → chunk = [] := by
  have longKept : ∀ chunk ∈ chunks.filter kept, width ≤ chunk.length :=
    fun chunk member => long chunk (List.mem_filter.mp member).2
  have size := frames_map_drop_length longKept
  rw [dropped, ← stream] at size
  obtain ⟨same, empty⟩ := filter_flatten (Nat.le_of_eq size)
  exact ⟨(map_drop_eq_iff longKept (same.trans stream)).mp dropped, empty⟩

end LengthPrefix
