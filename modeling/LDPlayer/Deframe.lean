/-
The deframing loops of the three receivers.

DNSClient::manager_read_cb, Manager::com_read_cb and Postman::skt_read_cb share
one loop body: decode the length, stop when bytes are missing, hand the payload
on and cut it off the buffer.  The first two test the buffer before the body,
the third behind it.  What is done with a payload is a parameter here; each
receiver supplies its own.
-/
import LDPlayer.Message

set_option autoImplicit false

namespace LDPlayer

open LengthPrefix

def readAt (buffer : Bytes) (offset count : Nat) : Except Fault Bytes :=
  if offset + count ≤ buffer.length then .ok ((buffer.drop offset).take count)
  else .error .outOfBounds

def substr (buffer : Bytes) (position : Nat) : Except Fault Bytes :=
  if position ≤ buffer.length then .ok (buffer.drop position) else .error .outOfRange

/-- The loop body.  `left` is a 64-bit difference stored into 32 bits, so it
wraps around when the buffer is shorter than the length field. -/
def takeFrame (buffer : Bytes) : Except Fault (Option (Bytes × Bytes)) :=
  match readAt buffer 0 lengthWidth with
  | .error fault => .error fault
  | .ok header =>
      let sz := decodeLength header
      let left := (buffer.length + 2 ^ 64 - lengthWidth) % 2 ^ 32
      if sz > left then .ok none
      else
        match readAt buffer lengthWidth sz with
        | .error fault => .error fault
        | .ok payload =>
            match substr buffer (sz + lengthWidth) with
            | .error fault => .error fault
            | .ok rest => .ok (some (payload, rest))

theorem takeFrame_rest_length {buffer payload rest : Bytes}
    (taken : takeFrame buffer = .ok (some (payload, rest))) :
    rest.length < buffer.length := by
  unfold takeFrame readAt substr at taken
  by_cases header : 0 + lengthWidth ≤ buffer.length
  · simp only [if_pos header] at taken
    split at taken
    · cases taken
    · split at taken
      · cases taken
      · split at taken
        · cases taken
        · rename_i cut
          obtain ⟨rfl, rfl⟩ := taken
          by_cases within :
              decodeLength ((buffer.drop 0).take lengthWidth) + lengthWidth ≤ buffer.length
          · rw [if_pos within] at cut
            rw [← Except.ok.inj cut, List.length_drop]
            unfold lengthWidth at header ⊢
            omega
          · rw [if_neg within] at cut
            cases cut
  · simp only [if_neg header] at taken
    cases taken

private theorem takeFrame_eq_frame {buffer payload rest : Bytes}
    (taken : takeFrame buffer = .ok (some (payload, rest))) : buffer = frame payload ++ rest := by
  unfold takeFrame readAt substr at taken
  by_cases header : 0 + lengthWidth ≤ buffer.length
  · simp only [if_pos header, List.drop_zero] at taken
    split at taken
    · cases taken
    · by_cases within : lengthWidth + decodeLength (buffer.take lengthWidth) ≤ buffer.length
      · rw [if_pos within] at taken
        simp only [if_pos (Nat.add_comm lengthWidth _ ▸ within)] at taken
        obtain ⟨rfl, rfl⟩ := taken
        have width : (buffer.take lengthWidth).length = lengthWidth := by
          rw [List.length_take]
          omega
        have size : ((buffer.drop lengthWidth).take
            (decodeLength (buffer.take lengthWidth))).length =
              decodeLength (buffer.take lengthWidth) := by
          rw [List.length_take, List.length_drop]
          omega
        have lengthBytes := encodeLength_decodeLength (buffer.take lengthWidth)
        rw [width] at lengthBytes
        unfold frame LengthPrefix.frame
        rw [size, lengthBytes, Nat.add_comm, ← List.drop_drop, List.append_assoc,
          List.take_append_drop, List.take_append_drop]
      · rw [if_neg within] at taken
        cases taken
  · simp only [if_neg header] at taken
    cases taken

section loops

variable {State : Type} (handle : State → Bytes → Except Fault State)

/-- The loop of `manager_read_cb` and `com_read_cb`. -/
def whileLoop (buffer : Bytes) (state : State) : Except Fault (Bytes × State) :=
  if buffer.length > lengthWidth then
    match _taken : takeFrame buffer with
    | .error fault => .error fault
    | .ok none => .ok (buffer, state)
    | .ok (some (payload, rest)) =>
        match handle state payload with
        | .error fault => .error fault
        | .ok next => whileLoop rest next
  else .ok (buffer, state)
termination_by buffer.length
decreasing_by exact takeFrame_rest_length _taken

/-- The loop of `skt_read_cb`. -/
def doWhileLoop (buffer : Bytes) (state : State) : Except Fault (Bytes × State) :=
  match _taken : takeFrame buffer with
  | .error fault => .error fault
  | .ok none => .ok (buffer, state)
  | .ok (some (payload, rest)) =>
      match handle state payload with
      | .error fault => .error fault
      | .ok next =>
          if rest.length > lengthWidth then doWhileLoop rest next else .ok (rest, next)
termination_by buffer.length
decreasing_by exact takeFrame_rest_length _taken

end loops

theorem doWhileLoop_keeps {State : Type} {handle : State → Bytes → Except Fault State}
    {invariant : State → Prop}
    (keeps : ∀ state payload next, invariant state → handle state payload = .ok next →
      invariant next)
    {buffer rest : Bytes} {state final : State} (holds : invariant state)
    (drained : doWhileLoop handle buffer state = .ok (rest, final)) : invariant final := by
  induction size : buffer.length using Nat.strongRecOn generalizing buffer state with
  | ind count ih =>
      rw [doWhileLoop] at drained
      split at drained
      · cases drained
      · obtain ⟨rfl, rfl⟩ := drained
        exact holds
      · rename_i payload later taken
        have shorter := takeFrame_rest_length taken
        cases handled : handle state payload with
        | error fault =>
            simp only [handled] at drained
            cases drained
        | ok next =>
            have kept := keeps state payload next holds handled
            simp only [handled] at drained
            split at drained
            · exact ih later.length (size ▸ shorter) kept drained rfl
            · obtain ⟨rfl, rfl⟩ := drained
              exact kept

def record (log : List Bytes) (payload : Bytes) : Except Fault (List Bytes) :=
  .ok (log ++ [payload])

theorem foldlM_record (payloads log : List Bytes) :
    payloads.foldlM record log = .ok (log ++ payloads) := by
  induction payloads generalizing log with
  | nil => rw [List.append_nil]; rfl
  | cons payload later ih =>
      rw [List.foldlM_cons]
      change later.foldlM record (log ++ [payload]) = _
      rw [ih, List.append_assoc, List.singleton_append]

/-! ### The loop body on a stream of frames -/

private theorem takeFrame_short {buffer : Bytes} (short : buffer.length < lengthWidth) :
    takeFrame buffer = .error .outOfBounds := by
  unfold takeFrame readAt
  rw [if_neg (by omega)]

theorem takeFrame_incomplete {buffer : Bytes} (header : lengthWidth ≤ buffer.length)
    (incomplete : Partial lengthWidth buffer) : takeFrame buffer = .ok none := by
  have missing := incomplete.payload_missing header
  unfold takeFrame readAt
  rw [if_pos (by omega)]
  simp only [List.drop_zero]
  rw [if_pos]
  unfold lengthWidth at header missing ⊢
  omega

/-- A frame is taken where the 32 bits of `left` still cover its payload. -/
theorem takeFrame_frame {payload : Bytes} (carried : Carried lengthWidth payload) (rest : Bytes) :
    takeFrame (frame payload ++ rest) =
      if payload.length ≤ (payload.length + rest.length) % 2 ^ 32 then .ok (some (payload, rest))
      else .ok none := by
  have size : (frame payload ++ rest).length = lengthWidth + (payload.length + rest.length) :=
    frame_append_length payload rest
  have header : 0 + lengthWidth ≤ (frame payload ++ rest).length := by omega
  have body : lengthWidth + payload.length ≤ (frame payload ++ rest).length := by omega
  have cut : payload.length + lengthWidth ≤ (frame payload ++ rest).length := by omega
  have decoded : decodeLength ((frame payload ++ rest).take lengthWidth) = payload.length :=
    decodeLength_take_frame carried rest
  have left : ((frame payload ++ rest).length + 2 ^ 64 - lengthWidth) % 2 ^ 32 =
      (payload.length + rest.length) % 2 ^ 32 := by
    unfold lengthWidth at size ⊢
    omega
  unfold takeFrame readAt substr
  rw [if_pos header]
  simp only [List.drop_zero, decoded, left]
  by_cases fits : payload.length ≤ (payload.length + rest.length) % 2 ^ 32
  · rw [if_neg (Nat.not_lt.mpr fits), if_pos fits, if_pos body, if_pos cut]
    unfold frame
    simp only [payload_of_frame, drop_frame]
  · rw [if_pos (Nat.not_le.mp fits), if_neg fits]

/-- No frame of the buffer stops the loop while it is complete. -/
def Unwrapped : List Bytes → Bytes → Prop
  | [], _ => True
  | payload :: later, tail =>
      payload.length ≤ (payload.length + (frames lengthWidth later ++ tail).length) % 2 ^ 32 ∧
        Unwrapped later tail

theorem unwrapped_of_lt {complete : List Bytes} {tail : Bytes}
    (buffered : (frames lengthWidth complete ++ tail).length < 2 ^ 32) :
    Unwrapped complete tail := by
  induction complete with
  | nil => trivial
  | cons payload later ih =>
      rw [frames_cons, List.append_assoc, List.length_append, frame_length] at buffered
      constructor
      · rw [Nat.mod_eq_of_lt (by omega)]
        omega
      · exact ih (by omega)

/-! ### The loops on a stream of frames -/

section drains

variable {State : Type} (handle : State → Bytes → Except Fault State)

theorem whileLoop_none {buffer : Bytes} (stops : takeFrame buffer = .ok none) (state : State) :
    whileLoop handle buffer state = .ok (buffer, state) := by
  rw [whileLoop]
  by_cases more : buffer.length > lengthWidth
  · rw [if_pos more]
    split
    · rename_i taken
      rw [stops] at taken
      cases taken
    · rfl
    · rename_i taken
      rw [stops] at taken
      cases taken
  · rw [if_neg more]

theorem whileLoop_fault {buffer : Bytes} {fault : Fault} (more : buffer.length > lengthWidth)
    (faults : takeFrame buffer = .error fault) (state : State) :
    whileLoop handle buffer state = .error fault := by
  rw [whileLoop, if_pos more]
  split
  · rename_i taken
    rw [faults] at taken
    rw [Except.error.inj taken]
  · rename_i taken
    rw [faults] at taken
    cases taken
  · rename_i taken
    rw [faults] at taken
    cases taken

theorem whileLoop_taken {buffer payload rest : Bytes} (more : buffer.length > lengthWidth)
    (cut : takeFrame buffer = .ok (some (payload, rest))) (state : State) :
    whileLoop handle buffer state = handle state payload >>= whileLoop handle rest := by
  rw [whileLoop, if_pos more]
  split
  · rename_i taken
    rw [cut] at taken
    cases taken
  · rename_i taken
    rw [cut] at taken
    cases taken
  · rename_i taken
    rw [cut] at taken
    obtain ⟨rfl, rfl⟩ := taken
    cases handle state payload <;> rfl

theorem whileLoop_short {buffer : Bytes} (short : ¬ buffer.length > lengthWidth) (state : State) :
    whileLoop handle buffer state = .ok (buffer, state) := by
  rw [whileLoop, if_neg short]

theorem whileLoop_incomplete {buffer : Bytes} (incomplete : Partial lengthWidth buffer)
    (state : State) : whileLoop handle buffer state = .ok (buffer, state) := by
  by_cases more : buffer.length > lengthWidth
  · exact whileLoop_none handle (takeFrame_incomplete (Nat.le_of_lt more) incomplete) state
  · exact whileLoop_short handle more state

theorem frame_longer {payload : Bytes} (carried : Carried lengthWidth payload) (rest : Bytes) :
    (frame payload ++ rest).length > lengthWidth := by
  have positive := carried.length_pos
  unfold frame
  rw [frame_append_length]
  omega

theorem whileLoop_frame {payload : Bytes} (carried : Carried lengthWidth payload) (rest : Bytes)
    (fits : payload.length ≤ (payload.length + rest.length) % 2 ^ 32) (state : State) :
    whileLoop handle (frame payload ++ rest) state =
      handle state payload >>= whileLoop handle rest := by
  have cut := takeFrame_frame carried rest
  rw [if_pos fits] at cut
  exact whileLoop_taken handle (frame_longer carried rest) cut state

theorem doWhileLoop_fault {buffer : Bytes} {fault : Fault}
    (faults : takeFrame buffer = .error fault) (state : State) :
    doWhileLoop handle buffer state = .error fault := by
  rw [doWhileLoop]
  split
  · rename_i taken
    rw [faults] at taken
    rw [Except.error.inj taken]
  · rename_i taken
    rw [faults] at taken
    cases taken
  · rename_i taken
    rw [faults] at taken
    cases taken

theorem doWhileLoop_short {buffer : Bytes} (short : buffer.length < lengthWidth)
    (state : State) : doWhileLoop handle buffer state = .error .outOfBounds :=
  doWhileLoop_fault handle (takeFrame_short short) state

theorem doWhileLoop_none {buffer : Bytes} (stops : takeFrame buffer = .ok none)
    (state : State) : doWhileLoop handle buffer state = .ok (buffer, state) := by
  rw [doWhileLoop]
  split
  · rename_i taken
    rw [stops] at taken
    cases taken
  · rfl
  · rename_i taken
    rw [stops] at taken
    cases taken

theorem doWhileLoop_taken {buffer payload rest : Bytes}
    (cut : takeFrame buffer = .ok (some (payload, rest))) (state : State) :
    doWhileLoop handle buffer state =
      handle state payload >>= fun next =>
        if rest.length > lengthWidth then doWhileLoop handle rest next else .ok (rest, next) := by
  rw [doWhileLoop]
  split
  · rename_i taken
    rw [cut] at taken
    cases taken
  · rename_i taken
    rw [cut] at taken
    cases taken
  · rename_i taken
    rw [cut] at taken
    obtain ⟨rfl, rfl⟩ := taken
    cases handle state payload <;> rfl

/-- Past the first test the two loops are the same. -/
theorem doWhileLoop_eq_whileLoop {buffer : Bytes} (more : buffer.length > lengthWidth)
    (state : State) : doWhileLoop handle buffer state = whileLoop handle buffer state := by
  induction size : buffer.length using Nat.strong_induction_on generalizing buffer state with
  | _ size ih =>
      cases cut : takeFrame buffer with
      | error fault => rw [doWhileLoop_fault handle cut, whileLoop_fault handle more cut]
      | ok taken =>
          cases taken with
          | none => rw [doWhileLoop_none handle cut, whileLoop_none handle cut]
          | some parts =>
              obtain ⟨payload, rest⟩ := parts
              rw [doWhileLoop_taken handle cut, whileLoop_taken handle more cut]
              congr 1
              funext next
              by_cases longer : rest.length > lengthWidth
              · rw [if_pos longer]
                have shorter := takeFrame_rest_length cut
                exact ih rest.length (by omega) longer next rfl
              · rw [if_neg longer, whileLoop_short handle longer]

theorem unwrapped_iff_eachFits (complete : List Bytes) (tail : Bytes) :
    Unwrapped complete tail ↔ EachFits lengthWidth
      (fun payload rest => payload.length ≤ (payload.length + rest.length) % 2 ^ 32)
      complete tail := by
  induction complete with
  | nil => exact Iff.rfl
  | cons payload later ih => exact and_congr Iff.rfl ih

theorem whileLoop_drains : Drains lengthWidth Unwrapped handle (whileLoop handle) := by
  intro complete tail state carried incomplete unwrapped
  refine drains_of_steps ?_ ?_ complete tail state carried incomplete
    ((unwrapped_iff_eachFits complete tail).mp unwrapped)
  · intro buffer state incomplete
    exact whileLoop_incomplete handle incomplete state
  · intro payload rest state carried fits
    exact whileLoop_frame handle carried rest fits state

theorem whileLoop_exact (complete : List Bytes) (tail : Bytes) (state final : State)
    (carried : ∀ payload ∈ complete, Carried lengthWidth payload)
    (drained : whileLoop handle (frames lengthWidth complete ++ tail) state =
      .ok (tail, final)) : Unwrapped complete tail := by
  have takes : ∀ payload rest (state : State), Carried lengthWidth payload →
      payload.length ≤ (payload.length + rest.length) % 2 ^ 32 →
      whileLoop handle (frame payload ++ rest) state =
        handle state payload >>= whileLoop handle rest := by
    intro payload rest state carried fits
    exact whileLoop_frame handle carried rest fits state
  refine (unwrapped_iff_eachFits complete tail).mpr
    (exact_of_steps takes ?_ complete tail state final carried drained)
  intro payload rest state carried exceeds
  have stops := takeFrame_frame carried rest
  rw [if_neg exceeds] at stops
  exact whileLoop_none handle stops state

def WithHeader (complete : List Bytes) (tail : Bytes) : Prop :=
  lengthWidth ≤ (frames lengthWidth complete ++ tail).length ∧ Unwrapped complete tail

private theorem frames_longer {payload : Bytes} {later : List Bytes} {tail : Bytes}
    (carried : ∀ other ∈ payload :: later, Carried lengthWidth other) :
    (frames lengthWidth (payload :: later) ++ tail).length > lengthWidth := by
  rw [frames_cons, List.append_assoc]
  exact frame_longer (carried payload List.mem_cons_self) _

theorem doWhileLoop_drains : Drains lengthWidth WithHeader handle (doWhileLoop handle) := by
  intro complete tail state carried incomplete withHeader
  cases complete with
  | nil => exact doWhileLoop_none handle (takeFrame_incomplete withHeader.1 incomplete) state
  | cons payload later =>
      rw [doWhileLoop_eq_whileLoop handle (frames_longer carried)]
      exact whileLoop_drains handle _ tail state carried incomplete withHeader.2

theorem doWhileLoop_exact (complete : List Bytes) (tail : Bytes) (state final : State)
    (carried : ∀ payload ∈ complete, Carried lengthWidth payload)
    (drained : doWhileLoop handle (frames lengthWidth complete ++ tail) state =
      .ok (tail, final)) : WithHeader complete tail := by
  constructor
  · by_contra short
    rw [doWhileLoop_short handle (Nat.not_le.mp short)] at drained
    cases drained
  · cases complete with
    | nil => trivial
    | cons payload later =>
        rw [doWhileLoop_eq_whileLoop handle (frames_longer carried)] at drained
        exact whileLoop_exact handle _ tail state final carried drained

end drains

/-! ### What the loops hand over -/

private theorem takeFrame_small {buffer payload rest : Bytes}
    (taken : takeFrame buffer = .ok (some (payload, rest))) :
    payload.length < 256 ^ lengthWidth := by
  unfold takeFrame readAt at taken
  by_cases header : 0 + lengthWidth ≤ buffer.length
  · simp only [if_pos header, List.drop_zero] at taken
    have small := decodeLength_lt (buffer.take lengthWidth)
    rw [List.length_take, Nat.min_eq_left (by omega)] at small
    split at taken
    · cases taken
    · split at taken
      · cases taken
      · rename_i read body
        split at taken
        · cases taken
        · obtain ⟨rfl, rfl⟩ := taken
          split at body
          · rw [← Except.ok.inj body, List.length_take]
            exact Nat.lt_of_le_of_lt (Nat.min_le_left _ _) small
          · cases body
  · simp only [if_neg header] at taken
    cases taken

/-- A buffer that the loop body finds too short holds no complete frame, unless the 32
bits of `left` are not enough for it. -/
theorem takeFrame_leaves {buffer : Bytes} (stops : takeFrame buffer = .ok none)
    (below : buffer.length < 2 ^ 32) : NoFrame lengthWidth buffer := by
  intro payload rest carried same
  have size : (LengthPrefix.frame lengthWidth payload ++ rest).length =
      lengthWidth + (payload.length + rest.length) := frame_append_length payload rest
  have fits : payload.length ≤ (payload.length + rest.length) % 2 ^ 32 := by
    rw [same, size] at below
    rw [Nat.mod_eq_of_lt (by omega)]
    omega
  have taken := takeFrame_frame carried rest
  rw [if_pos fits] at taken
  rw [same] at stops
  cases stops.symm.trans taken

theorem noFrame_of_short {buffer : Bytes} (short : ¬ buffer.length > lengthWidth) :
    NoFrame lengthWidth buffer := by
  intro payload rest carried same
  rw [same] at short
  exact short (frame_longer carried rest)

/-- A loop has handed these payloads over one by one, and neither made nor dropped
bytes; below 2^32 bytes it leaves no complete frame. -/
structure HandsOver {State : Type} (handle : State → Bytes → Except Fault State)
    (buffer rest : Bytes) (state final : State) (handed : List Bytes) : Prop where
  small : ∀ payload ∈ handed, payload.length < 256 ^ lengthWidth
  folded : handed.foldlM handle state = .ok final
  cut : buffer = frames lengthWidth handed ++ rest
  none_left : rest.length < 2 ^ 32 → NoFrame lengthWidth rest

section hands_over

variable {State : Type} {handle : State → Bytes → Except Fault State} {buffer rest : Bytes}
variable {state final : State}

theorem HandsOver.none (leaves : buffer.length < 2 ^ 32 → NoFrame lengthWidth buffer)
    (state : State) : HandsOver handle buffer buffer state state [] where
  small := List.forall_mem_nil _
  folded := rfl
  cut := rfl
  none_left := leaves

theorem HandsOver.cons {payload later : Bytes} {next : State} {handed : List Bytes}
    (taken : takeFrame buffer = .ok (some (payload, later)))
    (handled : handle state payload = .ok next)
    (behind : HandsOver handle later rest next final handed) :
    HandsOver handle buffer rest state final (payload :: handed) where
  small := List.forall_mem_cons.mpr ⟨takeFrame_small taken, behind.small⟩
  folded := by
    rw [List.foldlM_cons, handled]
    exact behind.folded
  cut := by
    rw [takeFrame_eq_frame taken, behind.cut, frames_cons, List.append_assoc]
    rfl
  none_left := behind.none_left

theorem whileLoop_hands_over (drained : whileLoop handle buffer state = .ok (rest, final)) :
    ∃ handed, HandsOver handle buffer rest state final handed := by
  induction size : buffer.length using Nat.strongRecOn generalizing buffer state with
  | ind count ih =>
      by_cases more : buffer.length > lengthWidth
      · cases cut : takeFrame buffer with
        | error fault =>
            rw [whileLoop_fault handle more cut] at drained
            cases drained
        | ok taken =>
            cases taken with
            | none =>
                rw [whileLoop_none handle cut] at drained
                obtain ⟨rfl, rfl⟩ := Prod.mk.inj (Except.ok.inj drained)
                exact ⟨[], .none (takeFrame_leaves cut) _⟩
            | some frame =>
                rw [whileLoop_taken handle more cut] at drained
                obtain ⟨next, handled, behind⟩ := of_bind_eq_ok drained
                obtain ⟨handed, handing⟩ :=
                  ih frame.2.length (size ▸ takeFrame_rest_length cut) behind rfl
                exact ⟨frame.1 :: handed, .cons cut handled handing⟩
      · rw [whileLoop_short handle more] at drained
        obtain ⟨rfl, rfl⟩ := Prod.mk.inj (Except.ok.inj drained)
        exact ⟨[], .none (fun _ => noFrame_of_short more) _⟩

theorem doWhileLoop_hands_over (drained : doWhileLoop handle buffer state = .ok (rest, final)) :
    ∃ handed, HandsOver handle buffer rest state final handed := by
  by_cases more : buffer.length > lengthWidth
  · rw [doWhileLoop_eq_whileLoop handle more] at drained
    exact whileLoop_hands_over drained
  · cases cut : takeFrame buffer with
    | error fault =>
        rw [doWhileLoop_fault handle cut] at drained
        cases drained
    | ok taken =>
        cases taken with
        | none =>
            rw [doWhileLoop_none handle cut] at drained
            obtain ⟨rfl, rfl⟩ := Prod.mk.inj (Except.ok.inj drained)
            exact ⟨[], .none (takeFrame_leaves cut) _⟩
        | some frame =>
            -- the frame is empty, and nothing stands behind it
            have shorter := takeFrame_rest_length cut
            have ends : ¬ frame.2.length > lengthWidth := by omega
            rw [doWhileLoop_taken handle cut] at drained
            obtain ⟨next, handled, behind⟩ := of_bind_eq_ok drained
            rw [if_neg ends] at behind
            obtain ⟨rfl, rfl⟩ := Prod.mk.inj (Except.ok.inj behind)
            exact ⟨[frame.1], .cons cut handled (.none (fun _ => noFrame_of_short ends) _)⟩

/-- The bytes that were received are these frames and what is buffered behind them,
which below 2^32 bytes is no complete frame. -/
structure Framed (received buffered : Bytes) (payloads : List Bytes) : Prop where
  small : ∀ payload ∈ payloads, payload.length < 256 ^ lengthWidth
  cut : received = frames lengthWidth payloads ++ buffered
  none_left : buffered.length < 2 ^ 32 → NoFrame lengthWidth buffered

theorem Framed.nothing : Framed [] [] [] where
  small := List.forall_mem_nil _
  cut := rfl
  none_left := fun _ => noFrame_of_short (by decide)

theorem Framed.read {received buffered data : Bytes} {payloads others : List Bytes}
    (framed : Framed received buffered payloads)
    (handing : HandsOver handle (buffered ++ data) rest state final others) :
    Framed (received ++ data) rest (payloads ++ others) where
  small := List.forall_mem_append.mpr ⟨framed.small, handing.small⟩
  cut := by rw [framed.cut, List.append_assoc, handing.cut, frames_append, List.append_assoc]
  none_left := handing.none_left

theorem Framed.whole {buffered : Bytes} {payloads sent : List Bytes}
    (framed : Framed (frames lengthWidth sent) buffered payloads)
    (carried : ∀ payload ∈ sent, Carried lengthWidth payload)
    (below : buffered.length < 2 ^ 32) : payloads = sent :=
  (whole_of_noFrame (by decide) framed.small carried framed.cut.symm (framed.none_left below)).1

end hands_over

theorem whileLoop_record {buffer rest : Bytes} {log final : List Bytes}
    (drained : whileLoop record buffer log = .ok (rest, final)) :
    ∃ handed, final = log ++ handed ∧ buffer = frames lengthWidth handed ++ rest := by
  obtain ⟨handed, handing⟩ := whileLoop_hands_over drained
  have folded := handing.folded
  rw [foldlM_record] at folded
  exact ⟨handed, (Except.ok.inj folded).symm, handing.cut⟩

end LDPlayer
