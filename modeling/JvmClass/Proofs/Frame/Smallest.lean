import JvmClass.Proofs.Frame.Roundtrip
import JvmClass.Proofs.StackMap.Codec

namespace JvmClass

/-!
# The smallest frame

A frame is written in the form that takes the fewest bytes when the compact locals
are compared with those of the frame before.  Compact locals do not show that a place
holds `top` if all behind it do, so one shorter form is missed: dropping the last
three locals may leave `top` in places that need not be listed.
-/

namespace SlotType

/-- How many bytes a type takes in a frame. -/
def frameWidth : SlotType → Nat
  | .object _ | .uninitialized _ => 3
  | _ => 1

/-- How many bytes a row of types takes in a frame. -/
def frameWidths (types : List SlotType) : Nat :=
  (types.map frameWidth).sum

@[simp] theorem frameWidth_written (type : SlotType) : type.written.frameWidth = type.frameWidth := by
  cases type <;> rfl

@[simp] theorem frameWidths_nil : frameWidths [] = 0 :=
  rfl

@[simp] theorem frameWidths_cons
    (type : SlotType)
    (types : List SlotType) :
    frameWidths (type :: types) = type.frameWidth + frameWidths types := by
  simp [frameWidths]

@[simp] theorem frameWidths_append
    (first second : List SlotType) :
    frameWidths (first ++ second) = frameWidths first + frameWidths second := by
  simp [frameWidths]

/-- A type that is read takes the bytes that its kind takes. -/
theorem length_encode_of_ofTypeInfo
    {pool : Pool}
    {info : StackMap.TypeInfo}
    {type : SlotType}
    (found : ofTypeInfo pool info = .ok type) :
    info.encode.length = type.frameWidth := by
  cases info with
  | object index =>
      simp only [ofTypeInfo] at found
      split at found <;> cases found
      rfl
  | _ =>
      cases found
      rfl

theorem length_encode_of_toTypeInfo
    {pool grown : Pool}
    {type : SlotType}
    {info : StackMap.TypeInfo}
    (encoded : type.toTypeInfo pool = (info, grown)) :
    info.encode.length = type.frameWidth := by
  cases type with
  | object name =>
      rcases interned : Pool.internClass name pool with ⟨number, after⟩
      simp only [toTypeInfo, bind, StateT.bind, interned, pure_apply] at encoded
      cases encoded
      rfl
  | _ =>
      cases encoded
      rfl

/-- Types that are read take the bytes that their kinds take. -/
theorem length_flatMap_encode_of_ofTypeInfo
    {pool : Pool}
    {infos : List StackMap.TypeInfo}
    {types : List SlotType}
    (found : infos.mapM (ofTypeInfo pool) = .ok types) :
    infos.length = types.length ∧
      (infos.flatMap StackMap.TypeInfo.encode).length = frameWidths types := by
  have read := mapM_eq_ok_iff.mp found
  clear found
  induction read with
  | nil => exact ⟨rfl, rfl⟩
  | cons first _ inductionHypothesis =>
      simp [length_encode_of_ofTypeInfo first, inductionHypothesis.1, inductionHypothesis.2]

theorem length_flatMap_encode_of_toTypeInfo
    {pool grown : Pool}
    {types : List SlotType}
    {infos : List StackMap.TypeInfo}
    (encoded : types.mapM toTypeInfo pool = (infos, grown)) :
    infos.length = types.length ∧
      (infos.flatMap StackMap.TypeInfo.encode).length = frameWidths types := by
  induction types generalizing pool infos with
  | nil =>
      cases encoded
      exact ⟨rfl, rfl⟩
  | cons type rest inductionHypothesis =>
      rcases first : type.toTypeInfo pool with ⟨info, middle⟩
      rcases others : rest.mapM toTypeInfo middle with ⟨restInfos, last⟩
      simp only [List.mapM_cons, bind, StateT.bind, first, others, pure_apply] at encoded
      cases encoded
      obtain ⟨count, bytes⟩ := inductionHypothesis others
      refine ⟨congrArg (· + 1) count, ?_⟩
      rw [List.flatMap_cons, List.length_append, length_encode_of_toTypeInfo first, bytes,
        frameWidths_cons]

/-! ## Lists without top at the end -/

/-- Nothing can be left out at the end of locals. -/
def Trimmed (locals : List SlotType) : Prop :=
  locals.getLast? ≠ some .top

theorem trimmed_compact (locals : List SlotType) : Trimmed (compact locals) := by
  intro last
  rw [compact, dropTrailingTop, List.getLast?_reverse] at last
  have kept := List.head?_dropWhile_not (fun type => decide (type = top)) (fold [] locals).reverse
  rw [last] at kept
  simp at kept

theorem eq_nil_of_trimmed
    {locals : List SlotType}
    (trimmed : Trimmed locals)
    (tops : ∀ type ∈ locals, type = .top) :
    locals = [] := by
  by_contra nonempty
  refine trimmed ?_
  rw [List.getLast?_eq_some_getLast nonempty, tops _ (List.getLast_mem nonempty)]

theorem eq_zero_of_trimmed
    {locals : List SlotType}
    {count : Nat}
    (trimmed : Trimmed (locals ++ List.replicate count .top)) :
    count = 0 := by
  by_contra some
  exact trimmed (by simp [List.getLast?_replicate, some])

theorem expand_eq_cons (type : SlotType) :
    type.expand = type :: if type.isWide then [.top] else [] := by
  unfold expand
  split <;> rfl

theorem mem_expand_self (type : SlotType) : type ∈ type.expand := by
  simp [expand_eq_cons]

/-- Locals that expand alike, but for top at the end, are alike but for top at the end. -/
theorem eq_append_replicate_of_expand
    {locals others : List SlotType}
    {behind rest : Nat}
    (trimmed : Trimmed locals)
    (same :
      others.flatMap expand ++ List.replicate behind .top =
        locals.flatMap expand ++ List.replicate rest .top) :
    ∃ count, others = locals ++ List.replicate count .top := by
  induction locals generalizing others with
  | nil =>
      refine ⟨others.length, List.eq_replicate_of_mem fun type member => ?_⟩
      refine List.eq_of_mem_replicate (n := rest) ?_
      rw [List.flatMap_nil, List.nil_append] at same
      rw [← same]
      exact List.mem_append_left _ (List.mem_flatMap.mpr ⟨type, member, mem_expand_self type⟩)
  | cons type locals inductionHypothesis =>
      cases others with
      | nil =>
          have tops : ∀ held ∈ type :: locals, held = SlotType.top := by
            intro held member
            refine List.eq_of_mem_replicate (n := behind) ?_
            rw [List.flatMap_nil, List.nil_append] at same
            rw [same]
            exact List.mem_append_left _ (List.mem_flatMap.mpr ⟨held, member, mem_expand_self held⟩)
          cases eq_nil_of_trimmed trimmed tops
      | cons other others =>
          simp only [List.flatMap_cons, expand_eq_cons, List.cons_append, List.cons.injEq,
            List.append_assoc] at same
          obtain ⟨rfl, same⟩ := same
          have tail : Trimmed locals := fun last => trimmed (by simp [List.getLast?_cons, last])
          obtain ⟨count, rfl⟩ := inductionHypothesis tail (List.append_cancel_left same)
          exact ⟨count, rfl⟩

end SlotType

namespace FrameState

open SlotType

/-! ## The forms of a frame -/

/-- The fewest bytes of a frame that takes the locals of the frame before, without its stack. -/
def shortWidth (delta : UInt16) : Nat :=
  if delta ≤ StackMap.shortLimit then 1 else 3

/--
The forms in which a frame can give compact locals and a stack, from the bottom, behind
given compact locals, and the bytes that each takes at least.
-/
inductive Form (delta : UInt16) (previous : List SlotType) :
    List SlotType → List SlotType → Nat → Prop
  | same : Form delta previous previous [] (shortWidth delta)
  | oneStack (value : SlotType) :
      Form delta previous previous [value] (shortWidth delta + value.frameWidth)
  | chop
      {count : Nat}
      (some : 1 ≤ count)
      (few : count ≤ 3)
      (enough : count ≤ previous.length) :
      Form delta previous (previous.take (previous.length - count)) [] 3
  | append
      {added : List SlotType}
      (few : added.length ≤ 3) :
      Form delta previous (previous ++ added) [] (3 + frameWidths added)
  | full (locals stack : List SlotType) :
      Form delta previous locals stack (7 + frameWidths locals + frameWidths stack)

/-- How many bytes the form takes that is chosen for compact locals and a stack. -/
def chosenWidth (delta : UInt16) (previous locals stack : List SlotType) : Nat :=
  match stack, locals == previous with
  | [], true => shortWidth delta
  | [value], true => shortWidth delta + value.frameWidth
  | _, _ =>
      if stack.isEmpty && extendsBy3 locals previous then
        3 + frameWidths (locals.drop previous.length)
      else if stack.isEmpty && extendsBy3 previous locals then
        3
      else
        7 + frameWidths locals + frameWidths stack

section Widths

variable {pool grown : Pool} {delta offset : UInt16} {previous locals stack : List SlotType}
  {frame : StackMap.Frame}

theorem shortWidth_le (delta : UInt16) : shortWidth delta ≤ 3 := by
  unfold shortWidth
  split <;> decide

theorem length_encode_sameAt (delta : UInt16) :
    (StackMap.Frame.sameAt delta).encode.length = shortWidth delta := by
  unfold StackMap.Frame.sameAt shortWidth
  split <;> rfl

theorem length_encode_oneStackAt
    (delta : UInt16)
    (value : StackMap.TypeInfo) :
    (StackMap.Frame.oneStackAt delta value).encode.length =
      shortWidth delta + value.encode.length := by
  unfold StackMap.Frame.oneStackAt shortWidth
  split <;> simp [StackMap.Frame.encode, Bytes.length_ofUInt16] <;> omega

theorem length_encode_append
    (delta : UInt16)
    (added : List StackMap.TypeInfo) :
    (StackMap.Frame.append delta added).encode.length =
      3 + (added.flatMap StackMap.TypeInfo.encode).length := by
  simp only [StackMap.Frame.encode, List.length_append, List.length_cons, Bytes.length_ofUInt16]

theorem length_encode_full
    (delta : UInt16)
    (locals stack : List StackMap.TypeInfo) :
    (StackMap.Frame.full delta locals stack).encode.length =
      7 + (locals.flatMap StackMap.TypeInfo.encode).length +
        (stack.flatMap StackMap.TypeInfo.encode).length := by
  simp only [StackMap.Frame.encode, Bytes.table16, Bytes.count16, List.length_append,
    List.length_cons, Bytes.length_ofUInt16]
  omega

/-- A frame that can be told from its bytes has one of the forms. -/
theorem exists_form_of_expandFrame
    (encodable : frame.Encodable)
    (found : expandFrame pool offset previous frame = .ok (locals, stack)) :
    ∃ bytes ≤ frame.encode.length, Form frame.delta previous locals stack bytes := by
  cases frame with
  | same delta =>
      cases found
      have short : shortWidth delta = 1 := if_pos encodable
      exact ⟨_, Nat.le_of_eq short, .same⟩
  | sameExtended delta =>
      cases found
      exact ⟨_, shortWidth_le delta, .same⟩
  | oneStack delta value =>
      obtain ⟨type, typeFound, found⟩ := bind_eq_ok_iff.mp found
      cases found
      have short : shortWidth delta = 1 := if_pos encodable
      refine ⟨_, ?_, .oneStack type⟩
      simp only [StackMap.Frame.delta, short, StackMap.Frame.encode, List.length_cons,
        length_encode_of_ofTypeInfo typeFound]
      omega
  | oneStackExtended delta value =>
      obtain ⟨type, typeFound, found⟩ := bind_eq_ok_iff.mp found
      cases found
      refine ⟨_, ?_, .oneStack type⟩
      have bounded := shortWidth_le delta
      simp only [StackMap.Frame.delta, StackMap.Frame.encode, List.length_cons, List.length_append,
        Bytes.length_ofUInt16, length_encode_of_ofTypeInfo typeFound]
      omega
  | chop delta count =>
      simp only [expandFrame] at found
      split at found
      · rename_i enough
        cases found
        exact ⟨3, Nat.le_refl _,
          .chop (UInt8.le_iff_toNat_le.mp encodable.1) (UInt8.le_iff_toNat_le.mp encodable.2) enough⟩
      · cases found
  | append delta added =>
      obtain ⟨types, typesFound, found⟩ := bind_eq_ok_iff.mp found
      cases found
      obtain ⟨count, bytes⟩ := length_flatMap_encode_of_ofTypeInfo typesFound
      refine ⟨_, ?_, .append (count ▸ encodable.2)⟩
      rw [length_encode_append, bytes]
  | full delta locals stack =>
      obtain ⟨localTypes, localsFound, found⟩ := bind_eq_ok_iff.mp found
      obtain ⟨stackTypes, stackFound, found⟩ := bind_eq_ok_iff.mp found
      cases found
      refine ⟨_, ?_, .full _ _⟩
      rw [length_encode_full, (length_flatMap_encode_of_ofTypeInfo localsFound).2,
        (length_flatMap_encode_of_ofTypeInfo stackFound).2]

/-! ## The form that is chosen -/

/-- Dropping the last three locals leaves the new ones and places that hold `top`. -/
def LeavesTop (previous locals : List SlotType) : Prop :=
  ∃ count,
    1 ≤ count ∧ previous.take (previous.length - 3) = locals ++ List.replicate count .top

theorem chosenWidth_le_full
    (delta : UInt16)
    (previous locals stack : List SlotType) :
    chosenWidth delta previous locals stack ≤ 7 + frameWidths locals + frameWidths stack := by
  have least := shortWidth_le delta
  unfold chosenWidth
  split
  · omega
  · simp only [frameWidths_cons]
    omega
  · split
    · have whole : frameWidths locals =
          frameWidths (locals.take previous.length) + frameWidths (locals.drop previous.length) := by
        rw [← frameWidths_append, List.take_append_drop]
      omega
    · split <;> omega

theorem extendsBy3_iff
    {longer shorter : List SlotType} :
    extendsBy3 longer shorter = true ↔
      shorter.length < longer.length ∧ longer.length ≤ shorter.length + 3 ∧
        longer.take shorter.length = shorter := by
  simp only [extendsBy3, Bool.and_eq_true, decide_eq_true_eq, beq_iff_eq, and_assoc,
    Nat.sub_le_iff_le_add, Nat.add_comm 3]

theorem chosenWidth_of_appends
    (appends : extendsBy3 locals previous = true) :
    chosenWidth delta previous locals [] = 3 + frameWidths (locals.drop previous.length) := by
  have different : (locals == previous) = false := by
    rw [beq_eq_false_iff_ne]
    rintro rfl
    simpa using (extendsBy3_iff.mp appends).1
  simp [chosenWidth, different, appends]

theorem chosenWidth_of_chops
    (chops : extendsBy3 previous locals = true) :
    chosenWidth delta previous locals [] = 3 := by
  have shorter := (extendsBy3_iff.mp chops).1
  have different : (locals == previous) = false := by
    rw [beq_eq_false_iff_ne]
    rintro rfl
    omega
  have notLonger : extendsBy3 locals previous = false := by
    rw [← Bool.not_eq_true, extendsBy3_iff]
    omega
  simp [chosenWidth, different, notLonger, chops]

/-- Locals that dropping others leaves, but for `top` at the end, are dropped down to as well. -/
theorem chosenWidth_le_of_chop
    {count dropped : Nat}
    (some : 1 ≤ dropped)
    (few : dropped ≤ 3)
    (enough : dropped ≤ previous.length)
    (unlisted : ¬ LeavesTop previous locals)
    (given :
      locals ++ List.replicate count .top = previous.take (previous.length - dropped)) :
    chosenWidth delta previous locals [] ≤ 3 := by
  have lengths := congrArg List.length given
  simp only [List.length_append, List.length_replicate, List.length_take] at lengths
  have begins (size : Nat) (short : size ≤ previous.length - dropped) :
      previous.take size = (locals ++ List.replicate count SlotType.top).take size := by
    rw [given, List.take_take, Nat.min_eq_left short]
  by_cases near : count + dropped ≤ 3
  · refine Nat.le_of_eq (chosenWidth_of_chops (extendsBy3_iff.mpr ⟨by omega, by omega, ?_⟩))
    rw [begins _ (by omega), List.take_left' rfl]
  · refine absurd ⟨count + dropped - 3, by omega, ?_⟩ unlisted
    rw [begins _ (by omega), List.take_append, List.take_of_length_le (by omega),
      List.take_replicate]
    congr 2
    omega

/-- Locals that adding others leaves, but for `top` at the end, take no more than these. -/
theorem chosenWidth_le_of_append
    {count : Nat}
    {added : List SlotType}
    (previousTrimmed : Trimmed previous)
    (few : added.length ≤ 3)
    (given : locals ++ List.replicate count .top = previous ++ added) :
    chosenWidth delta previous locals [] ≤ 3 + frameWidths added := by
  have lengths := congrArg List.length given
  simp only [List.length_append, List.length_replicate] at lengths
  have longer : previous.length ≤ locals.length := by
    by_contra shorter
    have tops : previous = locals ++ List.replicate (previous.length - locals.length) .top := by
      have begins := congrArg (List.take previous.length) given
      rw [List.take_left' rfl, List.take_append, List.take_of_length_le (by omega),
        List.take_replicate, Nat.min_eq_left (by omega)] at begins
      exact begins.symm
    have none := eq_zero_of_trimmed (tops ▸ previousTrimmed)
    omega
  have begins : locals.take previous.length = previous := by
    have taken := congrArg (List.take previous.length) given
    rwa [List.take_left' rfl, List.take_append_of_le_length longer] at taken
  have ends : locals.drop previous.length ++ List.replicate count .top = added := by
    have dropped := congrArg (List.drop previous.length) given
    rwa [List.drop_left' rfl, List.drop_append_of_le_length longer] at dropped
  rw [← ends, frameWidths_append]
  by_cases same : locals.length = previous.length
  · rw [List.take_of_length_le (by omega)] at begins
    have least := shortWidth_le delta
    simp only [chosenWidth, begins, beq_self_eq_true]
    omega
  · rw [chosenWidth_of_appends (extendsBy3_iff.mpr ⟨by omega, by omega, begins⟩)]
    omega

/--
Any form that gives locals which are the same but for `top` at the end takes no fewer
bytes than the one that is chosen, unless dropping three locals leaves `top`.
-/
theorem chosenWidth_le_of_form
    {count bytes : Nat}
    (previousTrimmed : Trimmed previous)
    (unlisted : stack = [] → ¬ LeavesTop previous locals)
    (form : Form delta previous (locals ++ List.replicate count .top) stack bytes) :
    chosenWidth delta previous locals stack ≤ bytes := by
  generalize given : locals ++ List.replicate count .top = others at form
  cases form with
  | same =>
      obtain rfl := eq_zero_of_trimmed (given.symm ▸ previousTrimmed)
      rw [List.replicate_zero, List.append_nil] at given
      simp [chosenWidth, given]
  | oneStack value =>
      obtain rfl := eq_zero_of_trimmed (given.symm ▸ previousTrimmed)
      rw [List.replicate_zero, List.append_nil] at given
      simp [chosenWidth, given]
  | chop some few enough =>
      exact chosenWidth_le_of_chop some few enough (unlisted rfl) given
  | append few =>
      exact chosenWidth_le_of_append previousTrimmed few given
  | full =>
      refine Nat.le_trans (chosenWidth_le_full delta previous locals stack) ?_
      rw [← given, frameWidths_append]
      omega

@[simp] theorem frameWidths_map_written (types : List SlotType) :
    frameWidths (types.map written) = frameWidths types := by
  simp [frameWidths, Function.comp_def]

theorem chosenWidth_map_written :
    chosenWidth delta previous locals (stack.map written) =
      chosenWidth delta previous locals stack := by
  unfold chosenWidth
  rcases stack with _ | ⟨value, _ | ⟨next, rest⟩⟩ <;> cases locals == previous <;> simp

/-- What is chosen for compact locals and a stack, and how it is written. -/
inductive Chosen
    (delta : UInt16)
    (previous locals stack : List SlotType)
    (pool grown : Pool) : StackMap.Frame → Prop
  | same
      (unchanged : locals = previous)
      (empty : stack = []) :
      Chosen delta previous locals stack pool grown (.sameAt delta)
  | oneStack
      {value : SlotType}
      {info : StackMap.TypeInfo}
      (unchanged : locals = previous)
      (single : stack = [value])
      (written : value.toTypeInfo pool = (info, grown)) :
      Chosen delta previous locals stack pool grown (.oneStackAt delta info)
  | append
      {infos : List StackMap.TypeInfo}
      (empty : stack = [])
      (appends : extendsBy3 locals previous = true)
      (written : (locals.drop previous.length).mapM toTypeInfo pool = (infos, grown)) :
      Chosen delta previous locals stack pool grown (.append delta infos)
  | chop
      (empty : stack = [])
      (chops : extendsBy3 previous locals = true) :
      Chosen delta previous locals stack pool grown
        (.chop delta (UInt8.ofNat (previous.length - locals.length)))
  | full
      {middle : Pool}
      {localInfos stackInfos : List StackMap.TypeInfo}
      (other :
        chosenWidth delta previous locals stack = 7 + frameWidths locals + frameWidths stack)
      (localsWritten : locals.mapM toTypeInfo pool = (localInfos, middle))
      (stackWritten : stack.mapM toTypeInfo middle = (stackInfos, grown)) :
      Chosen delta previous locals stack pool grown (.full delta localInfos stackInfos)

theorem Chosen.of_full
    (other :
      chosenWidth delta previous locals stack = 7 + frameWidths locals + frameWidths stack)
    (written :
      (do
        let locals ← locals.mapM toTypeInfo
        let stack ← stack.mapM toTypeInfo
        return .full delta locals stack : StateM Pool StackMap.Frame) pool = (frame, grown)) :
    Chosen delta previous locals stack pool grown frame := by
  rcases first : locals.mapM toTypeInfo pool with ⟨localInfos, middle⟩
  rcases second : stack.mapM toTypeInfo middle with ⟨stackInfos, last⟩
  simp only [bind, StateT.bind, first, second, pure_apply] at written
  cases written
  exact .full other first second

theorem chosen_of_encodeFrame
    (encoded : encodeFrame delta previous locals stack pool = (frame, grown)) :
    Chosen delta previous locals stack pool grown frame := by
  unfold encodeFrame at encoded
  cases agree : locals == previous with
  | true =>
      rw [agree] at encoded
      rcases stack with _ | ⟨value, _ | ⟨next, rest⟩⟩
      · cases encoded
        exact .same (beq_iff_eq.mp agree) rfl
      · rcases first : value.toTypeInfo pool with ⟨info, last⟩
        simp only [bind, StateT.bind, first, pure_apply] at encoded
        cases encoded
        exact .oneStack (beq_iff_eq.mp agree) rfl first
      · exact .of_full (by simp [chosenWidth]) encoded
  | false =>
      rw [agree] at encoded
      rcases stack with _ | ⟨value, rest⟩
      · simp only [List.isEmpty_nil, Bool.true_and] at encoded
        split at encoded
        · rename_i appends
          rcases first : (locals.drop previous.length).mapM SlotType.toTypeInfo pool with ⟨infos, last⟩
          simp only [bind, StateT.bind, first, pure_apply] at encoded
          cases encoded
          exact .append rfl appends first
        · split at encoded
          · rename_i chops
            cases encoded
            exact .chop rfl chops
          · exact .of_full (by simp_all [chosenWidth]) encoded
      · simp only [List.isEmpty_cons, Bool.false_and, Bool.false_eq_true, if_false] at encoded
        exact .of_full (by simp [chosenWidth, agree]) encoded

/-- The frame that is chosen takes the bytes of its form. -/
theorem length_encodeFrame
    (encoded : encodeFrame delta previous locals stack pool = (frame, grown)) :
    frame.encode.length = chosenWidth delta previous locals stack := by
  cases chosen_of_encodeFrame encoded with
  | same unchanged empty =>
      rw [length_encode_sameAt, unchanged, empty]
      simp [chosenWidth]
  | oneStack unchanged single written =>
      rw [length_encode_oneStackAt, length_encode_of_toTypeInfo written, unchanged, single]
      simp [chosenWidth]
  | append empty appends written =>
      rw [length_encode_append, (length_flatMap_encode_of_toTypeInfo written).2, empty,
        chosenWidth_of_appends appends]
  | chop empty chops =>
      rw [empty, chosenWidth_of_chops chops]
      rfl
  | full other localsWritten stackWritten =>
      rw [length_encode_full, (length_flatMap_encode_of_toTypeInfo localsWritten).2,
        (length_flatMap_encode_of_toTypeInfo stackWritten).2, other]

/-- The form that is chosen fits its numbers of types, and its distance. -/
theorem encodable_of_encodeFrame
    (fewLocals : locals.length < 2 ^ 16)
    (fewValues : stack.length < 2 ^ 16)
    (encoded : encodeFrame delta previous locals stack pool = (frame, grown)) :
    frame.Encodable := by
  cases chosen_of_encodeFrame encoded with
  | same =>
      unfold StackMap.Frame.sameAt
      split
      · assumption
      · trivial
  | oneStack =>
      unfold StackMap.Frame.oneStackAt
      split
      · assumption
      · trivial
  | append _ appends written =>
      obtain ⟨longer, near, _⟩ := extendsBy3_iff.mp appends
      have count := (length_flatMap_encode_of_toTypeInfo written).1
      rw [List.length_drop] at count
      exact ⟨by omega, by omega⟩
  | chop _ chops =>
      obtain ⟨shorter, near, _⟩ := extendsBy3_iff.mp chops
      have count :
          (UInt8.ofNat (previous.length - locals.length)).toNat = previous.length - locals.length :=
        UInt8.toNat_ofNat_of_lt' (show _ < 2 ^ 8 by omega)
      refine ⟨UInt8.le_iff_toNat_le.mpr ?_, UInt8.le_iff_toNat_le.mpr ?_⟩
      · rw [count]
        exact Nat.sub_pos_of_lt shorter
      · rw [count]
        show _ ≤ 3
        omega
  | full _ localsWritten stackWritten =>
      exact
        ⟨(length_flatMap_encode_of_toTypeInfo localsWritten).1 ▸ fewLocals,
          (length_flatMap_encode_of_toTypeInfo stackWritten).1 ▸ fewValues⟩

theorem seven_le_chosenWidth
    (leaves : LeavesTop previous locals) :
    7 ≤ chosenWidth delta previous locals [] := by
  obtain ⟨count, some, left⟩ := leaves
  have lengths := congrArg List.length left
  simp only [List.length_take, List.length_append, List.length_replicate] at lengths
  have different : (locals == previous) = false := by
    rw [beq_eq_false_iff_ne]
    rintro rfl
    omega
  have notLonger : extendsBy3 locals previous = false := by
    rw [← Bool.not_eq_true, extendsBy3_iff]
    omega
  have notNear : extendsBy3 previous locals = false := by
    rw [← Bool.not_eq_true, extendsBy3_iff]
    omega
  simp only [chosenWidth, different, notLonger, notNear]
  simp

end Widths

/-! ## Frames that declare a state -/

/-- A frame behind given compact locals stands for a state with its locals filled up. -/
def Declares
    (pool : Pool)
    (offset bound : UInt16)
    (previous : List SlotType)
    (state : FrameState)
    (frame : StackMap.Frame) : Prop :=
  ∃ locals stack,
    expandFrame pool offset previous frame = .ok (locals, stack) ∧
      ofCompact offset bound locals stack = .ok (state.declared bound)

section Declares

variable {pool grown : Pool} {delta offset bound : UInt16} {earlier previous locals stack : List SlotType}
  {state : FrameState} {frame : StackMap.Frame}

/-- Locals that stand for a state are its compact locals and perhaps places that hold `top`. -/
theorem eq_append_of_ofCompact
    (paired : Paired state.locals)
    (found : ofCompact offset bound locals stack = .ok (state.declared bound)) :
    (∃ count, locals = compact state.locals ++ List.replicate count .top) ∧
      stack = state.stack.reverse.map written := by
  unfold ofCompact at found
  simp only at found
  split at found
  · cases found
  · simp only [declared, padTo, Except.ok.injEq, FrameState.mk.injEq] at found
    obtain ⟨filled, values⟩ := found
    obtain ⟨count, shape⟩ := exists_expand_compact paired
    rw [shape, List.append_assoc, List.replicate_append_replicate] at filled
    refine ⟨eq_append_replicate_of_expand (trimmed_compact state.locals) filled, ?_⟩
    rw [← List.reverse_reverse stack, values, List.map_reverse]

theorem flatMap_expand_append_replicate
    (locals : List SlotType)
    (count : Nat) :
    (locals ++ List.replicate count SlotType.top).flatMap expand =
      locals.flatMap expand ++ List.replicate count .top := by
  rw [List.flatMap_append]
  simp [List.flatMap_replicate, expand, isWide]

/-- Places that hold `top` may be listed or not. -/
theorem ofCompact_append_replicate
    (offset : UInt16)
    {count : Nat}
    (paired : Paired state.locals)
    (roomy : state.locals.length ≤ bound.toNat)
    (short :
      ((compact state.locals ++ List.replicate count SlotType.top).flatMap expand).length ≤
        bound.toNat) :
    ofCompact offset bound (compact state.locals ++ List.replicate count .top)
        (state.stack.reverse.map written) =
      .ok (state.declared bound) := by
  have plain :
      ofCompact offset bound (compact state.locals) (state.stack.reverse.map written) =
        .ok (state.declared bound) :=
    ofCompact_compact paired roomy
  unfold ofCompact at plain ⊢
  simp only [flatMap_expand_append_replicate, List.length_append, List.length_replicate]
    at plain short ⊢
  rw [if_neg (by omega)] at plain ⊢
  rw [padTo_append_replicate short, plain]

theorem length_le_flatMap_expand (locals : List SlotType) :
    locals.length ≤ (locals.flatMap expand).length := by
  induction locals with
  | nil => exact Nat.le_refl _
  | cons type rest inductionHypothesis =>
      rw [List.flatMap_cons, List.length_append, expand_eq_cons, List.length_cons, List.length_cons]
      omega

/-- Compact locals take no more places than the locals they come from. -/
theorem length_flatMap_expand_compact
    {locals : List SlotType}
    (paired : Paired locals) :
    ((compact locals).flatMap expand).length ≤ locals.length := by
  obtain ⟨count, shape⟩ := exists_expand_compact paired
  have lengths := congrArg List.length shape
  rw [List.length_map, List.length_append] at lengths
  omega

/-- Dropping three locals declares a state of which only places that hold `top` are left. -/
theorem declares_chop
    (paired : Paired state.locals)
    (roomy : state.locals.length ≤ bound.toNat)
    (previousRoomy : (previous.flatMap expand).length ≤ bound.toNat)
    (empty : state.stack = [])
    (leaves : LeavesTop previous (compact state.locals)) :
    Declares pool offset bound previous state (.chop delta 3) := by
  obtain ⟨count, some, left⟩ := leaves
  have enough : 3 ≤ previous.length := by
    have lengths := congrArg List.length left
    simp only [List.length_take, List.length_append, List.length_replicate] at lengths
    omega
  have short : ((previous.take (previous.length - 3)).flatMap expand).length ≤ bound.toNat := by
    refine Nat.le_trans ?_ previousRoomy
    conv_rhs => rw [← List.take_append_drop (previous.length - 3) previous]
    rw [List.flatMap_append, List.length_append]
    exact Nat.le_add_right ..
  refine ⟨previous.take (previous.length - 3), [], ?_, ?_⟩
  · exact if_pos enough
  · rw [left] at short ⊢
    have made := ofCompact_append_replicate offset paired roomy short
    rwa [empty] at made

end Declares

/--
The frame of a state is at its distance, can be told from its bytes and declares the
state.  Of all such frames it takes the fewest bytes exactly if the stack holds a value
or dropping the last three locals of the frame before does not leave the locals of the
state and `top` behind them.  If that is left, three bytes are enough, and the frame
takes seven or more.
-/
theorem smallest_of_encodeFrame
    {pool grown : Pool}
    {delta offset bound : UInt16}
    {earlier : List SlotType}
    {state : FrameState}
    {frame : StackMap.Frame}
    (earlierPaired : Paired earlier)
    (earlierRoomy : earlier.length ≤ bound.toNat)
    (paired : Paired state.locals)
    (roomy : state.locals.length ≤ bound.toNat)
    (encoded :
      encodeFrame delta (compact earlier) (compact state.locals) state.stack.reverse pool =
        (frame, grown)) :
    (frame.delta = delta ∧
        (state.stack.length < 2 ^ 16 → frame.Encodable) ∧
          (pool.Coherent →
            grown.size ≤ 2 ^ 16 → Declares grown offset bound (compact earlier) state frame)) ∧
      ((∀ other rival,
            rival.Encodable →
              rival.delta = delta →
                Declares other offset bound (compact earlier) state rival →
                  frame.encode.length ≤ rival.encode.length) ↔
          ¬ (state.stack = [] ∧ LeavesTop (compact earlier) (compact state.locals))) ∧
        (state.stack = [] →
          LeavesTop (compact earlier) (compact state.locals) →
            Declares grown offset bound (compact earlier) state (.chop delta 3) ∧
              (StackMap.Frame.chop delta 3).encode.length = 3 ∧ 7 ≤ frame.encode.length) := by
  have width := length_encodeFrame encoded
  have listed : (compact state.locals).map written = compact state.locals := by
    simpa using List.map_congr_left fun type => eq_written_of_mem_compact
  have beaten
      (empty : state.stack = [])
      (leaves : LeavesTop (compact earlier) (compact state.locals)) :
      Declares grown offset bound (compact earlier) state (.chop delta 3) ∧
        (StackMap.Frame.chop delta 3).encode.length = 3 ∧ 7 ≤ frame.encode.length := by
    have room := Nat.le_trans (length_flatMap_expand_compact earlierPaired) earlierRoomy
    refine ⟨declares_chop paired roomy room empty leaves, rfl, ?_⟩
    rw [width, empty]
    exact seven_le_chosenWidth leaves
  refine ⟨⟨?_, fun shallow => ?_, fun coherent fits => ?_⟩,
    ⟨fun smallest short => ?_, fun unlisted other rival encodable same found => ?_⟩, beaten⟩
  · have placed := delta_encodeFrame delta (compact earlier) (compact state.locals)
      state.stack.reverse pool
    rwa [encoded] at placed
  · have fewLocals :=
      Nat.le_trans (length_le_flatMap_expand _) (length_flatMap_expand_compact paired)
    have bounded := bound.toNat_lt
    exact encodable_of_encodeFrame (by omega) (by simpa using shallow) encoded
  · exact ⟨_, _, expandFrame_of_encodeFrame coherent listed encoded fits (.refl _),
      ofCompact_compact paired roomy⟩
  · obtain ⟨declares, three, seven⟩ := beaten short.1 short.2
    have less := smallest grown (.chop delta 3) ⟨by decide, by decide⟩ rfl declares
    omega
  · obtain ⟨locals, stack, expanded, declared⟩ := found
    obtain ⟨⟨count, rfl⟩, rfl⟩ := eq_append_of_ofCompact paired declared
    obtain ⟨bytes, least, form⟩ := exists_form_of_expandFrame encodable expanded
    rw [same] at form
    have smallest :=
      chosenWidth_le_of_form (trimmed_compact earlier)
        (fun empty leaves => unlisted ⟨by simpa using empty, leaves⟩) form
    rw [chosenWidth_map_written] at smallest
    omega

/-- A long that is new behind an int is appended, and no frame takes fewer than its four bytes. -/
theorem smallest_of_appendedLong :
    (encodeFrame 5 (compact [.integer]) (compact [.integer, .long, .top]) [] .empty).1 =
        .append 5 [.long] ∧
      ∀ other rival,
        rival.Encodable →
          rival.delta = 5 →
            Declares other 5 3 (compact [.integer]) ⟨[.integer, .long, .top], []⟩ rival →
              (StackMap.Frame.append 5 [.long]).encode.length ≤ rival.encode.length := by
  have written :
      encodeFrame 5 (compact [.integer]) (compact [.integer, .long, .top]) [] .empty =
        (.append 5 [.long], .empty) :=
    rfl
  obtain ⟨_, smallest, _⟩ :=
    @smallest_of_encodeFrame .empty .empty 5 5 3 [.integer] ⟨[.integer, .long, .top], []⟩
      (.append 5 [.long]) (by decide) (by decide) (by decide) (by decide) written
  refine ⟨by rw [written], smallest.mpr ?_⟩
  rintro ⟨_, count, some, left⟩
  have lengths := congrArg List.length left
  simp [show compact [.integer] = [.integer] from rfl] at lengths
  omega

/--
Where a branch leaves out what the other has stored, the frame lists the locals in
full, though dropping three of those before declares the same in fewer bytes.
-/
theorem exists_smaller :
    ∃ analysis,
      FrameAnalysis.ofCode ⟨"A", 8, "m", "(I)V", 1⟩
          [0x1A, 0x99, 0x00, 0x0E, 0x03, 0x3D, 0x03, 0x3E, 0x03, 0x36, 0x04, 0xA7, 0x00, 0x03, 0x00,
            0xB1] [] ⟨#[], 0, ∅⟩ ⟨[], ∅, true⟩ =
          .ok analysis ∧
        analysis.frames.toList =
            [(14, ⟨[.integer, .top, .integer, .integer, .integer], []⟩),
              (15, ⟨[.integer, .top, .top, .top, .top], []⟩)] ∧
          (analysis.stackMapTable .empty).1 =
              [.full 14 [.integer, .top, .integer, .integer, .integer] [], .full 0 [.integer] []] ∧
            (StackMap.Frame.full 0 [.integer] []).encode.length = 8 ∧
              Declares .empty 15 5 [.integer, .top, .integer, .integer, .integer]
                  ⟨[.integer, .top, .top, .top, .top], []⟩ (.chop 0 3) ∧
                (StackMap.Frame.chop 0 3).encode.length = 3 := by
  have evaluated :
      (FrameAnalysis.ofCode ⟨"A", 8, "m", "(I)V", 1⟩
          [0x1A, 0x99, 0x00, 0x0E, 0x03, 0x3D, 0x03, 0x3E, 0x03, 0x36, 0x04, 0xA7, 0x00, 0x03, 0x00,
            0xB1] [] ⟨#[], 0, ∅⟩ ⟨[], ∅, true⟩).toOption.map
        (fun analysis => (analysis.frames.toList, (analysis.stackMapTable .empty).1)) =
        some
          ([(14, ⟨[.integer, .top, .integer, .integer, .integer], []⟩),
              (15, ⟨[.integer, .top, .top, .top, .top], []⟩)],
            [.full 14 [.integer, .top, .integer, .integer, .integer] [], .full 0 [.integer] []]) := by
    decide +kernel
  obtain ⟨analysis, found, results⟩ := Option.map_eq_some_iff.mp evaluated
  rw [Prod.mk.injEq] at results
  exact ⟨analysis, toOption_eq_some_iff.mp found, results.1, results.2, rfl,
    ⟨[.integer, .top], [], rfl, rfl⟩, rfl⟩

end FrameState
end JvmClass
