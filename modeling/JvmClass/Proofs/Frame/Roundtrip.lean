import JvmClass.Proofs.Frame.Declared
import JvmClass.Proofs.Frame.Table
import JvmClass.Proofs.Pool.Growing

namespace JvmClass

/-!
# Frames are read as they were written

The frames of a table are written one against the other, without what can be left
out.  Reading them one after another gives the states that they were written for,
with the locals filled up, and with `top` in each place that cannot be loaded.
-/

namespace SlotType

/-- Behind each long or double local is the place that belongs to it. -/
def Paired : List SlotType → Prop
  | [] => True
  | type :: rest => (type.isWide = true → rest.head? = some .top) ∧ Paired rest

instance decidablePaired : (locals : List SlotType) → Decidable (Paired locals)
  | [] => .isTrue trivial
  | type :: rest =>
      have : Decidable (Paired rest) := decidablePaired rest
      inferInstanceAs (Decidable ((type.isWide = true → rest.head? = some .top) ∧ Paired rest))

@[simp] theorem isWide_written (type : SlotType) : type.written.isWide = type.isWide := by
  cases type <;> rfl

@[simp] theorem written_written (type : SlotType) : type.written.written = type.written := by
  cases type <;> rfl

theorem expand_written_of_narrow
    {type : SlotType}
    (narrow : type.isWide = false) :
    type.written.expand = [type.written] := by
  simp [expand, narrow]

/-- Folded locals expand to themselves as they are written. -/
theorem flatMap_expand_fold
    {done locals : List SlotType}
    (paired : Paired locals) :
    (fold done locals).flatMap expand = done.reverse.flatMap expand ++ locals.map written := by
  fun_induction fold done locals with
  | case1 done => simp
  | case2 done type =>
      have narrow : type.isWide = false := by
        cases wide : type.isWide
        · rfl
        · exact absurd (paired.1 wide) (by simp)
      simp [expand_written_of_narrow narrow]
  | case3 done type next rest folds inductionHypothesis =>
      obtain ⟨wide, rfl⟩ := folds
      have expanded : type.written.expand = [type.written, .top] := by simp [expand, wide]
      rw [inductionHypothesis paired.2.2]
      simp [expanded, show written .top = .top from rfl]
  | case4 done type next rest folds inductionHypothesis =>
      have narrow : type.isWide = false := by
        cases wide : type.isWide
        · rfl
        · exact absurd ⟨wide, Option.some.inj (paired.1 wide)⟩ folds
      rw [inductionHypothesis paired.2]
      simp [expand_written_of_narrow narrow]

/-- What is dropped at the end of locals is `top`. -/
theorem exists_eq_dropTrailingTop (locals : List SlotType) :
    ∃ count, locals = dropTrailingTop locals ++ List.replicate count .top := by
  refine ⟨(locals.reverse.takeWhile (· = .top)).length, ?_⟩
  have tops :
      locals.reverse.takeWhile (· = .top) =
        List.replicate (locals.reverse.takeWhile (· = .top)).length .top := by
    refine List.eq_replicate_of_mem fun type member => ?_
    simpa using List.all_eq_true.mp List.all_takeWhile type member
  have split := List.takeWhile_append_dropWhile (p := (· = .top)) (l := locals.reverse)
  calc
    locals = (locals.reverse.takeWhile (· = .top) ++ locals.reverse.dropWhile (· = .top)).reverse := by
      rw [split, List.reverse_reverse]
    _ = _ := by
      rw [List.reverse_append, tops, List.reverse_replicate]
      simp [dropTrailingTop]

/-- Compact locals expand to themselves as they are written, without `top` at the end. -/
theorem exists_expand_compact
    {locals : List SlotType}
    (paired : Paired locals) :
    ∃ count,
      locals.map written = (compact locals).flatMap expand ++ List.replicate count .top := by
  obtain ⟨count, shape⟩ := exists_eq_dropTrailingTop (fold [] locals)
  refine ⟨count, ?_⟩
  have expanded : (fold [] locals).flatMap expand = locals.map written := by
    simpa using @flatMap_expand_fold [] locals paired
  have tops : (List.replicate count SlotType.top).flatMap expand = List.replicate count .top := by
    simp [List.flatMap_replicate, expand, isWide]
  rw [← expanded, shape, List.flatMap_append, tops]
  rfl

theorem eq_written_of_mem_compact
    {locals : List SlotType}
    {type : SlotType}
    (member : type ∈ compact locals) :
    type.written = type := by
  obtain ⟨held, _, rfl⟩ := mem_compact member
  exact written_written held

theorem padTo_append_replicate
    {size count : Nat}
    {locals : List SlotType}
    (short : locals.length + count ≤ size) :
    padTo size (locals ++ List.replicate count .top) = padTo size locals := by
  simp only [padTo, List.append_assoc, List.replicate_append_replicate, List.length_append,
    List.length_replicate]
  congr 2
  omega

/-! ## Types -/

section Types

variable {pool grown later : Pool}

/-- A type is read as it was written, in every later pool. -/
theorem ofTypeInfo_of_toTypeInfo
    {type : SlotType}
    {info : StackMap.TypeInfo}
    (coherent : pool.Coherent)
    (encoded : type.toTypeInfo pool = (info, grown))
    (fits : grown.size ≤ 2 ^ 16)
    (kept : Entry.Extends grown.entries later.entries) :
    ofTypeInfo later info = .ok type.written := by
  cases type with
  | object name =>
      rcases interned : Pool.internClass name pool with ⟨number, after⟩
      simp only [toTypeInfo, bind, StateT.bind, interned, pure_apply] at encoded
      cases encoded
      have stands := (Pool.advances_internClass coherent interned fits).2
      have named : later.className number = .ok name := kept.classNameAt stands
      simp [ofTypeInfo, named, written]
  | _ =>
      cases encoded
      rfl

theorem mapM_ofTypeInfo_of_toTypeInfo
    {types : List SlotType}
    {infos : List StackMap.TypeInfo}
    (coherent : pool.Coherent)
    (encoded : types.mapM toTypeInfo pool = (infos, grown))
    (fits : grown.size ≤ 2 ^ 16)
    (kept : Entry.Extends grown.entries later.entries) :
    infos.mapM (ofTypeInfo later) = .ok (types.map written) := by
  induction types generalizing pool infos with
  | nil =>
      cases encoded
      rfl
  | cons type rest inductionHypothesis =>
      rcases first : type.toTypeInfo pool with ⟨info, middle⟩
      rcases others : rest.mapM toTypeInfo middle with ⟨restInfos, last⟩
      simp only [List.mapM_cons, bind, StateT.bind, first, others, pure_apply] at encoded
      cases encoded
      have leads := growing_toTypeInfo type pool
      have restLeads := growing_mapM_toTypeInfo rest middle
      rw [first] at leads
      rw [others] at restLeads
      have middleFits : middle.size ≤ 2 ^ 16 := Nat.le_trans restLeads.kept.size_le fits
      have typeRead : ofTypeInfo later info = .ok type.written :=
        ofTypeInfo_of_toTypeInfo coherent first middleFits (restLeads.kept.trans kept)
      have restRead :=
        inductionHypothesis (leads.advances coherent middleFits).coherent others
      simp [typeRead, restRead, bind, Except.bind, pure, Except.pure]

end Types

end SlotType

namespace FrameState

section Frames

variable {pool grown later : Pool} {delta offset : UInt16} {previous locals stack : List SlotType}
  {frame : StackMap.Frame}

theorem eq_append_of_extendsBy3
    {longer shorter : List SlotType}
    (longer3 : extendsBy3 longer shorter = true) :
    longer = shorter ++ longer.drop shorter.length ∧ longer.length ≤ shorter.length + 3 := by
  simp only [extendsBy3, Bool.and_eq_true, decide_eq_true_eq, beq_iff_eq] at longer3
  obtain ⟨⟨_, near⟩, begins⟩ := longer3
  refine ⟨?_, by omega⟩
  conv_lhs => rw [← List.take_append_drop shorter.length longer, begins]

/-- A frame that lists everything is read as it was written. -/
theorem expandFrame_of_full
    (coherent : pool.Coherent)
    (listed : locals.map SlotType.written = locals)
    (encoded :
      (do
        let locals ← locals.mapM SlotType.toTypeInfo
        let stack ← stack.mapM SlotType.toTypeInfo
        return .full delta locals stack : StateM Pool StackMap.Frame) pool = (frame, grown))
    (fits : grown.size ≤ 2 ^ 16)
    (kept : Entry.Extends grown.entries later.entries) :
    expandFrame later offset previous frame = .ok (locals, stack.map SlotType.written) := by
  rcases first : locals.mapM SlotType.toTypeInfo pool with ⟨localInfos, middle⟩
  rcases second : stack.mapM SlotType.toTypeInfo middle with ⟨stackInfos, last⟩
  simp only [bind, StateT.bind, first, second, pure_apply] at encoded
  cases encoded
  have leads := SlotType.growing_mapM_toTypeInfo locals pool
  have stackLeads := SlotType.growing_mapM_toTypeInfo stack middle
  rw [first] at leads
  rw [second] at stackLeads
  have middleFits : middle.size ≤ 2 ^ 16 := Nat.le_trans stackLeads.kept.size_le fits
  have localsRead :=
    SlotType.mapM_ofTypeInfo_of_toTypeInfo coherent first middleFits (stackLeads.kept.trans kept)
  have stackRead :=
    SlotType.mapM_ofTypeInfo_of_toTypeInfo (leads.advances coherent middleFits).coherent second fits
      kept
  rw [listed] at localsRead
  exact bind_eq_ok_iff.mpr ⟨locals, localsRead, bind_eq_ok_iff.mpr ⟨_, stackRead, rfl⟩⟩

/-- A frame is read as it was written, behind the same frame and in every later pool. -/
theorem expandFrame_of_encodeFrame
    (coherent : pool.Coherent)
    (listed : locals.map SlotType.written = locals)
    (encoded : encodeFrame delta previous locals stack pool = (frame, grown))
    (fits : grown.size ≤ 2 ^ 16)
    (kept : Entry.Extends grown.entries later.entries) :
    expandFrame later offset previous frame = .ok (locals, stack.map SlotType.written) := by
  unfold encodeFrame at encoded
  cases agree : locals == previous with
  | true =>
      obtain rfl := beq_iff_eq.mp agree
      rw [agree] at encoded
      rcases stack with _ | ⟨value, _ | ⟨next, rest⟩⟩
      · cases encoded
        unfold StackMap.Frame.sameAt
        split <;> rfl
      · rcases first : value.toTypeInfo pool with ⟨info, last⟩
        simp only [bind, StateT.bind, first, pure_apply] at encoded
        cases encoded
        have read := SlotType.ofTypeInfo_of_toTypeInfo coherent first fits kept
        unfold StackMap.Frame.oneStackAt
        split <;> exact bind_eq_ok_iff.mpr ⟨_, read, rfl⟩
      · exact expandFrame_of_full coherent listed encoded fits kept
  | false =>
      rw [agree] at encoded
      rcases stack with _ | ⟨value, rest⟩
      · simp only [List.isEmpty_nil, Bool.true_and] at encoded
        split at encoded
        · rename_i appends
          obtain ⟨shape, _⟩ := eq_append_of_extendsBy3 appends
          rcases first : (locals.drop previous.length).mapM SlotType.toTypeInfo pool with ⟨infos, last⟩
          simp only [bind, StateT.bind, first, pure_apply] at encoded
          cases encoded
          have read := SlotType.mapM_ofTypeInfo_of_toTypeInfo coherent first fits kept
          rw [List.map_drop, listed] at read
          exact bind_eq_ok_iff.mpr ⟨_, read, by rw [← shape]; rfl⟩
        · split at encoded
          · rename_i chops
            cases encoded
            obtain ⟨shape, near⟩ := eq_append_of_extendsBy3 chops
            have longer : locals.length ≤ previous.length := by
              rw [shape, List.length_append]
              exact Nat.le_add_right ..
            have count :
                (UInt8.ofNat (previous.length - locals.length)).toNat =
                  previous.length - locals.length :=
              UInt8.toNat_ofNat_of_lt' (by show _ < 2 ^ 8; omega)
            have rest : previous.take locals.length = locals := by
              rw [shape, List.take_left' rfl]
            simp only [expandFrame, count]
            rw [if_pos (Nat.sub_le ..), Nat.sub_sub_self longer, rest]
            rfl
          · exact expandFrame_of_full coherent listed encoded fits kept
      · simp only [List.isEmpty_cons, Bool.false_and, Bool.false_eq_true, if_false] at encoded
        exact expandFrame_of_full coherent listed encoded fits kept

/-! ## States -/

/-- What a frame says of a state: no place but can be loaded, and none is missing. -/
def declared (bound : UInt16) (state : FrameState) : FrameState :=
  ⟨SlotType.padTo bound.toNat (state.locals.map SlotType.written),
    state.stack.map SlotType.written⟩

/-- Locals that are listed without what can be left out are filled up again. -/
theorem ofCompact_compact
    {bound : UInt16}
    {state : FrameState}
    (paired : SlotType.Paired state.locals)
    (roomy : state.locals.length ≤ bound.toNat) :
    ofCompact offset bound (SlotType.compact state.locals)
        (state.stack.reverse.map SlotType.written) =
      .ok (state.declared bound) := by
  obtain ⟨count, shape⟩ := SlotType.exists_expand_compact paired
  have lengths := congrArg List.length shape
  simp only [List.length_map, List.length_append, List.length_replicate] at lengths
  have filled :
      SlotType.padTo bound.toNat ((SlotType.compact state.locals).flatMap SlotType.expand) =
        SlotType.padTo bound.toNat (state.locals.map SlotType.written) := by
    rw [shape, SlotType.padTo_append_replicate (by omega)]
  unfold ofCompact
  simp only
  rw [if_neg (by omega), filled, List.map_reverse, List.reverse_reverse]
  rfl

/-- Rows of a table are read as they were written, behind the same frame. -/
theorem expandFrames_of_encodeFrames
    {done table : List StackMap.Frame}
    {last : Option UInt16}
    {rows : List (UInt16 × FrameState)}
    {bound : UInt16}
    (coherent : pool.Coherent)
    (paired : ∀ row ∈ rows, SlotType.Paired row.2.locals)
    (roomy : ∀ row ∈ rows, row.2.locals.length ≤ bound.toNat)
    (encoded : encodeFrames done last previous rows pool = (table, grown))
    (fits : grown.size ≤ 2 ^ 16)
    (states : Std.TreeMap UInt16 FrameState) :
    ∃ frames,
      table = done.reverse ++ frames ∧
        expandFrames grown bound states previous ((rows.map Prod.fst).zip frames) =
          .ok (states.insertMany (rows.map fun row => (row.1, row.2.declared bound))) := by
  induction rows generalizing done last previous pool states with
  | nil =>
      cases encoded
      exact ⟨[], by simp, by simp [expandFrames]⟩
  | cons row rest inductionHypothesis =>
      obtain ⟨offset, state⟩ := row
      rw [List.forall_mem_cons] at paired roomy
      rcases first :
          encodeFrame (deltaFrom last offset) previous (SlotType.compact state.locals)
            state.stack.reverse pool with
        ⟨frame, middle⟩
      have behind :
          encodeFrames (frame :: done) (some offset) (SlotType.compact state.locals) rest middle =
            (table, grown) := by
        rw [← encoded]
        simp only [encodeFrames, bind, StateT.bind, first]
      have leads := growing_encodeFrame (deltaFrom last offset) previous
        (SlotType.compact state.locals) state.stack.reverse pool
      have restLeads := growing_encodeFrames (frame :: done) (some offset)
        (SlotType.compact state.locals) rest middle
      rw [first] at leads
      rw [behind] at restLeads
      have middleFits : middle.size ≤ 2 ^ 16 := Nat.le_trans restLeads.kept.size_le fits
      have listed :
          (SlotType.compact state.locals).map SlotType.written = SlotType.compact state.locals := by
        simpa using List.map_congr_left fun type => SlotType.eq_written_of_mem_compact
      have read :
          expandFrame grown offset previous frame =
            .ok (SlotType.compact state.locals, state.stack.reverse.map SlotType.written) :=
        expandFrame_of_encodeFrame coherent listed first middleFits restLeads.kept
      obtain ⟨frames, shape, restRead⟩ :=
        inductionHypothesis (leads.advances coherent middleFits).coherent paired.2 roomy.2 behind
          (states.insert offset (state.declared bound))
      refine ⟨frame :: frames, by simp [shape], ?_⟩
      rw [List.map_cons, List.zip_cons_cons, List.map_cons, Std.TreeMap.insertMany_cons]
      exact
        bind_eq_ok_iff.mpr
          ⟨_, read, bind_eq_ok_iff.mpr ⟨_, ofCompact_compact paired.1 roomy.1, restRead⟩⟩

end Frames

end FrameState

/-- Entries that are changed one by one are found where they were. -/
theorem getElem?_insertMany_map_toList
    {α β : Type}
    {change : α → β}
    {entries : Std.TreeMap UInt16 α}
    (key : UInt16) :
    ((∅ : Std.TreeMap UInt16 β).insertMany (entries.toList.map fun row => (row.1, change row.2)))[key]? =
      entries[key]?.map change := by
  cases found : entries[key]? with
  | some value =>
      have listed := Std.TreeMap.mem_toList_iff_getElem?_eq_some.mpr found
      refine Std.TreeMap.getElem?_insertMany_list_of_mem Std.ReflCmp.compare_self ?_
        (List.mem_map_of_mem listed)
      exact List.pairwise_map.mpr Std.TreeMap.distinct_keys_toList
  | none =>
      refine (Std.TreeMap.getElem?_insertMany_list_of_contains_eq_false ?_).trans (by simp)
      by_contra contained
      simp only [Bool.not_eq_false, List.contains_iff_mem, List.mem_map] at contained
      obtain ⟨_, ⟨row, listed, rfl⟩, rfl⟩ := contained
      rw [Std.TreeMap.mem_toList_iff_getElem?_eq_some.mp listed] at found
      cases found

/--
A stack map table declares the states that it was written for.  Its frames lie where
the states do, and what is declared there, in the pool that has grown by writing, is
the state with its locals filled up and with `top` in each place that cannot be loaded.
-/
theorem FrameAnalysis.declaredStates_stackMapTable
    {method : MethodContext}
    {analysis : FrameAnalysis}
    {pool grown : Pool}
    {table : List StackMap.Frame}
    {bound : UInt16}
    (entered : FrameState.initial method = .ok analysis.initial)
    (coherent : pool.Coherent)
    (paired : ∀ row ∈ analysis.frames.toList, SlotType.Paired row.2.locals)
    (roomy : ∀ row ∈ analysis.frames.toList, row.2.locals.length ≤ bound.toNat)
    (encoded : analysis.stackMapTable pool = (table, grown))
    (short : grown.size ≤ 65535) :
    Verify.tableOffsets none table = analysis.frames.keys ∧
      ∃ states,
        FrameState.declaredStates method ((Verify.tableOffsets none table).zip table) bound grown =
            .ok states ∧
          ∀ offset : UInt16,
            states[offset]? = analysis.frames[offset]?.map (FrameState.declared bound) := by
  have offsets : Verify.tableOffsets none table = analysis.frames.keys := by
    have placed := analysis.tableOffsets_stackMapTable pool
    rwa [encoded] at placed
  have fits : grown.size ≤ 2 ^ 16 := by omega
  obtain ⟨frames, shape, read⟩ :=
    FrameState.expandFrames_of_encodeFrames coherent paired roomy encoded fits ∅
  rw [List.reverse_nil, List.nil_append] at shape
  subst shape
  rw [Std.TreeMap.map_fst_toList_eq_keys, ← offsets] at read
  refine ⟨offsets, _, bind_eq_ok_iff.mpr ⟨_, mapError_eq_ok_iff.mpr entered, read⟩, ?_⟩
  exact getElem?_insertMany_map_toList


/-- An analysis of a static method with a `long` parameter, and with a local left in conflict. -/
def FrameAnalysis.conflicting : FrameAnalysis where
  maxStack := 1
  maxLocals := 4
  initial := ⟨[.long, .top], []⟩
  states := []
  frames :=
    (∅ : Std.TreeMap UInt16 FrameState)
      |>.insert 3 ⟨[.long, .top, .object "A", .unmerged], []⟩
      |>.insert 9 ⟨[], [.object "A"]⟩

/-- A `long` comes back with its place, and what two paths left in conflict as `top`. -/
theorem FrameAnalysis.declaredStates_conflicting :
    ∃ (table : List StackMap.Frame) (grown : Pool),
      conflicting.stackMapTable .empty = (table, grown) ∧
        table = [.append 3 [.object 2], .full 5 [] [.object 2]] ∧
          grown.size ≤ 65535 ∧
            ∃ states,
              FrameState.declaredStates ⟨"A", 8, "run", "(J)V", 5⟩
                    ((Verify.tableOffsets none table).zip table) 5 grown =
                  .ok states ∧
                states[(3 : UInt16)]? = some ⟨[.long, .top, .object "A", .top, .top], []⟩ ∧
                  states[(9 : UInt16)]? = some ⟨[.top, .top, .top, .top, .top], [.object "A"]⟩ := by
  have coherent : Pool.empty.Coherent :=
    Pool.coherent_of_ofEntries (by decide) (rfl : Pool.ofEntries #[.unusable] = .ok .empty)
  have entered : FrameState.initial ⟨"A", 8, "run", "(J)V", 5⟩ = .ok conflicting.initial := by
    decide +kernel
  have paired : ∀ row ∈ conflicting.frames.toList, SlotType.Paired row.2.locals := by
    decide +kernel
  have roomy : ∀ row ∈ conflicting.frames.toList, row.2.locals.length ≤ (5 : UInt16).toNat := by
    decide +kernel
  have short : (conflicting.stackMapTable .empty).2.size ≤ 65535 := by decide +kernel
  obtain ⟨_, states, found, same⟩ :=
    FrameAnalysis.declaredStates_stackMapTable entered coherent paired roomy rfl short
  refine ⟨_, _, rfl, by decide +kernel, short, states, found, (same 3).trans ?_, (same 9).trans ?_⟩
  · decide +kernel
  · decide +kernel

end JvmClass
