import JvmClass.Frame.Encode
import JvmClass.Verify

namespace JvmClass

/-!
# Where encoded frames lie

Frames are encoded by their distance from the frame before.  The offsets that
the distances add up to again are those of the states that were encoded.
-/

namespace FrameState

/-- A frame that is encoded at a distance is at that distance. -/
theorem delta_encodeFrame
    (delta : UInt16)
    (previous locals stack : List SlotType)
    (pool : Pool) :
    (encodeFrame delta previous locals stack pool).1.delta = delta := by
  have short : (StackMap.Frame.sameAt delta).delta = delta := by
    unfold StackMap.Frame.sameAt
    split <;> rfl
  have shortStack (value : StackMap.TypeInfo) :
      (StackMap.Frame.oneStackAt delta value).delta = delta := by
    unfold StackMap.Frame.oneStackAt
    split <;> rfl
  unfold encodeFrame
  cases locals == previous with
  | true =>
      rcases stack with _ | ⟨value, _ | ⟨next, rest⟩⟩
      · exact short
      · exact shortStack _
      · rfl
  | false =>
      rcases stack with _ | ⟨value, _ | ⟨next, rest⟩⟩
      · simp only
        split
        · rfl
        · split <;> rfl
      · rfl
      · rfl

/-- The distance from an offset before leads to the offset again. -/
theorem add_deltaFrom
    {previous offset : UInt16}
    (later : previous < offset) :
    UInt16.ofNat
        (min 0xFFFF (previous.toNat + (deltaFrom (some previous) offset).toNat + 1)) =
      offset := by
  have above := UInt16.lt_iff_toNat_lt.mp later
  have bound := offset.toNat_lt
  have distance : (deltaFrom (some previous) offset).toNat = offset.toNat - previous.toNat - 1 := by
    simp only [deltaFrom, UInt16.toNat_sub, UInt16.toNat_one]
    omega
  have sum :
      min 0xFFFF (previous.toNat + (deltaFrom (some previous) offset).toNat + 1) =
        offset.toNat := by
    omega
  rw [sum, UInt16.ofNat_toNat]

/-- Frames encoded behind others lie at the offsets of their states. -/
theorem tableOffsets_encodeFrames
    (done : List StackMap.Frame)
    {previous : Option UInt16}
    (locals : List SlotType)
    {states : List (UInt16 × FrameState)}
    (pool : Pool)
    (ascending : (states.map Prod.fst).Pairwise (· < ·))
    (behind : ∀ last ∈ previous, ∀ placed ∈ states, last < placed.1) :
    ∃ frames,
      (encodeFrames done previous locals states pool).1 = done.reverse ++ frames ∧
        Verify.tableOffsets previous frames = states.map Prod.fst := by
  induction states generalizing done previous locals pool with
  | nil => exact ⟨[], (List.append_nil _).symm, rfl⟩
  | cons first rest inductionHypothesis =>
      obtain ⟨offset, state⟩ := first
      obtain ⟨firstBelow, restAscending⟩ := List.pairwise_cons.mp ascending
      let encoded :=
        encodeFrame (deltaFrom previous offset) locals (SlotType.compact state.locals)
          state.stack.reverse pool
      have restBehind : ∀ last ∈ some offset, ∀ placed ∈ rest, last < placed.1 := by
        rintro last ⟨⟩ placed member
        exact firstBelow placed.1 (List.mem_map_of_mem member)
      obtain ⟨frames, shape, offsets⟩ :=
        inductionHypothesis (encoded.1 :: done) (SlotType.compact state.locals) encoded.2
          restAscending restBehind
      have unfolded :
          encodeFrames done previous locals ((offset, state) :: rest) pool =
            encodeFrames (encoded.1 :: done) (some offset) (SlotType.compact state.locals) rest
              encoded.2 :=
        rfl
      refine ⟨encoded.1 :: frames, by simp [unfolded, shape], ?_⟩
      have delta : encoded.1.delta = deltaFrom previous offset := delta_encodeFrame _ _ _ _ _
      cases previous with
      | none =>
          have here : encoded.1.delta = offset := delta
          simp only [Verify.tableOffsets, here, offsets]
          rfl
      | some last =>
          have here := add_deltaFrom (behind last rfl _ List.mem_cons_self)
          simp only [Verify.tableOffsets, delta, here, offsets]
          rfl

end FrameState

/-- The frames of an analysis lie at the offsets that it gives frames. -/
theorem FrameAnalysis.tableOffsets_stackMapTable
    (analysis : FrameAnalysis)
    (pool : Pool) :
    Verify.tableOffsets none (analysis.stackMapTable pool).1 = analysis.frames.keys := by
  have ascending : (analysis.frames.toList.map Prod.fst).Pairwise (· < ·) := by
    rw [Std.TreeMap.map_fst_toList_eq_keys]
    refine Std.TreeMap.ordered_keys.imp ?_
    intro left right below
    exact Std.compare_eq_lt.mp below
  have unbounded :
      ∀ last ∈ (none : Option UInt16), ∀ placed ∈ analysis.frames.toList, last < placed.1 := by
    simp
  obtain ⟨frames, shape, offsets⟩ :=
    FrameState.tableOffsets_encodeFrames [] (SlotType.compact analysis.initial.locals) pool
      ascending unbounded
  rw [List.reverse_nil, List.nil_append] at shape
  unfold stackMapTable
  rw [shape, offsets, Std.TreeMap.map_fst_toList_eq_keys]

end JvmClass
