import JvmClass.Proofs.Body.Assembled
import JvmClass.Proofs.Body.RoundTrip

namespace JvmClass

/-!
# Frames at new offsets

Frames of a body are held by labels and written by distances.  Distances can be
given exactly if the labels lie in ascending order, and whoever walks them again,
a reader or a check, gets to the offsets of the labels.  The frames say what they
said before, in the form that the new distance asks for.
-/

namespace StackMap

/-- What a frame says, wherever it stands. -/
inductive Content where
  | same
  | oneStack (value : TypeInfo)
  | chop (count : UInt8)
  | append (locals : List TypeInfo)
  | full (locals stack : List TypeInfo)
  deriving Repr, DecidableEq

/-- The numbers of locals and stack values fit the bytes that hold them. -/
def Content.Countable : Content → Prop
  | .same | .oneStack _ => True
  | .chop count => 1 ≤ count ∧ count ≤ 3
  | .append locals => 1 ≤ locals.length ∧ locals.length ≤ 3
  | .full locals stack => locals.length < 2 ^ 16 ∧ stack.length < 2 ^ 16

namespace Frame

/-- What a frame says, apart from its distance and its form. -/
def content : Frame → Content
  | .same _ | .sameExtended _ => .same
  | .oneStack _ value | .oneStackExtended _ value => .oneStack value
  | .chop _ count => .chop count
  | .append _ locals => .append locals
  | .full _ locals stack => .full locals stack

/-- A frame with a short and an extended form is short exactly if its distance is. -/
def FormFits : Frame → Prop
  | .same delta | .oneStack delta _ => delta ≤ shortLimit
  | .sameExtended delta | .oneStackExtended delta _ => shortLimit < delta
  | .chop .. | .append .. | .full .. => True

@[simp] theorem content_withDelta
    (frame : Frame)
    (delta : UInt16) :
    (frame.withDelta delta).content = frame.content := by
  cases frame <;> simp only [withDelta, sameAt, oneStackAt] <;> (try split) <;> rfl

theorem formFits_withDelta
    (frame : Frame)
    (delta : UInt16) :
    (frame.withDelta delta).FormFits := by
  have long (notShort : ¬ delta ≤ shortLimit) : shortLimit < delta := UInt16.not_le.mp notShort
  cases frame with
  | same | sameExtended =>
      rw [withDelta, sameAt]
      split
      · assumption
      · exact long ‹_›
  | oneStack | oneStackExtended =>
      rw [withDelta, oneStackAt]
      split
      · assumption
      · exact long ‹_›
  | chop | append | full => trivial

/-- A frame in the form of its distance can be encoded if its types can be counted. -/
theorem encodable_of_formFits
    {frame : Frame}
    (fits : frame.FormFits)
    (countable : frame.content.Countable) :
    frame.Encodable := by
  cases frame with
  | same | oneStack => exact fits
  | sameExtended | oneStackExtended => trivial
  | chop | append | full => exact countable

end Frame
end StackMap

namespace Body

/-! ## Offsets from distances -/

/-- Distances lead to one list of offsets, whether or not these are looked up in a body. -/
theorem Decoded.FramesAt.eq_of_spaced
    {decoded : Decoded}
    {base : Nat}
    {frames : List StackMap.Frame}
    {rows others : List (Nat × StackMap.Frame)}
    (framesAt : decoded.FramesAt base frames rows)
    (spaced : Spaced base frames others) :
    rows = others := by
  induction framesAt generalizing others with
  | nil base =>
      cases spaced
      rfl
  | cons _ _ _ inductionHypothesis =>
      cases spaced with
      | cons _ later => rw [inductionHypothesis later]

theorem relocateFrames_cons
    {labels : PlacedLabels}
    {done : List StackMap.Frame}
    {previous : Option UInt16}
    {first : PlacedFrame}
    {rest : List PlacedFrame}
    {offset : UInt16}
    (found : labels.offset first.label = .ok offset) :
    relocateFrames labels done previous (first :: rest) =
      if previous.any (offset ≤ ·) then
        .error (.inconsistentFrame offset .outOfOrder)
      else
        relocateFrames labels
          (first.frame.withDelta (FrameState.deltaFrom previous offset) :: done)
          (some offset) rest := by
  rw [relocateFrames, found]
  rfl

section Placed

variable {labels : PlacedLabels} {frames : List PlacedFrame} {offsets : List UInt16}
  (placed :
    List.Forall₂ (fun frame offset => labels.offset frame.label = .ok offset) frames offsets)
include placed

theorem places_eq_of_placed :
    frames.map (fun frame => labels.place frame.label) = offsets.map UInt16.toNat := by
  induction placed with
  | nil => rfl
  | cons found _ inductionHypothesis =>
      rw [List.map_cons, List.map_cons, inductionHypothesis, PlacedLabels.place_of_offset found]

/-- Placed frames can be moved exactly if their labels lie in ascending order. -/
theorem exists_relocateFrames_iff
    {done : List StackMap.Frame}
    {previous : Option UInt16} :
    (∃ moved, relocateFrames labels done previous frames = .ok moved) ↔
      (previous.toList ++ offsets).IsChain (· < ·) := by
  induction placed generalizing done previous with
  | nil => cases previous <;> simp [relocateFrames]
  | cons found _ inductionHypothesis =>
      rw [relocateFrames_cons found]
      cases previous with
      | none => exact inductionHypothesis
      | some previous =>
          simp only [Option.any_some, decide_eq_true_iff, Option.toList_some,
            List.singleton_append, List.isChain_cons_cons]
          split
          · rename_i notBehind
            simp [UInt16.not_lt.mpr notBehind]
          · rename_i behind
            exact inductionHypothesis.trans
              (iff_and_self.mpr fun _ => UInt16.not_le.mp behind)

/-- The frames of a moved table lie at the offsets of their labels. -/
theorem frameRows_of_placed
    {moved : List StackMap.Frame}
    (relocated : relocateFrames labels [] none frames = .ok moved) :
    FrameRows labels 0 frames moved ((offsets.map UInt16.toNat).zip moved) ∧
      ((offsets.map UInt16.toNat).zip moved).map Prod.fst = offsets.map UInt16.toNat := by
  obtain ⟨later, rows, same, frameRows⟩ := frameRows_of_relocateFrames relocated
  obtain rfl : moved = later := by simpa using same
  have places : rows.map Prod.fst = offsets.map UInt16.toNat := by
    rw [frameRows.places_eq, List.map_map]
    exact places_eq_of_placed placed
  rw [← List.zip_of_prod places frameRows.map_snd]
  exact ⟨frameRows, places⟩

end Placed

theorem FrameRows.forall₂_moved
    {labels : PlacedLabels}
    {base : Nat}
    {frames : List PlacedFrame}
    {moved : List StackMap.Frame}
    {rows : List (Nat × StackMap.Frame)}
    (frameRows : FrameRows labels base frames moved rows) :
    List.Forall₂ (fun source frame => frame = source.frame.withDelta frame.delta) frames moved := by
  induction frameRows with
  | nil base => exact .nil
  | cons same _ _ inductionHypothesis => exact .cons same inductionHypothesis

/--
Placed frames can be moved exactly if their offsets ascend.  Decoding a body that
has instructions at these offsets finds the frames there, and so does a check of
the table.  A moved frame says the same, and its bytes are read as what it is.
-/
theorem relocateFrames_spec
    {labels : PlacedLabels}
    {frames : List PlacedFrame}
    {offsets : List UInt16}
    (placed :
      List.Forall₂ (fun frame offset => labels.offset frame.label = .ok offset) frames offsets) :
    ((∃ moved, relocateFrames labels [] none frames = .ok moved) ↔ offsets.Pairwise (· < ·)) ∧
      ∀ moved, relocateFrames labels [] none frames = .ok moved →
        (∀ (decoded : Decoded) rows,
          decoded.frameOffsets [] 0 moved = .ok rows ↔
            rows = (offsets.map UInt16.toNat).zip moved ∧
              ∀ offset ∈ offsets,
                offset.toNat < decoded.size ∧ decoded.isBoundary offset.toNat = true) ∧
          Verify.tableOffsets none moved = offsets ∧
          List.Forall₂
            (fun source frame =>
              frame.content = source.frame.content ∧ frame.FormFits ∧
                (frame.content.Countable → StackMap.Frame.reader.Reads frame.encode frame))
            frames moved := by
  refine ⟨?_, fun moved relocated => ?_⟩
  · rw [exists_relocateFrames_iff placed, Option.toList_none, List.nil_append,
      List.isChain_iff_pairwise]
  obtain ⟨frameRows, numbered⟩ := frameRows_of_placed placed relocated
  refine ⟨fun decoded rows => ?_, ?_, ?_⟩
  · rw [Decoded.frameOffsets_eq_ok_iff]
    constructor
    · rintro ⟨_, framesAt, rfl⟩
      obtain rfl := framesAt.eq_of_spaced frameRows.spaced
      refine ⟨rfl, fun offset member => ?_⟩
      obtain ⟨row, among, same⟩ := List.mem_map.mp (numbered ▸ List.mem_map_of_mem member)
      rw [← same]
      exact (framesAt.placed.2 row among).symm
    · rintro ⟨rfl, inside⟩
      refine ⟨_, Reassembled.framesAt_of_frameRows frameRows fun frame member => ?_, rfl⟩
      obtain ⟨offset, among, same⟩ :=
        List.mem_map.mp (places_eq_of_placed placed ▸ List.mem_map_of_mem member)
      rw [← same]
      exact (inside offset among).symm
  · rw [@Spaced.tableOffsets_eq 0 none _ _ frameRows.spaced rfl]
    have again := congrArg (List.map UInt16.ofNat) numbered
    simpa [Function.comp_def] using again
  · refine frameRows.forall₂_moved.imp fun source frame same => ?_
    rw [same]
    have fits := source.frame.formFits_withDelta frame.delta
    refine ⟨StackMap.Frame.content_withDelta .., fits, fun countable => ?_⟩
    exact StackMap.Frame.reads_of_encodable (StackMap.Frame.encodable_of_formFits fits countable)

/-- Frames of stale distances are moved to where their labels lie now. -/
theorem relocateFrames_stale :
    let labels : PlacedLabels := Std.TreeMap.ofList [((4 : Label), (0 : UInt16)), (5, 70), (6, 71)] compare
    let frames : List PlacedFrame :=
      [⟨4, .sameExtended 900⟩, ⟨5, .same 3⟩, ⟨6, .oneStackExtended 70 .integer⟩]
    let moved : List StackMap.Frame := [.same 0, .sameExtended 69, .oneStack 0 .integer]
    relocateFrames labels [] none frames = .ok moved ∧
      Verify.tableOffsets none moved = [0, 70, 71] := by
  intro labels frames moved
  have placed :
      List.Forall₂ (fun frame offset => labels.offset frame.label = .ok offset) frames
        [0, 70, 71] :=
    .cons (by decide +kernel) (.cons (by decide +kernel) (.cons (by decide +kernel) .nil))
  have relocated : relocateFrames labels [] none frames = .ok moved := by decide +kernel
  exact ⟨relocated, ((relocateFrames_spec placed).2 moved relocated).2.1⟩

end Body
end JvmClass
