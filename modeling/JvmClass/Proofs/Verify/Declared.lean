import JvmClass.Proofs.Body.Tables
import JvmClass.Proofs.Verify.Framed

namespace JvmClass.Body

/-!
# Where bodies declare frames

A check reads the offsets of frames off their distances without failing.  Where a
body can be decoded these are the offsets that decoding gives the frames.
-/

open Verify

/-- Frames lie where their distances put them, all inside of what can be counted. -/
inductive Spaced : Nat → List StackMap.Frame → List (Nat × StackMap.Frame) → Prop
  | nil (base : Nat) : Spaced base [] []
  | cons
      {base : Nat}
      {frame : StackMap.Frame}
      {frames : List StackMap.Frame}
      {placed : List (Nat × StackMap.Frame)}
      (inside : base + frame.delta.toNat < 2 ^ 16)
      (later : Spaced (base + frame.delta.toNat + 1) frames placed) :
      Spaced base (frame :: frames) ((base + frame.delta.toNat, frame) :: placed)

theorem Decoded.FramesAt.spaced
    {decoded : Decoded}
    {base : Nat}
    {frames : List StackMap.Frame}
    {placed : List (Nat × StackMap.Frame)}
    (framesAt : decoded.FramesAt base frames placed)
    (short : decoded.size < 2 ^ 16) :
    Spaced base frames placed := by
  induction framesAt with
  | nil base => exact .nil base
  | cons _ inside _ inductionHypothesis =>
      exact .cons (Nat.lt_trans inside short) inductionHypothesis

/-- A check finds frames where their distances put them. -/
theorem Spaced.tableOffsets_eq
    {base : Nat}
    {previous : Option UInt16}
    {frames : List StackMap.Frame}
    {placed : List (Nat × StackMap.Frame)}
    (spaced : Spaced base frames placed)
    (behind : base = (previous.map fun offset => offset.toNat + 1).getD 0) :
    tableOffsets previous frames = placed.map fun row => UInt16.ofNat row.1 := by
  induction spaced generalizing previous with
  | nil base => rfl
  | @cons base frame frames placed inside later inductionHypothesis =>
      have number : (UInt16.ofNat (base + frame.delta.toNat)).toNat = base + frame.delta.toNat :=
        UInt16.toNat_ofNat_of_lt' inside
      have onward :=
        @inductionHypothesis (some (UInt16.ofNat (base + frame.delta.toNat))) 
          (by rw [Option.map_some, Option.getD_some, number])
      cases previous with
      | none =>
          have here : UInt16.ofNat (base + frame.delta.toNat) = frame.delta := by simp [behind]
          rw [here] at onward
          rw [List.map_cons, here, ← onward]
          rfl
      | some previous =>
          simp only [Option.map_some, Option.getD_some] at behind
          have here :
              UInt16.ofNat (min 0xFFFF (previous.toNat + frame.delta.toNat + 1)) =
                UInt16.ofNat (base + frame.delta.toNat) := by
            rw [Nat.min_eq_right (by omega), behind]
            congr 1
            omega
          rw [List.map_cons, ← onward, ← here]
          rfl

/-- The offsets of all tables of attributes that can be decoded. -/
theorem Tables.declared_eq
    {decoded : Decoded}
    {attributes : List Attribute}
    {tables : Tables}
    (short : decoded.size < 2 ^ 16)
    (read : ofAttributes decoded attributes = .ok tables) :
    (attributes.flatMap fun
        | .stackMapTable frames => tableOffsets none frames
        | _ => []) =
      tables.frames.map fun row => UInt16.ofNat row.1 := by
  obtain ⟨folded, added, same⟩ := bind_eq_ok_iff.mp read
  cases same
  let offsets (item : Attribute) : List UInt16 :=
    match item with
    | .stackMapTable frames => tableOffsets none frames
    | _ => []
  refine foldlM_keeps_row
    (fun done (tables : Tables) =>
      done.flatMap offsets = tables.frames.reverse.map fun row => UInt16.ofNat row.1)
    added ?_ rfl
  intro done before item after stepped same
  rw [List.flatMap_append, same, List.flatMap_singleton]
  cases add_eq_ok_iff.mp stepped with
  | lines | locals => exact List.append_nil _
  | @frames frames placed located =>
      have offsetsAre : offsets (.stackMapTable frames) = _ :=
        @Spaced.tableOffsets_eq _ none _ _ (located.spaced short) rfl
      rw [offsetsAre]
      simp
  | other noTable =>
      have none : offsets item = [] := by
        cases item with
        | stackMapTable => cases noTable
        | _ => rfl
      rw [none, List.append_nil]

/-- A body declares a frame where decoding places one. -/
theorem mem_declaredOffsets_iff
    {decoded : Decoded}
    {raw : CodeAttribute Attribute}
    {tables : Tables}
    {offset : UInt16}
    (short : decoded.size < 2 ^ 16)
    (read : Tables.ofAttributes decoded raw.attributes = .ok tables) :
    offset ∈ declaredOffsets raw ↔ ∃ row ∈ tables.frames, UInt16.ofNat row.1 = offset := by
  have same := Tables.declared_eq short read
  rw [declaredOffsets, Std.TreeSet.mem_ofList, List.contains_iff_mem]
  exact (iff_of_eq (congrArg (offset ∈ ·) same)).trans List.mem_map

end JvmClass.Body
