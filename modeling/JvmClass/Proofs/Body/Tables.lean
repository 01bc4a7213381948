import JvmClass.Proofs.Body.Labeling
import JvmClass.Proofs.Body.Regular

namespace JvmClass.Body

/-!
# Tables of a body

Line numbers, local variables and frames name offsets, each of which has to be
where an instruction starts or where the body ends.
-/

namespace Decoded

/-! ## Checked offsets -/

variable {decoded : Decoded}

theorem checkBoundary_eq_ok_iff
    {table : String}
    {offset : Nat} :
    decoded.checkBoundary table offset = .ok () ↔ decoded.isBoundary offset = true := by
  unfold checkBoundary
  split
  · rename_i boundary
    simp [boundary]
  · rename_i boundary
    simp [boundary]

theorem checkStart_eq_ok_iff
    {table : String}
    {offset : Nat} :
    decoded.checkStart table offset = .ok () ↔
      decoded.isBoundary offset = true ∧ offset < decoded.size := by
  unfold checkStart
  rw [check_bind_eq_ok_iff, checkBoundary_eq_ok_iff]
  split
  · rename_i inside
    simp [inside]
  · rename_i inside
    simp [inside]

theorem checkInsn_eq_ok_iff
    {pool : Pool}
    {located : Nat × Insn} :
    decoded.checkInsn pool located = .ok () ↔
      located.2.checkOperand pool = .ok () ∧
        ∀ target ∈ located.2.targets, decoded.isBoundary target = true := by
  unfold checkInsn
  rw [check_bind_eq_ok_iff, forM_eq_ok_iff]
  refine and_congr_right fun _ => forall₂_congr fun target _ => ?_
  split
  · rename_i boundary
    simp [boundary]
  · rename_i boundary
    simp [boundary]

theorem checkHandler_eq_ok_iff
    {entry : HandlerEntry} :
    decoded.checkHandler entry = .ok () ↔
      decoded.isBoundary entry.start.toNat = true ∧ decoded.isBoundary entry.stop.toNat = true ∧
        decoded.isBoundary entry.handler.toNat = true ∧ entry.start < entry.stop ∧
          entry.handler.toNat < decoded.size := by
  unfold checkHandler
  simp only [check_bind_eq_ok_iff, checkBoundary_eq_ok_iff]
  split
  · rename_i ordered
    simp [ordered]
  · rename_i ordered
    simp [ordered]

theorem checkLocal_eq_ok_iff
    {entry : LocalEntry} :
    decoded.checkLocal entry = .ok () ↔
      decoded.isBoundary entry.start.toNat = true ∧
        decoded.isBoundary (entry.start.toNat + entry.length.toNat) = true := by
  unfold checkLocal
  rw [check_bind_eq_ok_iff, checkBoundary_eq_ok_iff, checkBoundary_eq_ok_iff]

/-! ## Frames at offsets -/

/-- Frames lie where their distances put them, each at the start of an instruction. -/
inductive FramesAt (decoded : Decoded) : Nat → List StackMap.Frame → List (Nat × StackMap.Frame) → Prop
  | nil (base : Nat) : FramesAt decoded base [] []
  | cons
      {base : Nat}
      {frame : StackMap.Frame}
      {frames : List StackMap.Frame}
      {placed : List (Nat × StackMap.Frame)}
      (boundary : decoded.isBoundary (base + frame.delta.toNat) = true)
      (inside : base + frame.delta.toNat < decoded.size)
      (later : FramesAt decoded (base + frame.delta.toNat + 1) frames placed) :
      FramesAt decoded base (frame :: frames) ((base + frame.delta.toNat, frame) :: placed)

theorem frameOffsets_eq_ok_iff
    {done placed : List (Nat × StackMap.Frame)}
    {base : Nat}
    {frames : List StackMap.Frame} :
    decoded.frameOffsets done base frames = .ok placed ↔
      ∃ later, FramesAt decoded base frames later ∧ placed = done.reverse ++ later := by
  induction frames generalizing done base with
  | nil =>
      simp only [frameOffsets, Except.ok.injEq]
      constructor
      · rintro rfl
        exact ⟨[], .nil base, by simp⟩
      · rintro ⟨later, at_, rfl⟩
        cases at_
        simp
  | cons frame frames inductionHypothesis =>
      unfold frameOffsets
      simp only
      split
      · rename_i inside
        simp only [check_bind_eq_ok_iff, checkBoundary_eq_ok_iff, inductionHypothesis]
        constructor
        · rintro ⟨boundary, later, laterAt, rfl⟩
          exact ⟨_, .cons boundary inside laterAt, by simp⟩
        · rintro ⟨_, framesAt, rfl⟩
          cases framesAt with
          | @cons _ _ _ later boundary _ laterAt => exact ⟨boundary, later, laterAt, by simp⟩
      · rename_i outside
        simp only [reduceCtorEq, false_iff, not_exists, not_and]
        intro later framesAt
        cases framesAt with
        | cons _ inside _ => exact absurd inside outside

theorem FramesAt.placed
    {base : Nat}
    {frames : List StackMap.Frame}
    {placed : List (Nat × StackMap.Frame)}
    (framesAt : FramesAt decoded base frames placed) :
    placed.map Prod.snd = frames ∧
      ∀ item ∈ placed, decoded.isBoundary item.1 = true ∧ item.1 < decoded.size := by
  induction framesAt with
  | nil base => simp
  | cons boundary inside later inductionHypothesis =>
      obtain ⟨shape, others⟩ := inductionHypothesis
      refine ⟨by simp [shape], ?_⟩
      intro item member
      rcases List.mem_cons.mp member with rfl | member
      · exact ⟨boundary, inside⟩
      · exact others item member

end Decoded

namespace Tables

/-! ## Lines by offset -/

theorem size_linesAt
    (size : Nat)
    (entries : List LineEntry) :
    (linesAt size entries).size = size := by
  unfold linesAt
  rw [List.foldl_reverse]
  induction entries with
  | nil => simp
  | cons entry entries inductionHypothesis => simpa using inductionHypothesis

/-- The lines at an offset are those of the rows that name the offset, in order. -/
theorem getD_linesAt
    {size offset : Nat}
    {entries : List LineEntry}
    (inside : offset < size) :
    (linesAt size entries).getD offset [] =
      (entries.filter fun entry => entry.start.toNat == offset).map LineEntry.line := by
  have sized := size_linesAt size entries
  unfold linesAt at sized ⊢
  rw [List.foldl_reverse] at sized ⊢
  induction entries with
  | nil => simp [Array.getD_eq_getD_getElem?, inside]
  | cons entry entries inductionHypothesis =>
      have sizedLater := size_linesAt size entries
      unfold linesAt at sizedLater
      rw [List.foldl_reverse] at sizedLater
      have step := inductionHypothesis sizedLater
      rw [List.foldr_cons]
      rw [Array.getD_eq_getD_getElem?] at step ⊢
      rw [Array.getElem?_modify]
      by_cases here : entry.start.toNat = offset
      · rw [if_pos here, List.filter_cons_of_pos (by simp [here]), List.map_cons, ← step]
        rw [Array.getElem?_eq_getElem (by omega)]
        rfl
      · rw [if_neg here, List.filter_cons_of_neg (by simp [here]), step]

/-! ## Tables from attributes -/

/-- What one attribute makes of tables. -/
inductive Adds (decoded : Decoded) (tables : Tables) : Attribute → Tables → Prop
  | lines
      {entries : List LineEntry}
      (checked :
        ∀ entry ∈ entries, decoded.checkStart "LineNumberTable" entry.start.toNat = .ok ()) :
      Adds decoded tables (.lineNumberTable entries)
        { tables with lines := entries.reverse ++ tables.lines }
  | locals
      {entries : List LocalEntry}
      (checked : ∀ entry ∈ entries, decoded.checkLocal entry = .ok ()) :
      Adds decoded tables (.localVariableTable entries)
        { tables with locals := entries.reverse ++ tables.locals }
  | frames
      {frames : List StackMap.Frame}
      {placed : List (Nat × StackMap.Frame)}
      (located : decoded.FramesAt 0 frames placed) :
      Adds decoded tables (.stackMapTable frames)
        { tables with frames := placed.reverse ++ tables.frames }
  | other
      {item : Attribute}
      (noTable : item.isTable = false) :
      Adds decoded tables item { tables with attributes := item :: tables.attributes }

theorem add_eq_ok_iff
    {decoded : Decoded}
    {tables after : Tables}
    {item : Attribute} :
    tables.add decoded item = .ok after ↔ Adds decoded tables item after := by
  constructor
  · intro added
    cases item with
    | lineNumberTable entries =>
        obtain ⟨checked, same⟩ := check_bind_eq_ok_iff.mp added
        cases same
        exact .lines (forM_eq_ok_iff.mp checked)
    | localVariableTable entries =>
        obtain ⟨checked, same⟩ := check_bind_eq_ok_iff.mp added
        cases same
        exact .locals (forM_eq_ok_iff.mp checked)
    | stackMapTable frames =>
        obtain ⟨placed, located, same⟩ := bind_eq_ok_iff.mp added
        cases same
        obtain ⟨_, framesAt, rfl⟩ := Decoded.frameOffsets_eq_ok_iff.mp located
        exact .frames framesAt
    | _ =>
        cases added
        exact .other rfl
  · intro adds
    cases adds with
    | lines checked => exact check_bind_eq_ok_iff.mpr ⟨forM_eq_ok_iff.mpr checked, rfl⟩
    | locals checked => exact check_bind_eq_ok_iff.mpr ⟨forM_eq_ok_iff.mpr checked, rfl⟩
    | frames located =>
        exact bind_eq_ok_iff.mpr
          ⟨_, Decoded.frameOffsets_eq_ok_iff.mpr ⟨_, located, rfl⟩, rfl⟩
    | other noTable =>
        cases item with
        | lineNumberTable | localVariableTable | stackMapTable => cases noTable
        | _ => rfl

/-- One if there is a row, and none otherwise. -/
def present {α : Type} (rows : List α) : Nat :=
  if rows.isEmpty then 0 else 1

/-- The tables hold checked rows of the attributes and the attributes that are no tables. -/
structure Reflects
    (decoded : Decoded)
    (attributes : List Attribute)
    (tables : Tables) : Prop where
  lines :
    ∀ entry ∈ tables.lines,
      decoded.isBoundary entry.start.toNat = true ∧ entry.start.toNat < decoded.size
  locals :
    ∀ entry ∈ tables.locals,
      decoded.isBoundary entry.start.toNat = true ∧
        decoded.isBoundary (entry.start.toNat + entry.length.toNat) = true
  frames :
    ∀ placed ∈ tables.frames,
      decoded.isBoundary placed.1 = true ∧ placed.1 < decoded.size ∧
        ∃ frames, .stackMapTable frames ∈ attributes ∧ placed.2 ∈ frames
  others : ∀ item ∈ tables.attributes, item ∈ attributes ∧ item.isTable = false
  count :
    present tables.lines + present tables.locals + present tables.frames
        + tables.attributes.length ≤ attributes.length
  linesNamed : tables.lines ≠ [] → ∃ entries, .lineNumberTable entries ∈ attributes
  localsNamed : tables.locals ≠ [] → ∃ entries, .localVariableTable entries ∈ attributes
  framesNamed : tables.frames ≠ [] → ∃ frames, .stackMapTable frames ∈ attributes

theorem present_le_one {α : Type} (rows : List α) : present rows ≤ 1 := by
  unfold present
  split <;> omega

theorem present_reverse {α : Type} (rows : List α) : present rows.reverse = present rows := by
  simp [present]

/-- One attribute more that says nothing leaves the tables a reflection. -/
theorem Reflects.more
    {decoded : Decoded}
    {done : List Attribute}
    {tables : Tables}
    (reflects : Reflects decoded done tables)
    (item : Attribute) :
    Reflects decoded (done ++ [item]) tables where
  lines := reflects.lines
  locals := reflects.locals
  frames placed member := by
    obtain ⟨boundary, inside, frames, table, listed⟩ := reflects.frames placed member
    exact ⟨boundary, inside, frames, List.mem_append_left _ table, listed⟩
  others other member :=
    (reflects.others other member).imp_left (List.mem_append_left [item])
  count := Nat.le_trans reflects.count (by simp)
  linesNamed some := (reflects.linesNamed some).imp fun _ => List.mem_append_left _
  localsNamed some := (reflects.localsNamed some).imp fun _ => List.mem_append_left _
  framesNamed some := (reflects.framesNamed some).imp fun _ => List.mem_append_left _

/-- Adding what one attribute says keeps the tables a reflection of the attributes. -/
theorem Reflects.add
    {decoded : Decoded}
    {done : List Attribute}
    {tables after : Tables}
    {item : Attribute}
    (reflects : Reflects decoded done tables)
    (added : tables.add decoded item = .ok after) :
    Reflects decoded (done ++ [item]) after := by
  have count := reflects.count
  have kept := reflects.more item
  cases add_eq_ok_iff.mp added with
  | @lines entries checked =>
      refine { kept with lines := ?_, count := ?_, linesNamed := fun _ => ⟨entries, by simp⟩ }
      · intro entry member
        rcases List.mem_append.mp member with new | old
        · exact Decoded.checkStart_eq_ok_iff.mp (checked entry (List.mem_reverse.mp new))
        · exact reflects.lines entry old
      · have one := present_le_one (entries.reverse ++ tables.lines)
        simp only [List.length_append, List.length_singleton]
        omega
  | @locals entries checked =>
      refine { kept with locals := ?_, count := ?_, localsNamed := fun _ => ⟨entries, by simp⟩ }
      · intro entry member
        rcases List.mem_append.mp member with new | old
        · exact Decoded.checkLocal_eq_ok_iff.mp (checked entry (List.mem_reverse.mp new))
        · exact reflects.locals entry old
      · have one := present_le_one (entries.reverse ++ tables.locals)
        simp only [List.length_append, List.length_singleton]
        omega
  | @frames frames placed located =>
      obtain ⟨shape, checked⟩ := located.placed
      refine { kept with frames := ?_, count := ?_, framesNamed := fun _ => ⟨frames, by simp⟩ }
      · intro item member
        rcases List.mem_append.mp member with new | old
        · have listed : item ∈ placed := by simpa using new
          obtain ⟨boundary, inside⟩ := checked item listed
          refine ⟨boundary, inside, frames, by simp, ?_⟩
          rw [← shape]
          exact List.mem_map_of_mem listed
        · exact kept.frames item old
      · have one := present_le_one (placed.reverse ++ tables.frames)
        simp only [List.length_append, List.length_singleton]
        omega
  | other noTable =>
      refine { kept with others := ?_, count := ?_ }
      · intro other member
        rcases List.mem_cons.mp member with rfl | old
        · exact ⟨by simp, noTable⟩
        · exact kept.others other old
      · simp only [List.length_append, List.length_cons]
        omega

/-- What a list of attributes says is checked and taken from the attributes. -/
theorem reflects_of_ofAttributes
    {decoded : Decoded}
    {attributes : List Attribute}
    {tables : Tables}
    (read : ofAttributes decoded attributes = .ok tables) :
    Reflects decoded attributes tables := by
  obtain ⟨folded, added, same⟩ := bind_eq_ok_iff.mp read
  cases same
  have reflects : Reflects decoded attributes folded := by
    refine foldlM_keeps_row (Reflects decoded) added ?_ ?_
    · intro done before item after stepped reflects
      exact reflects.add stepped
    · constructor <;> simp [present]
  refine {
    lines := fun entry member => reflects.lines entry (List.mem_reverse.mp member)
    locals := fun entry member => reflects.locals entry (List.mem_reverse.mp member)
    frames := fun placed member => reflects.frames placed (List.mem_reverse.mp member)
    others := fun item member => reflects.others item (List.mem_reverse.mp member)
    count := ?_
    linesNamed := fun some => reflects.linesNamed (by simpa using some)
    localsNamed := fun some => reflects.localsNamed (by simpa using some)
    framesNamed := fun some => reflects.framesNamed (by simpa using some) }
  simpa only [present_reverse, List.length_reverse] using reflects.count

/-- The frames of the tables are those of the attributes, in order. -/
theorem frames_eq_of_ofAttributes
    {decoded : Decoded}
    {raw : CodeAttribute Attribute}
    {tables : Tables}
    (read : ofAttributes decoded raw.attributes = .ok tables) :
    tables.frames.map Prod.snd = raw.allFrames := by
  obtain ⟨folded, added, same⟩ := bind_eq_ok_iff.mp read
  cases same
  refine foldlM_keeps_row
    (fun done tables =>
      tables.frames.reverse.map Prod.snd = CodeAttribute.allFrames { raw with attributes := done })
    added ?_ rfl
  intro done before item after stepped same
  have behind (frames : List StackMap.Frame)
      (listed : CodeAttribute.allFrames { raw with attributes := [item] } = frames) :
      CodeAttribute.allFrames { raw with attributes := done ++ [item] } =
        before.frames.reverse.map Prod.snd ++ frames := by
    rw [same, ← listed]
    exact List.flatMap_append
  cases add_eq_ok_iff.mp stepped with
  | lines | locals => exact (List.append_nil _).symm.trans (behind [] rfl).symm
  | @frames frames placed located =>
      rw [behind frames (List.append_nil frames), ← located.placed.1]
      simp
  | other noTable =>
      refine (List.append_nil _).symm.trans (behind [] ?_).symm
      cases item with
      | stackMapTable => cases noTable
      | _ => rfl

/-- Attributes that are no tables are kept in order. -/
theorem foldlM_others
    {decoded : Decoded}
    {others : List Attribute}
    {tables : Tables}
    (noTables : ∀ item ∈ others, item.isTable = false) :
    others.foldlM (add decoded) tables =
      .ok { tables with attributes := others.reverse ++ tables.attributes } := by
  induction others generalizing tables with
  | nil => rfl
  | cons item others inductionHypothesis =>
      simp only [List.mem_cons, forall_eq_or_imp] at noTables
      rw [List.foldlM_cons, add_eq_ok_iff.mpr (.other noTables.1)]
      refine (inductionHypothesis noTables.2).trans ?_
      simp

theorem foldlM_lines
    {decoded : Decoded}
    {lines : List LineEntry}
    {tables : Tables}
    (checked :
      ∀ entry ∈ lines, decoded.checkStart "LineNumberTable" entry.start.toNat = .ok ()) :
    (tableAttribute .lineNumberTable lines).foldlM (add decoded) tables =
      .ok { tables with lines := lines.reverse ++ tables.lines } := by
  cases lines with
  | nil => rfl
  | cons entry lines => exact bind_eq_ok_iff.mpr ⟨_, add_eq_ok_iff.mpr (.lines checked), rfl⟩

theorem foldlM_locals
    {decoded : Decoded}
    {locals : List LocalEntry}
    {tables : Tables}
    (checked : ∀ entry ∈ locals, decoded.checkLocal entry = .ok ()) :
    (tableAttribute .localVariableTable locals).foldlM (add decoded) tables =
      .ok { tables with locals := locals.reverse ++ tables.locals } := by
  cases locals with
  | nil => rfl
  | cons entry locals => exact bind_eq_ok_iff.mpr ⟨_, add_eq_ok_iff.mpr (.locals checked), rfl⟩

theorem foldlM_frames
    {decoded : Decoded}
    {frames : List StackMap.Frame}
    {placed : List (Nat × StackMap.Frame)}
    {tables : Tables}
    (located : decoded.FramesAt 0 frames placed) :
    (tableAttribute .stackMapTable frames).foldlM (add decoded) tables =
      .ok { tables with frames := placed.reverse ++ tables.frames } := by
  cases frames with
  | nil =>
      cases located
      rfl
  | cons frame frames => exact bind_eq_ok_iff.mpr ⟨_, add_eq_ok_iff.mpr (.frames located), rfl⟩

/-- Tables and other attributes are read as what they were made of. -/
theorem ofAttributes_tableAttribute
    {decoded : Decoded}
    {lines : List LineEntry}
    {locals : List LocalEntry}
    {frames : List StackMap.Frame}
    {placed : List (Nat × StackMap.Frame)}
    {others : List Attribute}
    (linesChecked :
      ∀ entry ∈ lines, decoded.checkStart "LineNumberTable" entry.start.toNat = .ok ())
    (localsChecked : ∀ entry ∈ locals, decoded.checkLocal entry = .ok ())
    (located : decoded.FramesAt 0 frames placed)
    (noTables : ∀ item ∈ others, item.isTable = false) :
    ofAttributes decoded
        (tableAttribute .lineNumberTable lines ++ tableAttribute .localVariableTable locals
          ++ tableAttribute .stackMapTable frames ++ others) =
      .ok ⟨lines, locals, placed, others⟩ := by
  unfold ofAttributes
  simp only [List.foldlM_append]
  rw [foldlM_lines linesChecked]
  simp only [bind, Except.bind]
  rw [foldlM_locals localsChecked]
  simp only
  rw [foldlM_frames located]
  simp only
  rw [foldlM_others noTables]
  simp [pure, Except.pure]

end Tables
end JvmClass.Body
