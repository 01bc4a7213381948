import JvmClass.Body.Assemble
import JvmClass.Proofs.Insn.Encode
import JvmClass.Proofs.Pool.Intern

namespace JvmClass

/-!
# Laid out bodies

Laying out a body gives every node an offset, one behind the other.  Linking it
gives bytes that are decoded into the instructions at those offsets, with the
places of the labels for the labels.
-/

open Reader

namespace Insn

/-! ## Names and their indices -/

/-- The second instruction is the first with some index for everything that the first names. -/
inductive Numbered : Insn → Insn → Prop
  | indexed
      {insn : Insn}
      (isIndexed : insn.Indexed) :
      Numbered insn insn
  | field
      {code : Opcode}
      {owner name descriptor : String}
      {index : UInt16} :
      Numbered (.field code (.named owner name descriptor)) (.field code (.index index))
  | method
      {code : Opcode}
      {owner name descriptor : String}
      {index : UInt16} :
      Numbered (.method code (.named owner name descriptor)) (.method code (.index index))
  | text
      {code : Opcode}
      {value : String}
      {index : UInt16} :
      Numbered (.load code (.text value)) (.load (loadOpcode code index) (.index index))

/-- The second instruction has an index for everything that the first one names. -/
inductive Resolves (entries : Array Entry) : Insn → Insn → Prop
  | indexed
      {insn : Insn}
      (isIndexed : insn.Indexed) :
      Resolves entries insn insn
  | field
      {code : Opcode}
      {names : Member}
      {index : UInt16}
      (stands : (Constant.member .field names).StandsAt entries index) :
      Resolves entries (.field code (.named names.owner names.name names.descriptor))
        (.field code (.index index))
  | method
      {code : Opcode}
      {names : Member}
      {index : UInt16}
      (stands : (Constant.member .method names).StandsAt entries index) :
      Resolves entries (.method code (.named names.owner names.name names.descriptor))
        (.method code (.index index))
  | text
      {code : Opcode}
      {value : String}
      {index : UInt16}
      (stands : (Constant.string value).StandsAt entries index) :
      Resolves entries (.load code (.text value)) (.load (loadOpcode code index) (.index index))

section Resolves

variable {entries : Array Entry} {insn resolved : Insn}

theorem Resolves.numbered
    (resolves : insn.Resolves entries resolved) :
    insn.Numbered resolved := by
  cases resolves with
  | indexed isIndexed => exact .indexed isIndexed
  | field _ => exact .field
  | method _ => exact .method
  | text _ => exact .text

theorem Resolves.extend
    {longer : Array Entry}
    (kept : Entry.Extends entries longer)
    (resolves : insn.Resolves entries resolved) :
    insn.Resolves longer resolved := by
  cases resolves with
  | indexed isIndexed => exact .indexed isIndexed
  | field stands => exact .field (stands.extend kept)
  | method stands => exact .method (stands.extend kept)
  | text stands => exact .text (stands.extend kept)

theorem Numbered.eq_of_indexed
    (numbered : insn.Numbered resolved)
    (indexed : insn.Indexed) :
    resolved = insn := by
  cases numbered with
  | indexed _ => rfl
  | field | method | text => exact indexed.elim

theorem Numbered.isIndexed (numbered : insn.Numbered resolved) : resolved.Indexed := by
  cases numbered with
  | indexed isIndexed => exact isIndexed
  | field | method | text => trivial

theorem Numbered.targets_eq (numbered : insn.Numbered resolved) :
    resolved.targets = insn.targets := by
  cases numbered <;> rfl

theorem Numbered.wellFormed
    (numbered : insn.Numbered resolved)
    (wellFormed : insn.WellFormed) :
    resolved.WellFormed := by
  cases numbered with
  | indexed _ | field | method => exact wellFormed
  | @text code value index =>
      rcases wellFormed with rfl | rfl
      · by_cases small : index ≤ 255
        · rw [loadOpcode, if_neg (by decide), if_pos small]
          exact .inl ⟨rfl, small⟩
        · rw [loadOpcode, if_neg (by decide), if_neg small]
          exact .inr rfl
      · rw [loadOpcode, if_pos (.inr rfl)]
        exact .inr rfl

/-- The opcode that was chosen for an index is the one that the index asks for. -/
theorem loadOpcode_loadOpcode
    (code : Opcode)
    (index : UInt16) :
    loadOpcode (loadOpcode code index) index = loadOpcode code index := by
  by_cases wide : code = Opcode.ldc2W ∨ code = Opcode.ldcW
  · simp only [loadOpcode, if_pos wide]
  · by_cases small : index ≤ 255
    · have chosen : loadOpcode code index = Opcode.ldc := by
        rw [loadOpcode, if_neg wide, if_pos small]
      rw [chosen, loadOpcode, if_neg (by decide), if_pos small]
    · have chosen : loadOpcode code index = Opcode.ldcW := by
        rw [loadOpcode, if_neg wide, if_neg small]
      rw [chosen, loadOpcode, if_pos (.inr rfl)]

theorem extends_encode
    (insn : Insn)
    (offset : Nat)
    (pool : Pool) :
    Entry.Extends pool.entries (insn.encode offset pool).2.entries := by
  cases insn with
  | field code target =>
      cases target with
      | index index => exact .refl _
      | named owner name descriptor => exact Pool.extends_internMember _ _ pool
  | method code target =>
      cases target with
      | index index => exact .refl _
      | named owner name descriptor => exact Pool.extends_internMember _ _ pool
  | load code value =>
      cases value with
      | index index => exact .refl _
      | text value => exact Pool.extends_internString value pool
  | _ => exact .refl _

/--
Encoding finds an index for what an instruction names and lays it out with the
index.  In a pool that has room the index leads to the name.
-/
theorem exists_numbered_of_encode
    {offset : Nat}
    {laid : List Cell}
    {pool after : Pool}
    (encoded : insn.encode offset pool = (laid, after)) :
    ∃ resolved,
      insn.Numbered resolved ∧ laid = resolved.cells offset ∧
        (pool.Coherent → after.size ≤ 2 ^ 16 →
          insn.Resolves after.entries resolved ∧ Pool.Advances pool after) := by
  by_cases indexed : insn.Indexed
  · rw [encode_of_indexed indexed] at encoded
    cases encoded
    exact ⟨insn, .indexed indexed, rfl, fun coherent _ => ⟨.indexed indexed, .refl coherent⟩⟩
  · cases insn with
    | field code target =>
        cases target with
        | index index => exact absurd trivial indexed
        | named owner name descriptor =>
            rcases interned : Pool.internMember .field ⟨owner, name, descriptor⟩ pool with
              ⟨index, grown⟩
            simp only [encode, bind, StateT.bind, interned, pure_apply] at encoded
            cases encoded
            refine ⟨_, .field, rfl, fun coherent fits => ?_⟩
            obtain ⟨advances, stands⟩ := Pool.advances_internMember coherent interned fits
            exact ⟨.field stands, advances⟩
    | method code target =>
        cases target with
        | index index => exact absurd trivial indexed
        | named owner name descriptor =>
            rcases interned : Pool.internMember .method ⟨owner, name, descriptor⟩ pool with
              ⟨index, grown⟩
            simp only [encode, bind, StateT.bind, interned, pure_apply] at encoded
            cases encoded
            refine ⟨_, .method, rfl, fun coherent fits => ?_⟩
            obtain ⟨advances, stands⟩ := Pool.advances_internMember coherent interned fits
            exact ⟨.method stands, advances⟩
    | load code value =>
        cases value with
        | index index => exact absurd trivial indexed
        | text value =>
            rcases interned : Pool.internString value pool with ⟨index, grown⟩
            simp only [encode, bind, StateT.bind, interned, pure_apply] at encoded
            cases encoded
            refine ⟨.load (loadOpcode code index) (.index index), .text, ?_,
              fun coherent fits => ?_⟩
            · show encodeLoad code index = encodeLoad (loadOpcode code index) index
              simp only [encodeLoad, loadOpcode_loadOpcode]
            · obtain ⟨advances, stands⟩ := Pool.advances_internString coherent interned fits
              exact ⟨.text stands, advances⟩
    | _ => exact absurd trivial indexed

/-- An instruction starts with the byte of an opcode. -/
theorem exists_cells_eq
    (insn : Insn)
    (offset : Nat) :
    ∃ code rest, insn.cells offset = Cell.byte code :: rest := by
  cases insn with
  | slot code index =>
      by_cases small : index ≤ 255
      · exact ⟨_, _, if_pos small⟩
      · exact ⟨_, _, if_neg small⟩
  | jump code target =>
      by_cases wide : code = Opcode.gotoW ∨ code = Opcode.jsrW
      · exact ⟨_, _, if_pos wide⟩
      · exact ⟨_, _, if_neg wide⟩
  | increment code index amount =>
      by_cases small : index ≤ 255 ∧ -128 ≤ amount ∧ amount ≤ 127
      · exact ⟨_, _, if_pos small⟩
      · exact ⟨_, _, if_neg small⟩
  | field code target | method code target => cases target <;> exact ⟨_, _, rfl⟩
  | load code value => cases value <;> exact ⟨_, _, rfl⟩
  | _ => exact ⟨_, _, rfl⟩

theorem widths_cells_pos
    (insn : Insn)
    (offset : Nat) :
    1 ≤ Cell.widths (insn.cells offset) := by
  obtain ⟨code, rest, shape⟩ := exists_cells_eq insn offset
  rw [shape, Cell.widths_eq_sum, List.map_cons, List.sum_cons, Cell.width]
  exact Nat.le_add_right 1 _

end Resolves

end Insn

/-! ## Nodes at offsets -/

/-- The labels among placed nodes with their offsets. -/
def Node.placedLabels (placed : List (Nat × Node)) : List (Nat × Label) :=
  placed.filterMap fun
    | (offset, .label name) => some (offset, name)
    | _ => none

/-- The instructions among placed nodes with their offsets. -/
def Node.placedInsns (placed : List (Nat × Node)) : List (Nat × Insn) :=
  placed.filterMap fun
    | (offset, .insn item) => some (offset, item)
    | _ => none

/--
Nodes lie one behind the other from an offset to another: the same nodes with
their offsets and with indices for what they name, and their cells.
-/
inductive Lays (resolves : Insn → Insn → Prop) :
    Nat → List Node → List (Nat × Node) → List Cell → Nat → Prop
  | nil (offset : Nat) : Lays resolves offset [] [] [] offset
  | label
      {offset stop : Nat}
      {label : Label}
      {nodes : List Node}
      {placed : List (Nat × Node)}
      {cells : List Cell}
      (later : Lays resolves offset nodes placed cells stop) :
      Lays resolves offset (.label label :: nodes) ((offset, .label label) :: placed) cells stop
  | line
      {offset stop : Nat}
      {number : UInt16}
      {start : Label}
      {nodes : List Node}
      {placed : List (Nat × Node)}
      {cells : List Cell}
      (later : Lays resolves offset nodes placed cells stop) :
      Lays resolves offset (.line number start :: nodes)
        ((offset, .line number start) :: placed) cells stop
  | insn
      {offset stop : Nat}
      {insn resolved : Insn}
      {nodes : List Node}
      {placed : List (Nat × Node)}
      {cells : List Cell}
      (numbers : resolves insn resolved)
      (later :
        Lays resolves (offset + Cell.widths (resolved.cells offset)) nodes placed cells stop) :
      Lays resolves offset (.insn insn :: nodes) ((offset, .insn resolved) :: placed)
        (resolved.cells offset ++ cells) stop

namespace Lays

variable
  {resolves : Insn → Insn → Prop} {offset stop : Nat} {nodes : List Node}
  {placed : List (Nat × Node)} {cells : List Cell}

theorem imp
    {others : Insn → Insn → Prop}
    (implies : ∀ insn resolved, resolves insn resolved → others insn resolved)
    (lays : Lays resolves offset nodes placed cells stop) :
    Lays others offset nodes placed cells stop := by
  induction lays with
  | nil offset => exact .nil offset
  | label _ inductionHypothesis => exact .label inductionHypothesis
  | line _ inductionHypothesis => exact .line inductionHypothesis
  | insn numbers _ inductionHypothesis =>
      exact .insn (implies _ _ numbers) inductionHypothesis

theorem offset_le
    (lays : Lays resolves offset nodes placed cells stop) :
    offset ≤ stop := by
  induction lays with
  | nil offset => exact Nat.le_refl offset
  | label _ inductionHypothesis | line _ inductionHypothesis => exact inductionHypothesis
  | insn _ _ inductionHypothesis => omega

theorem map_placedLabels
    (lays : Lays resolves offset nodes placed cells stop) :
    (Node.placedLabels placed).map Prod.snd = Node.labels nodes := by
  induction lays with
  | nil offset => rfl
  | label _ inductionHypothesis =>
      exact congrArg (_ :: ·) inductionHypothesis
  | line _ inductionHypothesis | insn _ _ inductionHypothesis => exact inductionHypothesis

/-- What was laid out is decoded as its instructions at their offsets. -/
theorem decodes
    {labels : PlacedLabels}
    {size : Nat}
    {bytes : Bytes}
    (lays : Lays resolves offset nodes placed cells stop)
    (linked : Cell.Links labels cells bytes)
    (short : stop ≤ maxCodeLength)
    (read :
      ∀ insn ∈ Node.insns nodes, ∀ resolved place,
        resolves insn resolved → Cell.widths (resolved.cells place) ≤ maxCodeLength →
          resolved.WellFormed ∧ resolved.Indexed ∧ resolved.targets = insn.targets)
    (inside : ∀ insn ∈ Node.insns nodes, ∀ target ∈ insn.targets, labels.place target < size) :
    Insn.Decodes size offset bytes
        ((Node.placedInsns placed).map fun (offset, item) => (offset, item.mapTargets labels.place)) ∧
      offset + bytes.length = stop := by
  induction lays generalizing bytes with
  | nil offset =>
      obtain rfl := Cell.links_nil_iff.mp linked
      exact ⟨.nil offset, rfl⟩
  | label _ inductionHypothesis =>
      exact inductionHypothesis linked short (by simpa [Node.insns] using read)
        (by simpa [Node.insns] using inside)
  | line _ inductionHypothesis =>
      exact inductionHypothesis linked short (by simpa [Node.insns] using read)
        (by simpa [Node.insns] using inside)
  | @insn offset stop insn resolved nodes placed cells numbers later inductionHypothesis =>
      obtain ⟨front, behind, rfl, frontLinked, behindLinked⟩ := Cell.links_append_iff.mp linked
      have shape : Node.insns (.insn insn :: nodes) = insn :: Node.insns nodes := rfl
      simp only [shape, List.mem_cons, forall_eq_or_imp] at read inside
      obtain ⟨laterDecodes, laterLength⟩ :=
        inductionHypothesis behindLinked short read.2 inside.2
      have place := later.offset_le
      have narrow : Cell.widths (resolved.cells offset) ≤ maxCodeLength := by omega
      obtain ⟨wellFormed, indexed, targets⟩ := read.1 resolved offset numbers narrow
      rw [maxCodeLength] at short
      have positive := resolved.widths_cells_pos offset
      have reads :=
        Insn.reads_of_links wellFormed indexed frontLinked (by omega)
          (by simpa [targets] using inside.1)
      have length := frontLinked.length_eq
      constructor
      · refine .cons reads ?_
        rw [length]
        exact laterDecodes
      · rw [List.length_append]
        omega

/-- What was laid out with indices for names is decoded with the indices. -/
theorem decodes_of_wellFormed
    {labels : PlacedLabels}
    {size : Nat}
    {bytes : Bytes}
    (lays : Lays Insn.Numbered offset nodes placed cells stop)
    (linked : Cell.Links labels cells bytes)
    (short : stop ≤ maxCodeLength)
    (wellFormed : ∀ insn ∈ Node.insns nodes, insn.WellFormed)
    (inside : ∀ insn ∈ Node.insns nodes, ∀ target ∈ insn.targets, labels.place target < size) :
    Insn.Decodes size offset bytes
        ((Node.placedInsns placed).map fun (offset, item) => (offset, item.mapTargets labels.place)) ∧
      offset + bytes.length = stop := by
  refine lays.decodes linked short (fun insn member resolved _ numbered _ => ?_) inside
  exact ⟨numbered.wellFormed (wellFormed insn member), numbered.isIndexed, numbered.targets_eq⟩

end Lays

/-! ## Laying out -/

namespace LaidOut

/-- Linked bytes are those of the cells that were laid out. -/
theorem links_of_link
    {laidOut : LaidOut}
    {code : Bytes}
    (linked : laidOut.link = .ok code) :
    Cell.Links laidOut.labels laidOut.cells.reverse.flatten code := by
  obtain ⟨pieces, pieced, same⟩ := bind_eq_ok_iff.mp linked
  cases same
  exact ⟨pieces, pieced, rfl⟩

/-- The labels of placed nodes at their offsets, of two places of one label the later. -/
def placeLabels
    (labels : PlacedLabels)
    (placed : List (Nat × Node)) : PlacedLabels :=
  placed.foldl
    (fun labels (offset, node) =>
      match node with
      | .label label => labels.insert label (UInt16.ofNat offset)
      | _ => labels)
    labels

/-- The line marks among nodes. -/
def lineMarks (nodes : List Node) : List (UInt16 × Label) :=
  nodes.filterMap fun
    | .line number start => some (number, start)
    | _ => none

theorem getElem?_placeLabels_of_not_mem
    {labels : PlacedLabels}
    {placed : List (Nat × Node)}
    {label : Label}
    (missing : label ∉ (Node.placedLabels placed).map Prod.snd) :
    (placeLabels labels placed)[label]? = labels[label]? := by
  induction placed generalizing labels with
  | nil => rfl
  | cons first placed inductionHypothesis =>
      obtain ⟨offset, node⟩ := first
      cases node with
      | label other =>
          have shape :
              Node.placedLabels ((offset, .label other) :: placed) =
                (offset, other) :: Node.placedLabels placed := rfl
          rw [shape, List.map_cons, List.mem_cons, not_or] at missing
          refine (inductionHypothesis missing.2).trans ?_
          rw [Std.TreeMap.getElem?_insert, if_neg]
          intro equal
          exact missing.1 (Std.LawfulEqOrd.eq_of_compare equal).symm
      | line number start | insn insn => exact inductionHypothesis missing

/-- Where no label is placed twice, a label has the offset that it is placed at. -/
theorem getElem?_placeLabels
    {labels : PlacedLabels}
    {placed : List (Nat × Node)}
    {offset : Nat}
    {label : Label}
    (distinct : ((Node.placedLabels placed).map Prod.snd).Nodup)
    (member : (offset, label) ∈ Node.placedLabels placed) :
    (placeLabels labels placed)[label]? = some (UInt16.ofNat offset) := by
  induction placed generalizing labels with
  | nil => cases member
  | cons first placed inductionHypothesis =>
      obtain ⟨place, node⟩ := first
      cases node with
      | label other =>
          have shape :
              Node.placedLabels ((place, .label other) :: placed) =
                (place, other) :: Node.placedLabels placed := rfl
          rw [shape, List.map_cons, List.nodup_cons] at distinct
          rw [shape] at member
          rcases List.mem_cons.mp member with same | later
          · cases same
            refine (getElem?_placeLabels_of_not_mem distinct.1).trans ?_
            rw [Std.TreeMap.getElem?_insert, if_pos Std.ReflCmp.compare_self]
          · exact inductionHypothesis distinct.2 later
      | line number start | insn insn => exact inductionHypothesis distinct member

theorem foldlM_label
    {label : Label}
    {nodes : List Node}
    {before : LaidOut}
    {pool : Pool} :
    (Node.label label :: nodes).foldlM add before pool =
      nodes.foldlM add
        { before with labels := before.labels.insert label (UInt16.ofNat before.size) } pool :=
  rfl

theorem foldlM_line
    {number : UInt16}
    {start : Label}
    {nodes : List Node}
    {before : LaidOut}
    {pool : Pool} :
    (Node.line number start :: nodes).foldlM add before pool =
      nodes.foldlM add { before with lines := (number, start) :: before.lines } pool :=
  rfl

theorem foldlM_insn_eq_ok_iff
    {insn : Insn}
    {nodes : List Node}
    {before : LaidOut}
    {pool : Pool}
    {result : LaidOut × Pool} :
    (Node.insn insn :: nodes).foldlM add before pool = .ok result ↔
      ∃ laid middle size,
        insn.encode before.size pool = (laid, middle) ∧
          size = before.size + Cell.widths laid ∧ size ≤ maxCodeLength ∧
            nodes.foldlM add { before with size, cells := laid :: before.cells } middle =
              .ok result := by
  rcases encoded : insn.encode before.size pool with ⟨laid, middle⟩
  have step :
      add before (.insn insn) pool =
        if maxCodeLength < before.size + Cell.widths laid then
          .error (.codeTooLarge (before.size + Cell.widths laid))
        else
          .ok ({ before with
            size := before.size + Cell.widths laid
            cells := laid :: before.cells }, middle) := by
    simp only [add, encoded]
  have unfolded :
      (Node.insn insn :: nodes).foldlM add before pool =
        add before (.insn insn) pool >>= fun (next, pool) => nodes.foldlM add next pool := rfl
  rw [unfolded, bind_eq_ok_iff, step]
  constructor
  · rintro ⟨⟨next, grown⟩, added, later⟩
    split at added
    · cases added
    · rename_i short
      cases added
      exact ⟨laid, middle, _, rfl, rfl, Nat.not_lt.mp short, later⟩
  · rintro ⟨_, _, _, same, rfl, short, later⟩
    cases same
    rw [if_neg (Nat.not_lt.mpr short)]
    exact ⟨_, rfl, later⟩

theorem extends_foldlM
    {nodes : List Node}
    {before after : LaidOut}
    {pool grown : Pool}
    (laid : nodes.foldlM add before pool = .ok (after, grown)) :
    Entry.Extends pool.entries grown.entries := by
  induction nodes generalizing before pool with
  | nil =>
      cases laid
      exact .refl _
  | cons node nodes inductionHypothesis =>
      cases node with
      | label label =>
          rw [foldlM_label] at laid
          exact inductionHypothesis laid
      | line number start =>
          rw [foldlM_line] at laid
          exact inductionHypothesis laid
      | insn insn =>
          obtain ⟨cells, middle, size, encoded, _, _, later⟩ := foldlM_insn_eq_ok_iff.mp laid
          have first := insn.extends_encode before.size pool
          rw [encoded] at first
          exact first.trans (inductionHypothesis later)

/-- An index is found for what an instruction names, and the right one if the pool has room. -/
def Finds
    (pool grown : Pool)
    (insn resolved : Insn) : Prop :=
  insn.Numbered resolved ∧
    (pool.Coherent → grown.size ≤ 2 ^ 16 → insn.Resolves grown.entries resolved)

/-- Laying nodes out behind others gives each its offset. -/
theorem lays_of_foldlM
    {nodes : List Node}
    {before after : LaidOut}
    {pool grown : Pool}
    (laid : nodes.foldlM add before pool = .ok (after, grown))
    (short : before.size ≤ maxCodeLength) :
    ∃ placed cells,
      Lays (Finds pool grown) before.size nodes placed cells after.size ∧
        after.cells.reverse.flatten = before.cells.reverse.flatten ++ cells ∧
        after.labels = placeLabels before.labels placed ∧
        after.lines.reverse = before.lines.reverse ++ lineMarks nodes ∧
        after.size ≤ maxCodeLength ∧
        (pool.Coherent → grown.size ≤ 2 ^ 16 → Pool.Advances pool grown) := by
  induction nodes generalizing before pool with
  | nil =>
      cases laid
      exact ⟨[], [], .nil _, by simp, rfl, by simp [lineMarks], short, fun coherent _ => .refl coherent⟩
  | cons node nodes inductionHypothesis =>
      cases node with
      | label label =>
          rw [foldlM_label] at laid
          obtain ⟨placed, cells, lays, cellsShape, labelsShape, linesShape, shortAfter, advances⟩ :=
            inductionHypothesis laid short
          exact ⟨_, cells, .label lays, cellsShape, labelsShape, linesShape, shortAfter, advances⟩
      | line number start =>
          rw [foldlM_line] at laid
          obtain ⟨placed, cells, lays, cellsShape, labelsShape, linesShape, shortAfter, advances⟩ :=
            inductionHypothesis laid short
          refine ⟨_, cells, .line lays, cellsShape, labelsShape, ?_, shortAfter, advances⟩
          rw [linesShape]
          simp [lineMarks]
      | insn insn =>
          obtain ⟨front, middle, size, encoded, rfl, shortHere, later⟩ :=
            foldlM_insn_eq_ok_iff.mp laid
          have smaller := (extends_foldlM later).size_le
          obtain ⟨resolved, numbered, rfl, found⟩ := Insn.exists_numbered_of_encode encoded
          obtain ⟨placed, cells, lays, cellsShape, labelsShape, linesShape, shortAfter, advances⟩ :=
            inductionHypothesis later shortHere
          have first (coherent : pool.Coherent) (fits : grown.size ≤ 2 ^ 16) :=
            found coherent (Nat.le_trans smaller fits)
          have finds : Finds pool grown insn resolved :=
            ⟨numbered, fun coherent fits => (first coherent fits).1.extend (extends_foldlM later)⟩
          have laterLays :=
            lays.imp fun _ _ finds =>
              show Finds pool grown _ _ from
                ⟨finds.1, fun coherent fits => finds.2 (first coherent fits).2.coherent fits⟩
          refine
            ⟨_, _, .insn finds laterLays, ?_, labelsShape, ?_, shortAfter, fun coherent fits => ?_⟩
          · rw [cellsShape]
            simp
          · rw [linesShape]
            simp [lineMarks]
          · have reached := (first coherent fits).2
            exact reached.trans (advances reached.coherent fits)

end LaidOut
end JvmClass
