import JvmClass.Proofs.ClassModel.Growing
import JvmClass.Proofs.ClassModel.Read

namespace JvmClass

/-!
# The parts of a written class

A written class is its head, its final pool and its members one behind the
other, each written against a pool that the first one leads to and that leads on
to the final one.
-/

/-- The parts that a class is written in. -/
structure WrittenParts where
  /-- The pool once everything is written. -/
  pool : Pool
  poolBytes : Bytes
  thisClass : UInt16
  superClass : UInt16
  interfaces : List UInt16
  fields : List Bytes
  methods : List Bytes
  attributes : Bytes

namespace WrittenParts

/-- The bytes of the fields. -/
def fieldBytes (parts : WrittenParts) : Bytes :=
  Bytes.count16 parts.fields ++ parts.fields.flatten

/-- The bytes of the methods. -/
def methodBytes (parts : WrittenParts) : Bytes :=
  Bytes.count16 parts.methods ++ parts.methods.flatten

/-- The bytes behind the pool, for a class with some flags. -/
def content (parts : WrittenParts) (access : UInt16) : Bytes :=
  Bytes.ofUInt16 access ++ (Bytes.ofUInt16 parts.thisClass ++ (Bytes.ofUInt16 parts.superClass ++
    (Bytes.table16 Bytes.ofUInt16 parts.interfaces ++
      (parts.fieldBytes ++ (parts.methodBytes ++ parts.attributes)))))

end WrittenParts

/-- Something is written as some bytes on the way from one pool to another. -/
def Writing.Between {α : Type} (first last : Pool) (encode : α → Writing Bytes) (item : α)
    (bytes : Bytes) : Prop :=
  ∃ before next,
    first.LeadsTo before ∧ encode item before = .ok (bytes, next) ∧ next.LeadsTo last

/-- A class is written in these parts. -/
structure ClassModel.WrittenAs
    (model : ClassModel)
    (context : WriteContext)
    (parts : WrittenParts) : Prop where
  grows : Pool.Grows model.pool parts.pool
  short : parts.pool.size < 2 ^ 16
  poolEncoded : parts.pool.encode = .ok parts.poolBytes
  thisNamed : parts.pool.className parts.thisClass = .ok model.name
  superNamed : parts.pool.ClassOrNone parts.superClass model.superName
  interfacesNamed :
    List.Forall₂ (fun number name => parts.pool.className number = .ok name)
      parts.interfaces model.interfaces
  fields :
    List.Forall₂ (Writing.Between model.pool parts.pool Field.encode) model.fields parts.fields
  methods :
    List.Forall₂ (Writing.Between model.pool parts.pool (Method.encode context))
      model.methods parts.methods
  attributes :
    Writing.Between model.pool parts.pool Writing.attributes model.attributes parts.attributes

namespace Writing

section Names

variable {pool next last : Pool} {bytes : Bytes}

/-- The name of a class that was written stands in every later pool that is large enough. -/
theorem exists_className
    {name : String}
    (sound : pool.Sound)
    (short : last.size ≤ 2 ^ 16)
    (written : className name pool = .ok (bytes, next))
    (leads : next.LeadsTo last) :
    ∃ number, bytes = Bytes.ofUInt16 number ∧ last.className number = .ok name := by
  obtain ⟨rfl, rfl⟩ := Prod.mk.inj (Except.ok.inj written)
  have fits := Nat.le_trans leads.kept.size_le short
  exact ⟨_, rfl, leads.kept.classNameAt (Pool.advances_internClass sound.coherent rfl fits).2⟩

theorem exists_classOrNone
    {name : Option String}
    (sound : pool.Sound)
    (lastSound : last.Sound)
    (short : last.size ≤ 2 ^ 16)
    (written : classOrNone name pool = .ok (bytes, next))
    (leads : next.LeadsTo last) :
    ∃ number, bytes = Bytes.ofUInt16 number ∧ last.ClassOrNone number name := by
  cases name with
  | none =>
      obtain ⟨rfl, rfl⟩ := pure_eq_ok_iff.mp written
      exact ⟨0, rfl, rfl⟩
  | some name =>
      obtain ⟨number, rfl, named⟩ := exists_className sound short written leads
      have stands : (Constant.classRef name).StandsAt last.entries number := named
      exact ⟨number, rfl, lastSound.ne_zero stands, named⟩

theorem exists_text
    {value : String}
    (sound : pool.Sound)
    (short : last.size ≤ 2 ^ 16)
    (written : text value pool = .ok (bytes, next))
    (leads : next.LeadsTo last) :
    ∃ number, bytes = Bytes.ofUInt16 number ∧ last.text number = .ok value := by
  obtain ⟨rfl, rfl⟩ := Prod.mk.inj (Except.ok.inj written)
  have fits := Nat.le_trans leads.kept.size_le short
  exact ⟨_, rfl, leads.kept.textAt (Pool.advances_internText sound.coherent rfl fits).2⟩

theorem exists_classNames
    {names : List String}
    {pieces : List Bytes}
    (sound : pool.Sound)
    (short : last.size ≤ 2 ^ 16)
    (written : List.Forall₂ (Between pool last className) names pieces) :
    ∃ numbers : List UInt16,
      pieces = numbers.map Bytes.ofUInt16 ∧
        List.Forall₂ (fun number name => last.className number = .ok name) numbers names := by
  induction written with
  | nil => exact ⟨[], rfl, .nil⟩
  | cons first _ inductionHypothesis =>
      obtain ⟨before, next, reached, written, leads⟩ := first
      have fits := ((growing_className _ _ _ _ written).trans leads).kept.size_le
      have beforeSound := (reached.grows sound (Nat.le_trans fits short)).sound
      obtain ⟨number, rfl, named⟩ := exists_className beforeSound short written leads
      obtain ⟨numbers, rfl, others⟩ := inductionHypothesis
      exact ⟨number :: numbers, rfl, .cons named others⟩

end Names

/-- A table that was written is a count and one piece for each element. -/
theorem exists_pieces_of_table16
    {α : Type}
    {encode : α → Writing Bytes}
    {elements : List α}
    {bytes : Bytes}
    {first pool after last : Pool}
    (growing : ∀ element, Growing (encode element))
    (reached : first.LeadsTo pool)
    (written : table16 encode elements pool = .ok (bytes, after))
    (leads : after.LeadsTo last) :
    ∃ pieces : List Bytes,
      bytes = Bytes.count16 pieces ++ pieces.flatten ∧
        List.Forall₂ (Between first last encode) elements pieces := by
  obtain ⟨pieces, middle, row, ended⟩ := bind_eq_ok_iff.mp written
  obtain ⟨rfl, rfl⟩ := pure_eq_ok_iff.mp ended
  have rows := rows_of_mapM growing row
  refine ⟨pieces, by simp only [Bytes.count16, rows.length_eq], rows.imp ?_⟩
  rintro _ _ ⟨before, next, later, written, goesOn⟩
  exact ⟨before, next, reached.trans later, written, goesOn.trans leads⟩

end Writing

namespace ClassModel

variable {model : ClassModel} {options : WriteOptions} {hierarchy : Hierarchy} {written : Bytes}

/-- What a class lends to its bodies when it is written. -/
def writeContext (model : ClassModel) (options : WriteOptions) (hierarchy : Hierarchy) :
    WriteContext :=
  ⟨model.name, model.major, options, .table model.ownTable :: hierarchy⟩

/-- A class that was written was written in parts. -/
theorem exists_parts_of_writeWith
    (sound : model.pool.Sound)
    (encoded : model.writeWith options hierarchy = .ok written) :
    ∃ parts,
      model.WrittenAs (model.writeContext options hierarchy) parts ∧
        written =
          Bytes.ofUInt32 classMagic ++ (Bytes.ofUInt16 model.minor ++
            (Bytes.ofUInt16 model.major ++ (parts.poolBytes ++ parts.content model.access))) := by
  obtain ⟨⟨content, pool⟩, contentWritten, encoded⟩ := bind_eq_ok_iff.mp encoded
  obtain ⟨poolBytes, poolEncoded, same⟩ := bind_eq_ok_iff.mp encoded
  cases same
  have short : pool.size < 2 ^ 16 := by
    unfold Pool.encode at poolEncoded
    split at poolEncoded
    · assumption
    · cases poolEncoded
  have fits := Nat.le_of_lt short
  have grows := (growing_encodeContent _ _ _ _ _ contentWritten).grows sound fits
  obtain ⟨thisBytes, first, thisWritten, contentWritten⟩ := Writing.bind_eq_ok_iff.mp contentWritten
  obtain ⟨superBytes, second, superWritten, contentWritten⟩ :=
    Writing.bind_eq_ok_iff.mp contentWritten
  obtain ⟨interfaceBytes, third, interfacesWritten, contentWritten⟩ :=
    Writing.bind_eq_ok_iff.mp contentWritten
  obtain ⟨fieldBytes, fourth, fieldsWritten, contentWritten⟩ :=
    Writing.bind_eq_ok_iff.mp contentWritten
  obtain ⟨methodBytes, fifth, methodsWritten, contentWritten⟩ :=
    Writing.bind_eq_ok_iff.mp contentWritten
  obtain ⟨attributeBytes, last, attributesWritten, ended⟩ :=
    Writing.bind_eq_ok_iff.mp contentWritten
  obtain ⟨rfl, rfl⟩ := Writing.pure_eq_ok_iff.mp ended
  -- What leads to each step from the first pool, and from each step to the last one.
  have toFirst := Writing.growing_className _ _ _ _ thisWritten
  have toSecond := toFirst.trans (Writing.growing_classOrNone _ _ _ _ superWritten)
  have fromFifth := Writing.growing_attributes _ _ _ _ attributesWritten
  have fromFourth :=
    (Writing.growing_table16 (Method.growing_encode _) _ _ _ _ methodsWritten).trans fromFifth
  have fromThird :=
    (Writing.growing_table16 Field.growing_encode _ _ _ _ fieldsWritten).trans fromFourth
  have toThird :=
    toSecond.trans (Writing.growing_table16 Writing.growing_className _ _ _ _ interfacesWritten)
  have toFourth :=
    toThird.trans (Writing.growing_table16 Field.growing_encode _ _ _ _ fieldsWritten)
  have toFifth :=
    toFourth.trans (Writing.growing_table16 (Method.growing_encode _) _ _ _ _ methodsWritten)
  have fromSecond :=
    (Writing.growing_table16 Writing.growing_className _ _ _ _ interfacesWritten).trans fromThird
  have fromFirst := (Writing.growing_classOrNone _ _ _ _ superWritten).trans fromSecond
  have firstSound := (toFirst.grows sound (Nat.le_trans fromFirst.kept.size_le fits)).sound
  obtain ⟨thisClass, rfl, thisNamed⟩ := Writing.exists_className sound fits thisWritten fromFirst
  obtain ⟨superClass, rfl, superNamed⟩ :=
    Writing.exists_classOrNone firstSound grows.sound fits superWritten fromSecond
  obtain ⟨interfacePieces, rfl, interfaceRow⟩ :=
    Writing.exists_pieces_of_table16 Writing.growing_className toSecond interfacesWritten fromThird
  obtain ⟨interfaces, rfl, interfacesNamed⟩ :=
    Writing.exists_classNames sound fits interfaceRow
  obtain ⟨fields, rfl, fieldRow⟩ :=
    Writing.exists_pieces_of_table16 Field.growing_encode toThird fieldsWritten fromFourth
  obtain ⟨methods, rfl, methodRow⟩ :=
    Writing.exists_pieces_of_table16 (Method.growing_encode _) toFourth methodsWritten fromFifth
  refine ⟨⟨_, poolBytes, thisClass, superClass, interfaces, fields, methods, attributeBytes⟩,
    ⟨grows, short, poolEncoded, thisNamed, superNamed, interfacesNamed, fieldRow, methodRow,
      ⟨fifth, _, toFifth, attributesWritten, .refl _⟩⟩, ?_⟩
  simp [WrittenParts.content, WrittenParts.fieldBytes, WrittenParts.methodBytes, Bytes.table16,
    Bytes.count16, List.flatMap_def]

end ClassModel
end JvmClass
