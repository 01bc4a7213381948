import JvmClass.Proofs.Body.Decode
import JvmClass.Proofs.Writing

namespace JvmClass.Body

/-!
# Regular bodies laid out again

Laid out, a regular body has its instructions at ascending offsets and its
labels at some of them, in the order of their numbers.  Decoding what was laid
out finds the same labels in the same places, whatever the offsets are now.
-/

/-- The labels of laid out instructions with their offsets. -/
def markedOf
    (rows : List (Nat × Spot × Insn))
    (last : Option Label)
    (stop : Nat) : List (Nat × Label) :=
  rows.filterMap (fun row => row.2.1.label.map (row.1, ·)) ++ last.toList.map (stop, ·)

/-- The rows are the steps at ascending offsets, and nodes are placed accordingly. -/
structure LaidRows
    (steps : List (Spot × Insn))
    (last : Option Label)
    (placed : List (Nat × Node))
    (offset stop : Nat)
    (rows : List (Nat × Spot × Insn)) : Prop where
  steps : rows.map Prod.snd = steps
  ascending : (rows.map Prod.fst ++ [stop]).Pairwise (· < ·)
  behind : ∀ place ∈ rows.map Prod.fst ++ [stop], offset ≤ place
  insns : Node.placedInsns placed = rows.map fun row => (row.1, row.2.2)
  labels : Node.placedLabels placed = markedOf rows last stop

section Lays

variable {offset stop : Nat} {placed : List (Nat × Node)} {cells : List Cell}

theorem lays_lines
    {label : Label}
    {numbers : List UInt16}
    {nodes : List Node}
    (lays :
      Lays Insn.Numbered offset (numbers.map (Node.line · label) ++ nodes) placed cells stop) :
    ∃ later,
      Lays Insn.Numbered offset nodes later cells stop ∧
        Node.placedInsns placed = Node.placedInsns later ∧
        Node.placedLabels placed = Node.placedLabels later := by
  induction numbers generalizing placed with
  | nil => exact ⟨placed, lays, rfl, rfl⟩
  | cons number numbers inductionHypothesis =>
      cases lays with
      | line rest =>
          obtain ⟨later, laterLays, insns, labels⟩ := inductionHypothesis rest
          exact ⟨later, laterLays, insns, labels⟩

theorem lays_spot
    {spot : Spot}
    {nodes : List Node}
    (lays : Lays Insn.Numbered offset (spot.nodes ++ nodes) placed cells stop) :
    ∃ later,
      Lays Insn.Numbered offset nodes later cells stop ∧
        Node.placedInsns placed = Node.placedInsns later ∧
        Node.placedLabels placed =
          spot.label.toList.map (offset, ·) ++ Node.placedLabels later := by
  obtain ⟨_ | label, numbers⟩ := spot
  · exact ⟨placed, lays, rfl, rfl⟩
  · cases lays with
    | label rest =>
        obtain ⟨later, laterLays, insns, labels⟩ := lays_lines rest
        refine ⟨later, laterLays, insns, ?_⟩
        exact congrArg ((offset, label) :: ·) labels

/-- Nodes of a regular body lie as their instructions do. -/
theorem exists_laidRows
    {steps : List (Spot × Insn)}
    {last : Option Label}
    (lays : Lays Insn.Numbered offset (Node.ofSteps steps last) placed cells stop)
    (indexed : ∀ step ∈ steps, step.2.Indexed) :
    ∃ rows, LaidRows steps last placed offset stop rows := by
  induction steps generalizing offset placed cells with
  | nil =>
      have final : Lays Insn.Numbered offset (Spot.nodes ⟨last, []⟩ ++ []) placed cells stop := by
        simpa [Node.ofSteps] using lays
      obtain ⟨later, ended, insns, labels⟩ := lays_spot final
      cases ended
      exact ⟨[], rfl, by simp, by simp, insns, by simpa [markedOf, Node.placedLabels] using labels⟩
  | cons step steps inductionHypothesis =>
      simp only [List.mem_cons, forall_eq_or_imp] at indexed
      rw [Node.ofSteps_cons] at lays
      obtain ⟨later, laterLays, insns, labels⟩ := lays_spot lays
      cases laterLays with
      | @insn _ _ _ resolved _ behindPlaced behindCells resolves behindLays =>
          obtain rfl := resolves.eq_of_indexed indexed.1
          have positive := step.2.widths_cells_pos offset
          obtain ⟨rows, laid⟩ := inductionHypothesis behindLays indexed.2
          refine ⟨(offset, step) :: rows, ?_, ?_, ?_, ?_, ?_⟩
          · simp [laid.steps]
          · refine List.pairwise_cons.mpr ⟨?_, laid.ascending⟩
            intro place member
            have := laid.behind place member
            omega
          · intro place member
            rcases List.mem_cons.mp member with rfl | member
            · exact Nat.le_refl _
            · have := laid.behind place member
              omega
          · rw [insns]
            exact congrArg ((offset, step.2) :: ·) laid.insns
          · rw [labels, show Node.placedLabels ((offset, .insn step.2) :: behindPlaced) =
              Node.placedLabels behindPlaced from rfl, laid.labels]
            cases label : step.1.label <;> simp [markedOf, label]

end Lays

/-! ## Labels at their new offsets -/

/-- A regular body of these steps was laid out as these rows. -/
structure Relaid
    (steps : List (Spot × Insn))
    (last : Option Label)
    (labels : PlacedLabels)
    (rows : List (Nat × Spot × Insn))
    (stop : Nat) : Prop where
  steps : rows.map Prod.snd = steps
  ascending : (rows.map Prod.fst ++ [stop]).Pairwise (· < ·)
  short : stop ≤ maxCodeLength
  placed :
    ∀ mark ∈ markedOf rows last stop, labels.offset mark.2 = .ok (UInt16.ofNat mark.1)
  numbered : (markedOf rows last stop).map Prod.snd = List.range (markedOf rows last stop).length

namespace Relaid

variable
  {steps : List (Spot × Insn)} {last : Option Label} {labels : PlacedLabels}
  {rows : List (Nat × Spot × Insn)} {stop : Nat}

theorem mem_markedOf_iff
    {offset : Nat}
    {label : Label} :
    (offset, label) ∈ markedOf rows last stop ↔
      (∃ row ∈ rows, row.1 = offset ∧ row.2.1.label = some label) ∨
        offset = stop ∧ last = some label := by
  simp only [markedOf, List.mem_append, List.mem_filterMap, Option.map_eq_some_iff,
    Prod.mk.injEq, List.mem_map, Option.mem_toList]
  constructor
  · rintro (⟨row, member, _, found, rfl, rfl⟩ | ⟨_, found, rfl, rfl⟩)
    · exact .inl ⟨row, member, rfl, found⟩
    · exact .inr ⟨rfl, found⟩
  · rintro (⟨row, member, rfl, found⟩ | ⟨rfl, found⟩)
    · exact .inl ⟨row, member, label, found, rfl, rfl⟩
    · exact .inr ⟨label, found, rfl, rfl⟩

theorem markedOf_cons
    (row : Nat × Spot × Insn) :
    markedOf (row :: rows) last stop =
      row.2.1.label.toList.map (row.1, ·) ++ markedOf rows last stop := by
  cases label : row.2.1.label <;> simp [markedOf, label]

theorem marks_sublist
    (rows : List (Nat × Spot × Insn))
    (last : Option Label)
    (stop : Nat) :
    ((markedOf rows last stop).map Prod.fst).Sublist (rows.map Prod.fst ++ [stop]) := by
  induction rows with
  | nil => cases last <;> simp [markedOf]
  | cons row rows inductionHypothesis =>
      rw [markedOf_cons, List.map_append]
      cases row.2.1.label with
      | none => exact inductionHypothesis.cons _
      | some label => exact inductionHypothesis.cons_cons _

/-- Labels lie at ascending offsets inside the body. -/
theorem marks_ascending
    (relaid : Relaid steps last labels rows stop) :
    ((markedOf rows last stop).map Prod.fst).Pairwise (· < ·) :=
  relaid.ascending.sublist (marks_sublist rows last stop)

theorem offset_le
    (relaid : Relaid steps last labels rows stop)
    {offset : Nat}
    (member : offset ∈ rows.map Prod.fst ++ [stop]) :
    offset ≤ stop := by
  rcases List.mem_append.mp member with member | member
  · exact Nat.le_of_lt
      ((List.pairwise_append.mp relaid.ascending).2.2 offset member stop (by simp))
  · exact Nat.le_of_eq (List.mem_singleton.mp member)

theorem mark_le
    (relaid : Relaid steps last labels rows stop)
    {offset : Nat}
    (member : offset ∈ (markedOf rows last stop).map Prod.fst) :
    offset ≤ stop :=
  relaid.offset_le ((marks_sublist rows last stop).subset member)

/-- The label of a number is the mark of that number. -/
theorem getElem?_marks_iff
    (relaid : Relaid steps last labels rows stop)
    {offset : Nat}
    {label : Label} :
    ((markedOf rows last stop).map Prod.fst)[label]? = some offset ↔
      (offset, label) ∈ markedOf rows last stop := by
  have numbered := relaid.numbered
  constructor
  · intro found
    rw [List.getElem?_map, Option.map_eq_some_iff] at found
    obtain ⟨⟨place, number⟩, found, rfl⟩ := found
    obtain ⟨inside, same⟩ := List.getElem?_eq_some_iff.mp found
    have counted := congrArg (·[label]?) numbered
    simp only [List.getElem?_map, found, Option.map_some, List.getElem?_range inside,
      Option.some.injEq] at counted
    rw [← counted]
    exact List.mem_of_getElem? found
  · intro member
    obtain ⟨place, inside, same⟩ := List.getElem_of_mem member
    have counted := congrArg (·[place]?) numbered
    simp only [List.getElem?_map, List.getElem?_eq_getElem inside, same, Option.map_some,
      List.getElem?_range inside, Option.some.injEq] at counted
    rw [counted, List.getElem?_map, List.getElem?_eq_getElem inside, same]
    rfl

theorem place_eq
    (relaid : Relaid steps last labels rows stop)
    {offset : Nat}
    {label : Label}
    (member : (offset, label) ∈ markedOf rows last stop) :
    labels.place label = offset := by
  have inside := relaid.mark_le (List.mem_map_of_mem member)
  have short := relaid.short
  rw [maxCodeLength] at short
  rw [PlacedLabels.place_of_offset (relaid.placed _ member)]
  exact UInt16.toNat_ofNat_of_lt' (show offset < 2 ^ 16 by omega)

/-- Labels that are placed lie in the order of their numbers. -/
theorem place_lt_iff
    (relaid : Relaid steps last labels rows stop)
    {first second : Label}
    (firstPlaced : first ∈ (markedOf rows last stop).map Prod.snd)
    (secondPlaced : second ∈ (markedOf rows last stop).map Prod.snd) :
    labels.place first < labels.place second ↔ first < second := by
  obtain ⟨⟨firstOffset, _⟩, firstMember, rfl⟩ := List.mem_map.mp firstPlaced
  obtain ⟨⟨secondOffset, _⟩, secondMember, rfl⟩ := List.mem_map.mp secondPlaced
  obtain ⟨firstInside, firstHere⟩ :=
    List.getElem?_eq_some_iff.mp (relaid.getElem?_marks_iff.mpr firstMember)
  obtain ⟨secondInside, secondHere⟩ :=
    List.getElem?_eq_some_iff.mp (relaid.getElem?_marks_iff.mpr secondMember)
  rw [relaid.place_eq firstMember, relaid.place_eq secondMember, ← firstHere, ← secondHere]
  exact relaid.marks_ascending.sortedLT.getElem_lt_getElem_iff

/-- In front of an instruction stands the label that is placed at its offset. -/
theorem mem_markedOf_row_iff
    (relaid : Relaid steps last labels rows stop)
    {row : Nat × Spot × Insn}
    (member : row ∈ rows)
    (label : Label) :
    (row.1, label) ∈ markedOf rows last stop ↔ row.2.1.label = some label := by
  obtain ⟨ascending, _, below⟩ := List.pairwise_append.mp relaid.ascending
  have inside := below row.1 (List.mem_map_of_mem member) stop (by simp)
  rw [mem_markedOf_iff]
  constructor
  · rintro (⟨other, otherMember, same, found⟩ | ⟨rfl, _⟩)
    · have distinct := ascending.imp Nat.ne_of_lt
      rwa [← List.inj_on_of_nodup_map distinct otherMember member same]
    · omega
  · intro found
    exact .inl ⟨row, member, rfl, found⟩

theorem mem_markedOf_stop_iff
    (relaid : Relaid steps last labels rows stop)
    (label : Label) :
    (stop, label) ∈ markedOf rows last stop ↔ last = some label := by
  rw [mem_markedOf_iff]
  constructor
  · rintro (⟨row, member, same, _⟩ | ⟨_, found⟩)
    · have below :=
        (List.pairwise_append.mp relaid.ascending).2.2 row.1 (List.mem_map_of_mem member) stop
          (by simp)
      omega
    · exact found
  · intro found
    exact .inr ⟨rfl, found⟩

/-! ## Labels found again -/

section Again

variable {references : List Nat}

/-- Where what is referred to is what is marked, labels are found as they were placed. -/
theorem label?_eq_some_iff
    (relaid : Relaid steps last labels rows stop)
    (referred :
      ∀ offset, offset ∈ references ↔ offset ∈ (markedOf rows last stop).map Prod.fst)
    {offset : Nat}
    {label : Label} :
    (Labeling.ofOffsets stop references).label? offset = some label ↔
      (offset, label) ∈ markedOf rows last stop :=
  (Labeling.label?_eq_some_iff relaid.marks_ascending referred fun _ => relaid.mark_le).trans
    relaid.getElem?_marks_iff

theorem labelAt_eq
    (relaid : Relaid steps last labels rows stop)
    (referred :
      ∀ offset, offset ∈ references ↔ offset ∈ (markedOf rows last stop).map Prod.fst)
    {offset : Nat}
    {label : Label}
    (member : (offset, label) ∈ markedOf rows last stop) :
    (Labeling.ofOffsets stop references).labelAt offset = label :=
  Labeling.labelAt_eq relaid.marks_ascending referred (fun _ => relaid.mark_le)
    (relaid.getElem?_marks_iff.mpr member)

theorem labelAt_place
    (relaid : Relaid steps last labels rows stop)
    (referred :
      ∀ offset, offset ∈ references ↔ offset ∈ (markedOf rows last stop).map Prod.fst)
    {label : Label}
    (placed : label ∈ (markedOf rows last stop).map Prod.snd) :
    (Labeling.ofOffsets stop references).labelAt (labels.place label) = label := by
  obtain ⟨⟨offset, _⟩, member, rfl⟩ := List.mem_map.mp placed
  rw [relaid.place_eq member]
  exact relaid.labelAt_eq referred member

end Again

end Relaid

/-! ## Lines found again -/

section Lines

variable {steps : List (Spot × Insn)}

theorem labels_cons
    {step : Spot × Insn}
    {label : Label}
    (labelled : step.1.label = some label) :
    (step :: steps).filterMap (·.1.label) = label :: steps.filterMap (·.1.label) := by
  simp [labelled]

theorem label_of_mem_marks
    {spot : Spot}
    {mark : UInt16 × Label}
    (member : mark ∈ spot.marks) :
    spot.label = some mark.2 := by
  obtain ⟨_ | label, numbers⟩ := spot
  · cases member
  · obtain ⟨number, _, rfl⟩ := List.mem_map.mp member
    rfl

theorem filter_marks_eq_nil
    {label : Label}
    (missing : label ∉ steps.filterMap (·.1.label)) :
    (steps.flatMap (·.1.marks)).filter (·.2 == label) = [] := by
  rw [List.filter_eq_nil_iff]
  intro mark member same
  obtain ⟨step, listed, marked⟩ := List.mem_flatMap.mp member
  refine missing (List.mem_filterMap.mpr ⟨step, listed, ?_⟩)
  rw [label_of_mem_marks marked, eq_of_beq same]

/-- The marks of a label are those of the one spot that has the label. -/
theorem filter_marks_eq
    {step : Spot × Insn}
    {label : Label}
    (distinct : (steps.filterMap (·.1.label)).Nodup)
    (member : step ∈ steps)
    (labelled : step.1.label = some label) :
    (steps.flatMap (·.1.marks)).filter (·.2 == label) = step.1.marks := by
  induction steps with
  | nil => cases member
  | cons first steps inductionHypothesis =>
      rw [List.flatMap_cons, List.filter_append]
      rcases List.mem_cons.mp member with rfl | later
      · rw [labels_cons labelled, List.nodup_cons] at distinct
        have own : step.1.marks.filter (·.2 == label) = step.1.marks := by
          rw [List.filter_eq_self]
          intro mark marked
          have same := label_of_mem_marks marked
          rw [labelled, Option.some.injEq] at same
          exact beq_iff_eq.mpr same.symm
        rw [own, filter_marks_eq_nil distinct.1, List.append_nil]
      · have listed : label ∈ steps.filterMap (·.1.label) :=
          List.mem_filterMap.mpr ⟨step, later, labelled⟩
        have distinctLater : (steps.filterMap (·.1.label)).Nodup :=
          distinct.sublist ((List.sublist_cons_self first steps).filterMap _)
        have foreign : first.1.marks.filter (·.2 == label) = [] := by
          rw [List.filter_eq_nil_iff]
          intro mark marked same
          have labelledFirst := label_of_mem_marks marked
          rw [eq_of_beq same] at labelledFirst
          rw [labels_cons labelledFirst, List.nodup_cons] at distinct
          exact distinct.1 listed
        rw [foreign, List.nil_append]
        exact inductionHypothesis distinctLater later

theorem nodes_eq_of_label
    {spot : Spot}
    {label : Label}
    (labelled : spot.label = some label) :
    spot.nodes = Spot.nodes ⟨some label, spot.marks.map Prod.fst⟩ := by
  obtain ⟨_, numbers⟩ := spot
  cases labelled
  simp [Spot.nodes, Spot.marks]

end Lines

end JvmClass.Body
