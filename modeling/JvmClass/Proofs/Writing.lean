import JvmClass.Body.Assemble
import JvmClass.Proofs.Pool.Intern

namespace JvmClass.Writing

/-!
# Writing step by step

Writing hands the pool from one step to the next.  These facts open a chain of
steps one at a time and say when the pool comes out as it went in.  The longest
such chain assembles a body; what its steps gave is collected in one place.
-/

variable {α β : Type} {pool after : Pool}

theorem bind_eq_ok_iff
    {first : Writing α}
    {second : α → Writing β}
    {result : β} :
    (first >>= second) pool = .ok (result, after) ↔
      ∃ value middle,
        first pool = .ok (value, middle) ∧ second value middle = .ok (result, after) := by
  have unfolded :
      (first >>= second) pool = first pool >>= fun (value, middle) => second value middle := rfl
  rw [unfolded, JvmClass.bind_eq_ok_iff]
  simp only [Prod.exists]

/-- A chain behind a step that needs no pool goes on with the pool it was given. -/
theorem lift_bind_eq_ok_iff
    {first : Except WriteError α}
    {second : α → Writing β}
    {result : β} :
    ((liftM first : Writing α) >>= second) pool = .ok (result, after) ↔
      ∃ value, first = .ok value ∧ second value pool = .ok (result, after) := by
  have lifted :
      (liftM first : Writing α) pool = first >>= fun value => .ok (value, pool) := rfl
  rw [bind_eq_ok_iff, lifted]
  constructor
  · rintro ⟨value, middle, stepped, later⟩
    obtain ⟨_, found, same⟩ := JvmClass.bind_eq_ok_iff.mp stepped
    cases same
    exact ⟨value, found, later⟩
  · rintro ⟨value, found, later⟩
    exact ⟨value, pool, JvmClass.bind_eq_ok_iff.mpr ⟨value, found, rfl⟩, later⟩

theorem intern_bind_eq_ok_iff
    {first : StateM Pool α}
    {second : α → Writing β}
    {result : β} :
    (intern first >>= second) pool = .ok (result, after) ↔
      second (first pool).1 (first pool).2 = .ok (result, after) :=
  Iff.rfl

theorem pure_eq_ok_iff
    {value result : α} :
    (pure value : Writing α) pool = .ok (result, after) ↔ result = value ∧ after = pool := by
  have unfolded : (pure value : Writing α) pool = .ok (value, pool) := rfl
  rw [unfolded, Except.ok.injEq, Prod.mk.injEq]
  constructor
  · rintro ⟨rfl, rfl⟩
    exact ⟨rfl, rfl⟩
  · rintro ⟨rfl, rfl⟩
    exact ⟨rfl, rfl⟩

/-- A row of steps that each leave the pool alone leaves it alone. -/
theorem row_of_mapM
    {step : α → Writing β}
    {items : List α}
    {results : List β}
    (unchanged :
      ∀ item ∈ items, ∀ result after, step item pool = .ok (result, after) → after = pool)
    (written : items.mapM step pool = .ok (results, after)) :
    after = pool ∧
      List.Forall₂ (fun item result => step item pool = .ok (result, pool)) items results := by
  induction items generalizing results with
  | nil =>
      obtain ⟨rfl, rfl⟩ := pure_eq_ok_iff.mp written
      exact ⟨rfl, .nil⟩
  | cons item rest inductionHypothesis =>
      simp only [List.mem_cons, forall_eq_or_imp] at unchanged
      rw [List.mapM_cons] at written
      obtain ⟨result, middle, stepped, others⟩ := bind_eq_ok_iff.mp written
      obtain rfl := unchanged.1 result middle stepped
      obtain ⟨later, _, restWritten, same⟩ := bind_eq_ok_iff.mp others
      obtain ⟨rfl, rfl⟩ := pure_eq_ok_iff.mp same
      obtain ⟨rfl, row⟩ := inductionHypothesis unchanged.2 restWritten
      exact ⟨rfl, .cons stepped row⟩

/-! ## Failures for allowed reasons -/

variable {allowed : WriteError → Prop}

theorem failsOnly_pure (value : α) : FailsOnly allowed ((pure value : Writing α) pool) :=
  failsOnly_ok (value, pool)

theorem failsOnly_intern (action : StateM Pool α) : FailsOnly allowed (intern action pool) :=
  failsOnly_ok (action pool)

theorem failsOnly_lift
    {step : Except WriteError α}
    (failsOnly : FailsOnly allowed step) :
    FailsOnly allowed ((liftM step : Writing α) pool) :=
  failsOnly.bind fun value => failsOnly_ok (value, pool)

theorem failsOnly_bind
    {first : Writing α}
    {second : α → Writing β}
    (failsOnly : FailsOnly allowed (first pool))
    (later : ∀ value middle, FailsOnly allowed (second value middle)) :
    FailsOnly allowed ((first >>= second) pool) :=
  failsOnly.bind fun (value, middle) => later value middle

theorem failsOnly_mapM
    {step : α → Writing β}
    {items : List α}
    (each : ∀ item middle, FailsOnly allowed (step item middle)) :
    FailsOnly allowed (items.mapM step pool) := by
  induction items generalizing pool with
  | nil => exact failsOnly_pure []
  | cons item rest inductionHypothesis =>
      rw [List.mapM_cons]
      refine failsOnly_bind (each item pool) fun _ middle => ?_
      exact failsOnly_bind inductionHypothesis fun _ _ => failsOnly_pure _

end JvmClass.Writing

namespace JvmClass.Body

/-! ## Maxima and frames of a body -/

section Frames

variable
  {context : WriteContext}
  {method : MethodContext}
  {labels : PlacedLabels}
  {code : Bytes}
  {ranges : List HandlerRange}
  {body : Body}

/-- The maxima of an analysis, with its frames or with those of the body at their new places. -/
def analysedFrames
    (context : WriteContext)
    (method : MethodContext)
    (labels : PlacedLabels)
    (code : Bytes)
    (ranges : List HandlerRange)
    (body : Body)
    (pool : Pool)
    (emitFrames : Bool)
    (declared : Std.TreeMap UInt16 FrameState) :
    Writing (UInt16 × UInt16 × List StackMap.Frame) := do
  let analysis ←
    FrameAnalysis.ofCode method code ranges pool ⟨context.hierarchy, declared, emitFrames⟩
  let frames ←
    if emitFrames then Writing.intern analysis.stackMapTable
    else relocateFrames labels [] none body.frames
  return (analysis.maxStack, analysis.maxLocals, frames)

/-- If nothing is computed, the maxima are kept and the frames put in their places. -/
theorem assembleFrames_of_nothing
    (nothing : (context.options.computeFrames || context.options.computeMaxima) = false) :
    assembleFrames context method labels code ranges body = (do
      let frames ← liftM (relocateFrames labels [] none body.frames)
      return (body.maxStack, body.maxLocals, frames)) := by
  simp only [assembleFrames, nothing, Bool.false_eq_true, if_false]

/-- If nothing is computed, only where the frames are placed is looked up. -/
theorem relocated_of_nothing
    {pool after : Pool}
    {maxStack maxLocals : UInt16}
    {frames : List StackMap.Frame}
    (nothing : context.options = ⟨false, false⟩)
    (framed :
      assembleFrames context method labels code ranges body pool =
        .ok ((maxStack, maxLocals, frames), after)) :
    relocateFrames labels [] none body.frames = .ok frames ∧
      maxStack = body.maxStack ∧ maxLocals = body.maxLocals ∧ after = pool := by
  rw [assembleFrames_of_nothing (by rw [nothing]; rfl)] at framed
  obtain ⟨_, relocated, kept⟩ := Writing.lift_bind_eq_ok_iff.mp framed
  obtain ⟨same, rfl⟩ := Writing.pure_eq_ok_iff.mp kept
  cases same
  exact ⟨relocated, rfl, rfl, rfl⟩

/-- If the frames are kept, hints declare nothing. -/
theorem assembleFrames_of_keeping
    (asked : (context.options.computeFrames || context.options.computeMaxima) = true)
    (keeps : body.needsFrames context = false) :
    assembleFrames context method labels code ranges body = (do
      let pool ← get
      analysedFrames context method labels code ranges body pool false ∅) := by
  simp only [assembleFrames, asked, keeps, if_true]
  cases body.hints <;> rfl

/-- If frames are computed, the analysis starts from what the hints declare. -/
theorem assembleFrames_of_needing
    (needs : body.needsFrames context = true) :
    assembleFrames context method labels code ranges body = (do
      let pool ← get
      let declared ← liftM (match body.hints with
        | some hints => hintedStates labels method hints pool
        | none => .ok ∅)
      analysedFrames context method labels code ranges body pool true declared) := by
  have asked : (context.options.computeFrames || context.options.computeMaxima) = true := by
    simp only [needsFrames, Bool.and_eq_true] at needs
    simp only [needs.1.1, Bool.true_or]
  simp only [assembleFrames, asked, needs, if_true]
  cases body.hints <;> rfl

end Frames

/-! ## The steps of an assembled body -/

/-- What each step of assembling a body gave, and the pool that it left to the next. -/
structure Assembling
    (context : WriteContext)
    (method : MethodContext)
    (body : Body)
    (start after : Pool)
    (raw : CodeAttribute Attribute) where
  laidOut : LaidOut
  grown : Pool
  laid : LaidOut.ofNodes body.nodes start = .ok (laidOut, grown)
  linked : laidOut.link = .ok raw.code
  results : List (Option (HandlerEntry × HandlerRange))
  later : Pool
  handled : body.handlers.mapM (assembleHandler laidOut.labels) grown = .ok (results, later)
  handlers : raw.handlers = (results.filterMap id).map Prod.fst
  frames : List StackMap.Frame
  last : Pool
  framed :
    assembleFrames context method laidOut.labels raw.code ((results.filterMap id).map Prod.snd)
        body later =
      .ok ((raw.maxStack, raw.maxLocals, frames), last)
  lines : List LineEntry
  lined : assembleLines laidOut.labels laidOut.lines.reverse = .ok lines
  locals : List LocalEntry
  localed : body.locals.mapM (assembleLocal laidOut.labels) last = .ok (locals, after)
  attributes :
    raw.attributes =
      tableAttribute .lineNumberTable lines ++ tableAttribute .localVariableTable locals ++
        tableAttribute .stackMapTable frames ++ body.attributes

theorem nonempty_assembling
    {context : WriteContext}
    {access : UInt16}
    {name descriptor : String}
    {body : Body}
    {start after : Pool}
    {raw : CodeAttribute Attribute}
    (assembled : body.assemble context access name descriptor start = .ok (raw, after)) :
    Nonempty
      (Assembling context ⟨context.className, access, name, descriptor, body.maxLocals⟩ body start
        after raw) := by
  obtain ⟨laidOut, grown, laid, linking⟩ := Writing.bind_eq_ok_iff.mp assembled
  obtain ⟨code, linked, handling⟩ := Writing.lift_bind_eq_ok_iff.mp linking
  obtain ⟨results, later, handled, framing⟩ := Writing.bind_eq_ok_iff.mp handling
  obtain ⟨⟨maxStack, maxLocals, frames⟩, last, framed, listing⟩ := Writing.bind_eq_ok_iff.mp framing
  obtain ⟨lines, lined, naming⟩ := Writing.lift_bind_eq_ok_iff.mp listing
  obtain ⟨locals, _, localed, ending⟩ := Writing.bind_eq_ok_iff.mp naming
  obtain ⟨rfl, rfl⟩ := Writing.pure_eq_ok_iff.mp ending
  exact ⟨{
    laidOut, grown, laid, linked, results, later, handled, frames, last, framed, lines, lined,
    locals, localed
    handlers := rfl
    attributes := rfl }⟩

end JvmClass.Body
