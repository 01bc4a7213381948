import JvmClass.Proofs.Hierarchy.Ends
import Mathlib.Data.List.Chain

namespace JvmClass

/-!
# Climbs that stop by themselves

Nothing limits how many turns a climb from class to superclass takes.  But each
turn that goes on passes one more known class, and none twice, so on a finite
hierarchy the turns run out, in circles as well.  The last turn tells the
ancestry of the class: a walk is given as many steps as a climb can take turns.
-/

namespace Hierarchy

/-- A climb from a class: how many turns went on, what they passed, and where they led. -/
inductive Climbs (hierarchy : Hierarchy) (name : String) : Nat → List String → String → Prop where
  | start : Climbs hierarchy name 0 [] name
  | next {turns : Nat} {passed : List String} {current parent : String} :
      Climbs hierarchy name turns passed current →
      hierarchy.turn passed current = .inr parent →
      Climbs hierarchy name (turns + 1) (current :: passed) parent

/-- Superclasses lead from a class to one that they lead back to. -/
def GoesRound (hierarchy : Hierarchy) (name : String) : Prop :=
  ∃ super,
    Relation.ReflTransGen hierarchy.Extends name super ∧
      Relation.TransGen hierarchy.Extends super super

/-- No superclass follows: at the root, a class without one, an unknown class, an interface. -/
def IsEnd (hierarchy : Hierarchy) (name : String) : Prop :=
  hierarchy.Tops name ∨ hierarchy.Unknown name ∨ hierarchy.IsInterface name

/-- What holds of a climb after each of its turns. -/
structure Climbed
    (hierarchy : Hierarchy)
    (name : String)
    (turns : Nat)
    (passed : List String)
    (current : String) : Prop where
  length : passed.length = turns
  known : ∀ earlier ∈ passed, (hierarchy.lookup earlier).isSome
  distinct : (current :: passed).Nodup
  linked : (current :: passed).IsChain fun parent child => hierarchy.Extends child parent
  starts : (current :: passed).getLast? = some name

variable
  {hierarchy : Hierarchy}
  {name current : String}
  {passed : List String}
  {turns : Nat}

/-! ## One turn -/

theorem IsEnd.not_extends
    {parent : String}
    (ends : hierarchy.IsEnd name) :
    ¬ hierarchy.Extends name parent := by
  rcases ends with tops | unknown | isInterface
  · exact tops.not_extends
  · exact unknown.not_extends
  · exact isInterface.not_extends

theorem turn_eq_inr_iff
    {parent : String} :
    hierarchy.turn passed current = .inr parent ↔
      hierarchy.Extends current parent ∧ parent ∉ current :: passed := by
  rcases cases_of_turn hierarchy passed current with
    ⟨tops, stops⟩ | ⟨unknown, stops⟩ | ⟨isInterface, stops⟩ |
      ⟨above, named, ⟨again, stops⟩ | ⟨fresh, goesOn⟩⟩
  · simp [stops, tops.not_extends]
  · simp [stops, unknown.not_extends]
  · simp [stops, isInterface.not_extends]
  · rw [stops]
    refine ⟨nofun, fun ⟨step, missing⟩ => ?_⟩
    exact absurd (extends_unique named step ▸ again) missing
  · rw [goesOn, Sum.inr.injEq]
    exact ⟨fun same => same ▸ ⟨named, fresh⟩, fun ⟨step, _⟩ => extends_unique named step⟩

/-- A turn that ends a climb with a chain ends it with what was passed. -/
theorem eq_reverse_of_turn
    {names : List String}
    {complete : Bool}
    (stops : hierarchy.turn passed current = .inl (.chain names complete)) :
    names = (current :: passed).reverse := by
  rcases cases_of_turn hierarchy passed current with
    ⟨_, ends⟩ | ⟨_, ends⟩ | ⟨_, ends⟩ | ⟨_, _, ⟨_, ends⟩ | ⟨_, ends⟩⟩
  all_goals
    rw [ends] at stops
    cases stops
  all_goals rfl

/-- A turn that ends a climb comes back to a class, or is taken at an end. -/
theorem circular_or_isEnd_of_turn
    {ended : Ancestry}
    (stops : hierarchy.turn passed current = .inl ended) :
    ended = .circular ∧ (∃ parent ∈ current :: passed, hierarchy.Extends current parent) ∨
      ended ≠ .circular ∧ hierarchy.IsEnd current := by
  rcases cases_of_turn hierarchy passed current with
    ⟨tops, ends⟩ | ⟨unknown, ends⟩ | ⟨isInterface, ends⟩ |
      ⟨parent, named, ⟨again, ends⟩ | ⟨_, ends⟩⟩
  all_goals
    rw [ends] at stops
    cases stops
  · exact .inr ⟨nofun, .inl tops⟩
  · exact .inr ⟨nofun, .inr (.inl unknown)⟩
  · exact .inr ⟨nofun, .inr (.inr isInterface)⟩
  · exact .inl ⟨rfl, parent, again, named⟩

/-! ## All turns -/

/-- A turn that goes on keeps what holds of a climb. -/
theorem Climbed.next
    {parent : String}
    (climbed : hierarchy.Climbed name turns passed current)
    (goesOn : hierarchy.turn passed current = .inr parent) :
    hierarchy.Climbed name (turns + 1) (current :: passed) parent := by
  obtain ⟨named, fresh⟩ := turn_eq_inr_iff.mp goesOn
  obtain ⟨_, info, found, _⟩ := id named
  exact
    { length := by rw [List.length_cons, climbed.length]
      known := List.forall_mem_cons.mpr ⟨by rw [found]; rfl, climbed.known⟩
      distinct := List.nodup_cons.mpr ⟨fresh, climbed.distinct⟩
      linked := List.IsChain.cons_cons named climbed.linked
      starts := by rw [List.getLast?_cons_cons, climbed.starts] }

theorem Climbs.climbed
    (climbs : hierarchy.Climbs name turns passed current) :
    hierarchy.Climbed name turns passed current := by
  induction climbs with
  | start => exact ⟨rfl, nofun, List.nodup_singleton name, .singleton name, rfl⟩
  | next _ goesOn inductionHypothesis => exact inductionHypothesis.next goesOn

/-- No climb takes more turns than classes are known. -/
theorem Climbed.turns_le_size
    (climbed : hierarchy.Climbed name turns passed current) :
    turns ≤ hierarchy.size :=
  climbed.length ▸ length_le_size (List.nodup_cons.mp climbed.distinct).2 climbed.known

/-- Superclasses lead from every class that a climb passed to where it is. -/
theorem Climbed.reaches
    (climbed : hierarchy.Climbed name turns passed current)
    {earlier : String}
    (member : earlier ∈ current :: passed) :
    Relation.ReflTransGen hierarchy.Extends earlier current :=
  climbed.linked.induction (Relation.ReflTransGen hierarchy.Extends · current) _
    (fun _ _ named reached => .head named reached) (fun _ => .refl) earlier member

/-- A climb goes on until a turn tells what a walk with enough steps gives. -/
theorem Climbs.exists_end
    {steps : Nat}
    (climbs : hierarchy.Climbs name turns passed current)
    (enough : hierarchy.size < turns + steps) :
    ∃ later before last,
      hierarchy.Climbs name later before last ∧
        hierarchy.turn before last = .inl (hierarchy.walk passed current steps) := by
  induction steps generalizing turns passed current with
  | zero =>
      have few := climbs.climbed.turns_le_size
      omega
  | succ steps inductionHypothesis =>
      rw [walk_succ]
      cases taken : hierarchy.turn passed current with
      | inl ended => exact ⟨turns, passed, current, climbs, taken⟩
      | inr parent => exact inductionHypothesis (climbs.next taken) (by omega)

/-! ## Circles -/

/-- What lies above a class on a circle lies on a circle. -/
theorem circles_of_reaches
    {low super : String}
    (circles : Relation.TransGen hierarchy.Extends low low)
    (reached : Relation.ReflTransGen hierarchy.Extends low super) :
    Relation.TransGen hierarchy.Extends super super := by
  induction reached with
  | refl => exact circles
  | tail _ named inductionHypothesis =>
      obtain ⟨next, step, back⟩ := Relation.TransGen.head'_iff.mp inductionHypothesis
      exact .tail' (extends_unique step named ▸ back) named

/-- Superclasses that lead to an end do not go round. -/
theorem not_goesRound_of_reaches
    {last : String}
    (reached : Relation.ReflTransGen hierarchy.Extends name last)
    (ends : hierarchy.IsEnd last) :
    ¬ hierarchy.GoesRound name := by
  rintro ⟨super, above, circles⟩
  have onCircle : Relation.TransGen hierarchy.Extends last last := by
    rcases above.total_of_right_unique extends_unique reached with up | down
    · exact circles_of_reaches circles up
    · exact eq_of_reaches (fun _ => ends.not_extends) down ▸ circles
  obtain ⟨next, step, _⟩ := Relation.TransGen.head'_iff.mp onCircle
  exact ends.not_extends step

/-- A climb comes back exactly if superclasses lead round, else it has reached an end. -/
theorem Climbed.goesRound_or_exists_isEnd
    {ended : Ancestry}
    (climbed : hierarchy.Climbed name turns passed current)
    (stops : hierarchy.turn passed current = .inl ended) :
    ended = .circular ∧ hierarchy.GoesRound name ∨
      ended ≠ .circular ∧
        ∃ last, Relation.ReflTransGen hierarchy.Extends name last ∧ hierarchy.IsEnd last := by
  have reached : Relation.ReflTransGen hierarchy.Extends name current :=
    climbed.reaches (List.mem_of_getLast? climbed.starts)
  rcases circular_or_isEnd_of_turn stops with ⟨circular, parent, again, named⟩ | ⟨other, ends⟩
  · exact .inl ⟨circular, parent, reached.tail named, .tail' (climbed.reaches again) named⟩
  · exact .inr ⟨other, current, reached, ends⟩

/-- The names of a chain that a climb ends with. -/
theorem Climbed.chain
    {names : List String}
    {complete : Bool}
    (climbed : hierarchy.Climbed name turns passed current)
    (stops : hierarchy.turn passed current = .inl (.chain names complete)) :
    names.head? = some name ∧ names.Nodup ∧ names.IsChain hierarchy.Extends := by
  obtain rfl := eq_reverse_of_turn stops
  refine ⟨?_, List.nodup_reverse.mpr climbed.distinct, List.isChain_reverse.mpr climbed.linked⟩
  rw [List.head?_reverse, climbed.starts]

/--
On every hierarchy a climb stops, whatever name it starts from: it takes no more
turns than there are classes to know, and passes no class twice.  Its last turn
tells the ancestry of the name.  If that is a chain, its names differ and each is
the superclass that is recorded for the one before.  It is circular exactly if
superclasses lead round, which they do exactly if they reach no end.
-/
theorem stops_of_climbs
    (hierarchy : Hierarchy)
    (name : String) :
    (∀ turns passed current,
        hierarchy.Climbs name turns passed current →
          turns ≤ hierarchy.size ∧ passed.length = turns ∧ (current :: passed).Nodup) ∧
      (∃ turns passed current,
        hierarchy.Climbs name turns passed current ∧
          hierarchy.turn passed current = .inl (hierarchy.ancestry name)) ∧
        (∀ names complete,
          hierarchy.ancestry name = .chain names complete →
            names.head? = some name ∧ names.Nodup ∧ names.IsChain hierarchy.Extends) ∧
          (hierarchy.ancestry name = .circular ↔ hierarchy.GoesRound name) ∧
            (hierarchy.GoesRound name ↔
              ∀ last,
                Relation.ReflTransGen hierarchy.Extends name last → ¬ hierarchy.IsEnd last) := by
  obtain ⟨turns, passed, current, climbs, stops⟩ :=
    Climbs.exists_end (.start : hierarchy.Climbs name 0 [] name)
      (show hierarchy.size < 0 + (hierarchy.size + 1) by omega)
  refine ⟨fun turns passed current climbs => ?_, ⟨turns, passed, current, climbs, stops⟩,
    fun names complete chained => climbs.climbed.chain (stops.trans (congrArg _ chained)), ?_⟩
  · exact ⟨climbs.climbed.turns_le_size, climbs.climbed.length, climbs.climbed.distinct⟩
  · rcases climbs.climbed.goesRound_or_exists_isEnd stops with
      ⟨circular, round⟩ | ⟨other, last, reached, ends⟩
    · exact ⟨iff_of_true circular round, iff_of_true round
        fun last reached ends => not_goesRound_of_reaches reached ends round⟩
    · have straight := not_goesRound_of_reaches reached ends
      exact ⟨iff_of_false other straight, iff_of_false straight fun never => never last reached ends⟩

/-- A class below two that are each the superclass of the other. -/
def circle : Hierarchy :=
  [.table ⟨[("A", .aClass "B"), ("B", .aClass "A"), ("C", .aClass "A")]⟩]

/--
From below a circle superclasses lead round and the climb stops after two turns;
on classes without a circle it passes all of them once.
-/
theorem stops_of_circle :
    circle.Climbs "C" 2 ["A", "C"] "B" ∧
      2 ≤ circle.size ∧
        circle.turn ["A", "C"] "B" = .inl .circular ∧
          circle.ancestry "C" = .circular ∧
            circle.GoesRound "C" ∧
              shapes.ancestry "C" = .chain ["C", "A", "Base", objectName] true ∧
                ["C", "A", "Base", objectName].IsChain shapes.Extends ∧
                  ¬ shapes.GoesRound "C" := by
  have climbs : circle.Climbs "C" 2 ["A", "C"] "B" := .next (.next .start rfl) rfl
  have circular : circle.ancestry "C" = .circular := by decide
  have chained : shapes.ancestry "C" = .chain ["C", "A", "Base", objectName] true := by decide
  obtain ⟨bounded, _, _, circularIff, _⟩ := stops_of_climbs circle "C"
  obtain ⟨_, _, chain, straightIff, _⟩ := stops_of_climbs shapes "C"
  refine ⟨climbs, (bounded 2 ["A", "C"] "B" climbs).1, rfl, circular, circularIff.mp circular,
    chained, (chain _ true chained).2.2, fun round => ?_⟩
  have contradiction := straightIff.mpr round
  rw [chained] at contradiction
  cases contradiction

end Hierarchy
end JvmClass
