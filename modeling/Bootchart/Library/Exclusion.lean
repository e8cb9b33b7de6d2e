import Mathlib.Data.Set.Insert
import Mathlib.Logic.Function.Basic

/-!
# Appearing before looking

Participants that share nothing but the knowledge of who is present can exclude each other. Each
of them appears first, looks at everybody who was there when it began to look, and goes inside if
it has met nobody. Two that look at the same time may both turn back, but they never both go
inside.
-/

namespace Library

/-- Where a participant stands. -/
inductive Phase (ι : Type*)
  /-- It is not there, or has nothing to do with the others. -/
  | away
  /-- It looks for the others and has not yet looked at some of them. -/
  | looking (unseen : Set ι)
  /-- It has met nobody. -/
  | inside

namespace Phase

variable {ι : Type*} {phases next : ι → Phase ι}

/-- At most one is inside, whoever looks will look at the one inside, and of two that look one
will look at the other. -/
structure Exclusive (phases : ι → Phase ι) : Prop where
  /-- At most one is inside. -/
  alone : ∀ i j, phases i = inside → phases j = inside → i = j
  /-- Whoever looks will look at the one inside. -/
  watched : ∀ i j unseen, phases i = inside → phases j = looking unseen → i ∈ unseen
  /-- Of two that look, one will look at the other. -/
  met : ∀ i j first second, i ≠ j → phases i = looking first → phases j = looking second →
    i ∈ second ∨ j ∈ first

/-- Nobody is there. -/
theorem Exclusive.of_away (nobody : ∀ i, phases i = away) : Exclusive phases where
  alone := by
    intro i _ isInside
    rw [nobody i] at isInside
    exact nomatch isInside
  watched := by
    intro i _ _ isInside
    rw [nobody i] at isInside
    exact nomatch isInside
  met := by
    intro i _ _ _ _ looks
    rw [nobody i] at looks
    exact nomatch looks

variable [DecidableEq ι]

/-- What a participant does. -/
inductive Step (phases : ι → Phase ι) : (ι → Phase ι) → Prop
  /-- Begin to look, at least at everybody who is there. -/
  | look (i : ι) (unseen : Set ι)
      (everybody : ∀ j, j ≠ i → phases j ≠ away → j ∈ unseen) :
      Step phases (Function.update phases i (looking unseen))
  /-- Look at one who is away, or at oneself. -/
  | pass (i j : ι) (unseen : Set ι)
      (looks : phases i = looking unseen)
      (nobody : j ≠ i → phases j = away) :
      Step phases (Function.update phases i (looking (unseen \ {j})))
  /-- Go inside when all the others that are left are away. -/
  | enter (i : ι) (unseen : Set ι)
      (looks : phases i = looking unseen)
      (nobody : ∀ j ∈ unseen, j ≠ i → phases j = away) :
      Step phases (Function.update phases i inside)
  /-- Go away, from wherever it is. -/
  | leave (i : ι) :
      Step phases (Function.update phases i away)

/-- A participant that goes away does not disturb the others. -/
theorem Exclusive.leave (exclusive : Exclusive phases) (i : ι) :
    Exclusive (Function.update phases i away) := by
  have unchanged : ∀ j phase, phase ≠ away → Function.update phases i away j = phase →
      phases j = phase := by
    intro j phase there same
    rcases eq_or_ne j i with rfl | other
    · rw [Function.update_self] at same
      exact absurd same.symm there
    · rwa [Function.update_of_ne other] at same
  constructor
  · intro j k jInside kInside
    exact exclusive.alone j k (unchanged j _ nofun jInside) (unchanged k _ nofun kInside)
  · intro j k unseen jInside kLooks
    exact exclusive.watched j k unseen (unchanged j _ nofun jInside) (unchanged k _ nofun kLooks)
  · intro j k first second different jLooks kLooks
    exact exclusive.met j k first second different (unchanged j _ nofun jLooks)
      (unchanged k _ nofun kLooks)

/-- A participant may look, if it is looked at by whoever it does not look at. -/
theorem Exclusive.look
    (exclusive : Exclusive phases)
    {i : ι}
    {unseen : Set ι}
    (watches : ∀ j, phases j = inside → j ≠ i → j ∈ unseen)
    (meets : ∀ j other, j ≠ i → phases j = looking other → i ∈ other ∨ j ∈ unseen) :
    Exclusive (Function.update phases i (looking unseen)) := by
  constructor
  · intro j k jInside kInside
    have jOther : j ≠ i := by
      rintro rfl
      rw [Function.update_self] at jInside
      exact nomatch jInside
    have kOther : k ≠ i := by
      rintro rfl
      rw [Function.update_self] at kInside
      exact nomatch kInside
    rw [Function.update_of_ne jOther] at jInside
    rw [Function.update_of_ne kOther] at kInside
    exact exclusive.alone j k jInside kInside
  · intro j k seen jInside kLooks
    have jOther : j ≠ i := by
      rintro rfl
      rw [Function.update_self] at jInside
      exact nomatch jInside
    rw [Function.update_of_ne jOther] at jInside
    rcases eq_or_ne k i with rfl | kOther
    · rw [Function.update_self] at kLooks
      obtain rfl := Phase.looking.inj kLooks
      exact watches j jInside jOther
    · rw [Function.update_of_ne kOther] at kLooks
      exact exclusive.watched j k seen jInside kLooks
  · intro j k first second different jLooks kLooks
    rcases eq_or_ne j i with rfl | jOther
    · rw [Function.update_self] at jLooks
      rw [Function.update_of_ne different.symm] at kLooks
      obtain rfl := Phase.looking.inj jLooks
      exact meets k second different.symm kLooks
    rw [Function.update_of_ne jOther] at jLooks
    rcases eq_or_ne k i with rfl | kOther
    · rw [Function.update_self] at kLooks
      obtain rfl := Phase.looking.inj kLooks
      exact (meets j first jOther jLooks).symm
    · rw [Function.update_of_ne kOther] at kLooks
      exact exclusive.met j k first second different jLooks kLooks

/-- A participant goes inside if whoever is there will look at it. -/
theorem Exclusive.enter
    (exclusive : Exclusive phases)
    {i : ι}
    (empty : ∀ j, j ≠ i → phases j ≠ inside)
    (watched : ∀ j unseen, j ≠ i → phases j = looking unseen → i ∈ unseen) :
    Exclusive (Function.update phases i inside) := by
  have isEntered : ∀ j, Function.update phases i inside j = inside → j = i := by
    intro j jInside
    by_contra other
    rw [Function.update_of_ne other] at jInside
    exact empty j other jInside
  have outside : ∀ j unseen, Function.update phases i inside j = looking unseen →
      j ≠ i ∧ phases j = looking unseen := by
    intro j unseen looks
    rcases eq_or_ne j i with rfl | other
    · rw [Function.update_self] at looks
      exact nomatch looks
    · rw [Function.update_of_ne other] at looks
      exact ⟨other, looks⟩
  constructor
  · intro j k jInside kInside
    rw [isEntered j jInside, isEntered k kInside]
  · intro j k unseen jInside kLooks
    obtain ⟨other, looks⟩ := outside k unseen kLooks
    rw [isEntered j jInside]
    exact watched k unseen other looks
  · intro j k first second different jLooks kLooks
    exact exclusive.met j k first second different (outside j first jLooks).2
      (outside k second kLooks).2

/-- Every step keeps the participants apart. -/
theorem Exclusive.step (exclusive : Exclusive phases) (stepped : Step phases next) :
    Exclusive next := by
  cases stepped with
  | look i unseen everybody =>
      apply exclusive.look
      · intro j isInside other
        exact everybody j other (by rw [isInside]; nofun)
      · intro j seen other looks
        exact Or.inr (everybody j other (by rw [looks]; nofun))
  | pass i j unseen looks nobody =>
      have there : ∀ k, k ≠ i → phases k ≠ away → k ∈ unseen → k ∈ unseen \ {j} := by
        intro k other present isUnseen
        refine ⟨isUnseen, ?_⟩
        rintro rfl
        exact present (nobody other)
      apply exclusive.look
      · intro k isInside other
        exact there k other (by rw [isInside]; nofun) (exclusive.watched k i _ isInside looks)
      · intro k seen other kLooks
        rcases exclusive.met i k _ _ other.symm looks kLooks with isSeen | isUnseen
        · exact Or.inl isSeen
        · exact Or.inr (there k other (by rw [kLooks]; nofun) isUnseen)
  | enter i unseen looks nobody =>
      apply exclusive.enter
      · intro j other isInside
        have absent := nobody j (exclusive.watched j i _ isInside looks) other
        rw [isInside] at absent
        exact nomatch absent
      · intro j seen other jLooks
        rcases exclusive.met i j _ _ other.symm looks jLooks with isSeen | isUnseen
        · exact isSeen
        · have absent := nobody j isUnseen other
          rw [jLooks] at absent
          exact nomatch absent
  | leave i => exact exclusive.leave i

end Phase
end Library
