import Mathlib.Data.List.Forall2
import Mathlib.Tactic.Common

/-!
# Mapping with failure

A list is mapped by a function that may fail. If it does not fail on the
elements of the list the result is the plain map.
-/

namespace Library

/-- A function that does not fail on a list. -/
theorem mapM_eq_pure
    {m : Type → Type}
    [Monad m]
    [LawfulMonad m]
    {α β : Type}
    {read : α → m β}
    {value : α → β}
    {inputs : List α}
    (reads : ∀ input ∈ inputs, read input = pure (value input)) :
    inputs.mapM read = pure (inputs.map value) := by
  induction inputs with
  | nil => rfl
  | cons input inputs inductionHypothesis =>
      rw [List.mapM_cons, reads input (by simp),
        inductionHypothesis fun other member =>
          reads other (List.mem_cons_of_mem _ member)]
      simp

variable {α β : Type}

/-- A sequence that does not fail consists of parts that do not. -/
theorem bind_eq_ok
    {ε : Type}
    {first : Except ε α}
    {next : α → Except ε β}
    {result : β} :
    first >>= next = .ok result ↔
      ∃ value, first = .ok value ∧ next value = .ok result := by
  cases first with
  | ok value =>
      constructor
      · exact fun same => ⟨value, rfl, same⟩
      · rintro ⟨_, ⟨⟩, same⟩
        exact same
  | error exception =>
      constructor
      · exact fun same => nomatch same
      · rintro ⟨_, ⟨⟩, -⟩

/-- A changed result comes from a result. -/
theorem map_eq_ok
    {ε : Type}
    {first : Except ε α}
    {change : α → β}
    {result : β} :
    first.map change = .ok result ↔
      ∃ value, first = .ok value ∧ change value = result := by
  cases first with
  | ok value => simp [Except.map]
  | error exception => simp [Except.map]

/-- A list of results as long as the list of inputs lacks none of them. -/
theorem forall_of_forall₂_filter_map
    {relation : α → β → Prop}
    {keep : α → Bool}
    {value : α → β}
    {inputs : List α}
    (related : List.Forall₂ relation inputs ((inputs.filter keep).map value)) :
    ∀ input ∈ inputs, keep input ∧ relation input (value input) := by
  have all : inputs.filter keep = inputs := by
    apply (List.filter_sublist).eq_of_length
    rw [related.length_eq, List.length_map]
  have kept := List.filter_eq_self.mp all
  rw [all] at related
  intro input member
  exact ⟨kept input member,
    List.forall₂_same.mp (List.forall₂_map_right_iff.mp related) input member⟩

/-- Two relations between the same lists hold together. -/
theorem exists_of_forall₂
    {first second : α → β → Prop}
    {inputs : List α}
    {outputs : List β}
    (relatedFirst : List.Forall₂ first inputs outputs)
    (relatedSecond : List.Forall₂ second inputs outputs)
    {input : α}
    (member : input ∈ inputs) :
    ∃ output, first input output ∧ second input output := by
  induction relatedFirst with
  | nil => exact absurd member (by simp)
  | cons related _ inductionHypothesis =>
      obtain ⟨also, rest⟩ := List.forall₂_cons.mp relatedSecond
      rcases List.mem_cons.mp member with rfl | inRest
      · exact ⟨_, related, also⟩
      · exact inductionHypothesis rest inRest

/-- A relation may be weakened on the elements of the list. -/
theorem forall₂_imp_of_mem
    {first second : α → β → Prop}
    {inputs : List α}
    {outputs : List β}
    (implies : ∀ input ∈ inputs, ∀ output, first input output → second input output)
    (related : List.Forall₂ first inputs outputs) :
    List.Forall₂ second inputs outputs := by
  induction related with
  | nil => exact List.Forall₂.nil
  | cons isRelated _ inductionHypothesis =>
      exact List.Forall₂.cons (implies _ (by simp) _ isRelated)
        (inductionHypothesis fun input member =>
          implies input (List.mem_cons_of_mem _ member))

/-- What an element of the list is related to. -/
theorem exists_mem_of_forall₂
    {relation : α → β → Prop}
    {inputs : List α}
    {outputs : List β}
    (related : List.Forall₂ relation inputs outputs)
    {input : α}
    (member : input ∈ inputs) : ∃ output ∈ outputs, relation input output := by
  induction related with
  | nil => contradiction
  | cons isRelated _ inductionHypothesis =>
      rcases List.mem_cons.mp member with rfl | inRest
      · exact ⟨_, List.mem_cons_self, isRelated⟩
      · obtain ⟨output, isOutput, holds⟩ := inductionHypothesis inRest
        exact ⟨output, List.mem_cons_of_mem _ isOutput, holds⟩

/-- Two relations one after the other. -/
theorem forall₂_trans
    {γ : Type*}
    {first : α → β → Prop}
    {second : β → γ → Prop}
    {both : α → γ → Prop}
    (compose : ∀ a b c, first a b → second b c → both a c)
    {inputs : List α}
    {middles : List β}
    {outputs : List γ}
    (relatedFirst : List.Forall₂ first inputs middles)
    (relatedSecond : List.Forall₂ second middles outputs) :
    List.Forall₂ both inputs outputs := by
  induction relatedFirst generalizing outputs with
  | nil =>
      rw [List.forall₂_nil_left_iff.mp relatedSecond]
      exact .nil
  | cons isFirst _ inductionHypothesis =>
      obtain ⟨output, others, isSecond, rest, rfl⟩ :=
        List.forall₂_cons_left_iff.mp relatedSecond
      exact .cons (compose _ _ _ isFirst isSecond) (inductionHypothesis rest)

/-- A function with at least one value for each input gives at least as many values. -/
theorem length_le_length_flatMap
    {values : α → List β}
    {inputs : List α}
    (nonempty : ∀ input ∈ inputs, values input ≠ []) :
    inputs.length ≤ (inputs.flatMap values).length := by
  induction inputs with
  | nil => exact Nat.le_refl 0
  | cons input inputs inductionHypothesis =>
      obtain ⟨isNonempty, rest⟩ := List.forall_mem_cons.mp nonempty
      have some := List.length_pos_of_ne_nil isNonempty
      have others := inductionHypothesis rest
      rw [List.flatMap_cons, List.length_append, List.length_cons]
      omega

/-- A function with at least one value for each input has exactly one if they stand side by
side. -/
theorem forall₂_flatMap_iff
    {relation : α → β → Prop}
    {values : α → List β}
    {inputs : List α}
    (nonempty : ∀ input ∈ inputs, values input ≠ []) :
    List.Forall₂ relation inputs (inputs.flatMap values) ↔
      ∀ input ∈ inputs, ∃ value, values input = [value] ∧ relation input value := by
  induction inputs with
  | nil => simp
  | cons input inputs inductionHypothesis =>
      obtain ⟨isNonempty, rest⟩ := List.forall_mem_cons.mp nonempty
      rw [List.forall_mem_cons, ← inductionHypothesis rest]
      obtain ⟨value, more, areValues⟩ := List.exists_cons_of_ne_nil isNonempty
      rw [List.flatMap_cons, areValues, List.cons_append, List.forall₂_cons]
      constructor
      · rintro ⟨isRelated, related⟩
        -- a second value would be one too many
        have sameLength := related.length_eq
        have enough := length_le_length_flatMap rest
        rw [List.length_append] at sameLength
        obtain rfl := List.length_eq_zero_iff.mp (show more.length = 0 by omega)
        exact ⟨⟨value, rfl, isRelated⟩, related⟩
      · rintro ⟨⟨other, isOnly, isRelated⟩, related⟩
        obtain ⟨rfl, rfl⟩ := List.cons.inj isOnly
        exact ⟨isRelated, related⟩

/-- Results of which none is missing. -/
theorem forall₂_filterMap_id
    {relation : α → β → Prop}
    {inputs : List α}
    {outputs : List (Option β)}
    (related : List.Forall₂ (fun input output =>
      ∃ value, output = some value ∧ relation input value) inputs outputs) :
    List.Forall₂ relation inputs (outputs.filterMap id) := by
  induction related with
  | nil => exact List.Forall₂.nil
  | cons isSome _ inductionHypothesis =>
      obtain ⟨value, rfl, isRelated⟩ := isSome
      exact List.Forall₂.cons isRelated inductionHypothesis

section Exceptions

variable {ε : Type} {read : α → Except ε β} {inputs : List α}

/-- If no element fails, the list does not. -/
theorem exists_mapM_eq_ok
    {relation : α → β → Prop}
    (reads : ∀ input ∈ inputs, ∃ output, read input = .ok output ∧
      relation input output) :
    ∃ outputs, inputs.mapM read = .ok outputs ∧
      List.Forall₂ relation inputs outputs := by
  induction inputs with
  | nil => exact ⟨[], rfl, List.Forall₂.nil⟩
  | cons input inputs inductionHypothesis =>
      obtain ⟨output, isOutput, isRelated⟩ := reads input (by simp)
      obtain ⟨outputs, areOutputs, areRelated⟩ := inductionHypothesis
        fun other member => reads other (List.mem_cons_of_mem _ member)
      refine ⟨output :: outputs, ?_, List.Forall₂.cons isRelated areRelated⟩
      rw [List.mapM_cons, isOutput, areOutputs]
      rfl

/-- A function that reads each element as what it stands for. -/
theorem mapM_eq_ok_of_forall₂
    {γ : Type*}
    {relation : α → γ → Prop}
    {value : γ → β}
    {meanings : List γ}
    (related : List.Forall₂ relation inputs meanings)
    (reads : ∀ input meaning, relation input meaning → read input = .ok (value meaning)) :
    inputs.mapM read = .ok (meanings.map value) := by
  induction related with
  | nil => rfl
  | cons isRelated _ inductionHypothesis =>
      rw [List.mapM_cons, reads _ _ isRelated, inductionHypothesis]
      rfl

/-- If the list does not fail, no element does. -/
theorem forall₂_of_mapM_eq_ok
    {outputs : List β}
    (mapped : inputs.mapM read = .ok outputs) :
    List.Forall₂ (fun input output => read input = .ok output) inputs outputs := by
  induction inputs generalizing outputs with
  | nil =>
      obtain rfl : [] = outputs := Except.ok.inj mapped
      exact List.Forall₂.nil
  | cons input inputs inductionHypothesis =>
      rw [List.mapM_cons] at mapped
      obtain ⟨first, isFirst, mappedRest⟩ := bind_eq_ok.mp mapped
      obtain ⟨rest, isRest, same⟩ := bind_eq_ok.mp mappedRest
      obtain rfl : first :: rest = outputs := Except.ok.inj same
      exact List.Forall₂.cons isFirst (inductionHypothesis isRest)

end Exceptions

variable {read : α → Option β}

/-- A function that fails on an element of a list. -/
theorem mapM_eq_none
    {inputs : List α}
    {input : α}
    (member : input ∈ inputs)
    (fails : read input = none) :
    inputs.mapM read = none := by
  induction inputs with
  | nil => exact absurd member (by simp)
  | cons first inputs inductionHypothesis =>
      rw [List.mapM_cons]
      rcases List.mem_cons.mp member with rfl | inRest
      · rw [fails]
        rfl
      · rw [inductionHypothesis inRest]
        cases read first <;> rfl

/-- The results come from the elements of the list. -/
theorem exists_of_mem_mapM
    {inputs : List α}
    {outputs : List β}
    (mapped : inputs.mapM read = some outputs)
    {output : β}
    (member : output ∈ outputs) :
    ∃ input ∈ inputs, read input = some output := by
  induction inputs generalizing outputs with
  | nil =>
      obtain rfl : [] = outputs := by simpa using mapped
      exact absurd member (by simp)
  | cons input inputs inductionHypothesis =>
      rw [List.mapM_cons] at mapped
      obtain ⟨first, isFirst, mappedRest⟩ := Option.bind_eq_some_iff.mp mapped
      obtain ⟨rest, isRest, same⟩ := Option.bind_eq_some_iff.mp mappedRest
      obtain rfl : first :: rest = outputs := Option.some.inj same
      rcases List.mem_cons.mp member with rfl | inRest
      · exact ⟨input, by simp, isFirst⟩
      · obtain ⟨input, inInputs, isOutput⟩ := inductionHypothesis isRest inRest
        exact ⟨input, List.mem_cons_of_mem _ inInputs, isOutput⟩

/-- A loop each step of which is a loop over pieces is the loop over all pieces. -/
theorem toOption_foldlM
    {σ τ ε δ : Type}
    {view : σ → τ}
    {step : σ → α → Except ε σ}
    {pieces : α → Option (List β)}
    {pieceStep : τ → β → Except δ τ}
    (agrees : ∀ state input, (step state input).toOption.map view =
      (pieces input).bind fun parts => (parts.foldlM pieceStep (view state)).toOption)
    (inputs : List α)
    (state : σ) :
    (inputs.foldlM step state).toOption.map view =
      (inputs.mapM pieces).bind fun parts =>
        (parts.flatten.foldlM pieceStep (view state)).toOption := by
  induction inputs generalizing state with
  | nil => rfl
  | cons input inputs inductionHypothesis =>
      have first := agrees state input
      rw [List.foldlM_cons, List.mapM_cons]
      cases arePieces : pieces input with
      | none =>
          rw [arePieces] at first
          cases stepped : step state input with
          | error exception => rfl
          | ok next =>
              rw [stepped] at first
              cases first
      | some parts =>
          rw [arePieces, Option.bind_some] at first
          have opened : ∀ rest : List (List β), ((parts :: rest).flatten.foldlM pieceStep
              (view state)).toOption = (parts.foldlM pieceStep (view state)).toOption.bind
                fun middle => (rest.flatten.foldlM pieceStep middle).toOption := by
            intro rest
            rw [List.flatten_cons, List.foldlM_append]
            cases parts.foldlM pieceStep (view state) <;> rfl
          change _ = ((inputs.mapM pieces).bind fun rest => some (parts :: rest)).bind _
          rw [Option.bind_assoc]
          simp only [Option.bind_some, opened, ← first]
          cases step state input with
          | error exception =>
              change none = (inputs.mapM pieces).bind fun _ => none
              rw [Option.bind_fun_none]
          | ok next => exact inductionHypothesis next

end Library
