import Bootchart.Library.Run
import Mathlib.Logic.Function.Basic

/-!
# Recording changes

Items belong to owners and have keys. A recorder keeps an item unless its key is that of the item
before it of the same owner, or a key to start with if there is none. If keys are less than the
contents of the items, it depends on the items whether the last item kept of an owner stands for
the items that were passed over.
-/

namespace Library

variable {α ι κ δ : Type*}

/-- The keys of the last items of all owners, and the items kept. -/
structure Recorder (α ι κ : Type*) where
  /-- The key of the last item of each owner. -/
  keys : ι → κ
  /-- The items kept, in order. -/
  kept : List α

/-- What there is to items: owners, keys, the key to start with, contents, and the items that
need not be kept as long as nothing is. -/
structure Aspects (α ι κ δ : Type*) where
  /-- The owner of an item. -/
  owner : α → ι
  /-- The key of an item. -/
  key : α → κ
  /-- The key before the first item of an owner. -/
  start : κ
  /-- The content of an item. -/
  content : α → δ
  /-- An item tells nothing. -/
  Empty : α → Prop

namespace Aspects

section

variable (aspects : Aspects α ι κ δ) [DecidableEq ι]

/-- The last item of an owner. -/
def last (items : List α) (owner : ι) : Option α :=
  (items.filter (aspects.owner · = owner)).getLast?

/-- The key of the last item of an owner. -/
def lastKey (items : List α) (owner : ι) : κ :=
  ((aspects.last items owner).map aspects.key).getD aspects.start

/-- All items of an owner have the key to start with. -/
def Unstarted (items : List α) (owner : ι) : Prop :=
  ∀ item ∈ items, aspects.owner item = owner → aspects.key item = aspects.start

/-- An item with the key of the item before it of the same owner has its content too, or tells
nothing as long as all keys are the first. -/
def KeysTell (items : List α) : Prop :=
  ∀ done item, done ++ [item] <+: items →
    aspects.key item = aspects.lastKey done (aspects.owner item) →
    (aspects.Unstarted done (aspects.owner item) → aspects.Empty item) ∧
      (¬aspects.Unstarted done (aspects.owner item) →
        (aspects.last done (aspects.owner item)).map aspects.content =
          some (aspects.content item))

/-- What was kept tells the content of an item: it is that of the last item kept of its owner,
or there is nothing to tell. -/
def Told (kept : List α) (item : α) : Prop :=
  match aspects.last kept (aspects.owner item) with
  | none => aspects.Empty item
  | some other => aspects.content other = aspects.content item

/-! ## The last items -/

/-- The last item of an owner behind one more. -/
theorem last_append_singleton (items : List α) (item : α) (owner : ι) :
    aspects.last (items ++ [item]) owner =
      if aspects.owner item = owner then some item else aspects.last items owner := by
  rw [last, List.filter_append]
  by_cases same : aspects.owner item = owner
  · rw [if_pos same, List.filter_cons_of_pos (by simpa using same)]
    exact List.getLast?_concat
  · rw [if_neg same, List.filter_cons_of_neg (by simpa using same)]
    exact congrArg List.getLast? (List.append_nil _)

/-- The key of the last item of an owner behind one more. -/
theorem lastKey_append_singleton (items : List α) (item : α) (owner : ι) :
    aspects.lastKey (items ++ [item]) owner =
      if aspects.owner item = owner then aspects.key item else aspects.lastKey items owner := by
  rw [lastKey, last_append_singleton]
  split <;> rfl

omit [DecidableEq ι] in
/-- All items of an owner have the key to start with if one more has it. -/
theorem unstarted_append_singleton (items : List α) (item : α) (owner : ι) :
    aspects.Unstarted (items ++ [item]) owner ↔ aspects.Unstarted items owner ∧
      (aspects.owner item = owner → aspects.key item = aspects.start) := by
  rw [Unstarted, List.forall_mem_append, List.forall_mem_singleton]
  rfl

/-- The last item of an owner is one of its items. -/
theorem mem_of_last {items : List α} {owner : ι} {item : α}
    (isLast : aspects.last items owner = some item) :
    item ∈ items ∧ aspects.owner item = owner := by
  have member := List.mem_filter.mp (List.mem_of_getLast? isLast)
  exact ⟨member.1, of_decide_eq_true member.2⟩

/-- As long as all keys are the first, so is that of the last item. -/
theorem lastKey_of_unstarted {items : List α} {owner : ι}
    (unstarted : aspects.Unstarted items owner) : aspects.lastKey items owner = aspects.start := by
  rw [lastKey]
  cases isLast : aspects.last items owner with
  | none => rfl
  | some item =>
      obtain ⟨member, same⟩ := aspects.mem_of_last isLast
      exact unstarted item member same

/-! ## What is kept -/

/-- What is kept stands for what came: an owner of which nothing is kept has not started, and the
content of the last item kept is that of the last item. -/
def StandsFor (kept items : List α) : Prop :=
  ∀ owner,
    (aspects.last kept owner = none ↔ aspects.Unstarted items owner) ∧
      ∀ other, aspects.last kept owner = some other →
        (aspects.last items owner).map aspects.content = some (aspects.content other)

/-- If what is kept stands for what came, it tells an item if and only if the items do. -/
theorem told_iff {kept items : List α} (standsFor : aspects.StandsFor kept items) (item : α) :
    aspects.Told kept item ↔
      (aspects.Unstarted items (aspects.owner item) → aspects.Empty item) ∧
        (¬aspects.Unstarted items (aspects.owner item) →
          (aspects.last items (aspects.owner item)).map aspects.content =
            some (aspects.content item)) := by
  obtain ⟨none_iff, sameContent⟩ := standsFor (aspects.owner item)
  rw [Told, ← none_iff]
  cases isLast : aspects.last kept (aspects.owner item) with
  | none => simp
  | some other => simp [sameContent other isLast]

end

/-! ## Runs of a recorder -/

section

variable (aspects : Aspects α ι κ δ) [DecidableEq ι] [DecidableEq κ]

/-- A recorder before the first item. -/
def fresh : Recorder α ι κ where
  keys _ := aspects.start
  kept := []

/-- An item comes to a recorder. -/
def record (recorder : Recorder α ι κ) (item : α) : Recorder α ι κ :=
  if aspects.key item = recorder.keys (aspects.owner item) then recorder
  else
    { keys := Function.update recorder.keys (aspects.owner item) (aspects.key item)
      kept := recorder.kept ++ [item] }

/-- A recorder behind some items. -/
def recorded (items : List α) : Recorder α ι κ :=
  items.foldl aspects.record aspects.fresh

/-- What a recorder keeps tells the content of all items that it passes over. -/
def TellsSkipped (items : List α) : Prop :=
  ∀ done item, done ++ [item] <+: items →
    aspects.key item = (aspects.recorded done).keys (aspects.owner item) →
    aspects.Told (aspects.recorded done).kept item

/-- The recorder behind one more item. -/
theorem recorded_append_singleton (items : List α) (item : α) :
    aspects.recorded (items ++ [item]) = aspects.record (aspects.recorded items) item := by
  rw [recorded, List.foldl_append]
  rfl

/-- The keys of a recorder are those of the last items. -/
theorem keys_recorded (items : List α) (owner : ι) :
    (aspects.recorded items).keys owner = aspects.lastKey items owner := by
  induction items using List.reverseRecOn with
  | nil => rfl
  | append_singleton items item inductionHypothesis =>
      rw [recorded_append_singleton, lastKey_append_singleton, record]
      by_cases same : aspects.owner item = owner
      · rw [if_pos same]
        split
        next skipped => rw [skipped, same]
        next => exact same ▸ Function.update_self _ _ _
      · rw [if_neg same, ← inductionHypothesis]
        split
        next => rfl
        next => exact Function.update_of_ne (Ne.symm same) _ _

/-- What is kept behind one more item. -/
theorem kept_append_singleton (items : List α) (item : α) :
    (aspects.recorded (items ++ [item])).kept =
      if aspects.key item = aspects.lastKey items (aspects.owner item) then
        (aspects.recorded items).kept
      else (aspects.recorded items).kept ++ [item] := by
  rw [recorded_append_singleton, record, keys_recorded]
  split <;> rfl

/-- What is kept goes on to stand for what came, as long as skipped items are told. -/
theorem standsFor_append_singleton
    {items : List α}
    (standsFor : aspects.StandsFor (aspects.recorded items).kept items)
    {item : α}
    (told : aspects.key item = aspects.lastKey items (aspects.owner item) →
      aspects.Told (aspects.recorded items).kept item) :
    aspects.StandsFor (aspects.recorded (items ++ [item])).kept (items ++ [item]) := by
  intro owner
  obtain ⟨none_iff, sameContent⟩ := standsFor owner
  rw [kept_append_singleton, unstarted_append_singleton, last_append_singleton]
  by_cases same : aspects.owner item = owner
  · subst same
    rw [if_pos rfl]
    split
    next skipped =>
      -- The item is passed over, and what is told of it is its content.
      have isTold := told skipped
      constructor
      · rw [none_iff]
        refine ⟨fun unstarted => ⟨unstarted, fun _ => ?_⟩, And.left⟩
        rw [skipped, aspects.lastKey_of_unstarted unstarted]
      · intro other isLast
        rw [Told, isLast] at isTold
        rw [Option.map_some, isTold]
    next changed =>
      -- The item is kept, and its key or one before is not the first.
      rw [last_append_singleton, if_pos rfl]
      constructor
      · refine iff_of_false (by simp) ?_
        rintro ⟨unstarted, isStart⟩
        rw [aspects.lastKey_of_unstarted unstarted] at changed
        exact changed (isStart rfl)
      · rintro other ⟨⟩
        rfl
  · rw [if_neg same]
    have others : aspects.last (if aspects.key item = aspects.lastKey items (aspects.owner item) then
        (aspects.recorded items).kept else (aspects.recorded items).kept ++ [item]) owner =
          aspects.last (aspects.recorded items).kept owner := by
      split
      next => rfl
      next => rw [last_append_singleton, if_neg same]
    rw [others]
    exact ⟨none_iff.trans (by simp [same]), sameContent⟩

/-- What a recorder keeps tells the content of what it passes over if and only if keys do. -/
theorem tellsSkipped_iff (items : List α) :
    aspects.TellsSkipped items ↔ aspects.KeysTell items := by
  suffices both : (aspects.TellsSkipped items ↔ aspects.KeysTell items) ∧
      (aspects.TellsSkipped items → aspects.StandsFor (aspects.recorded items).kept items) from
    both.1
  simp only [TellsSkipped, KeysTell, keys_recorded]
  induction items using List.reverseRecOn with
  | nil =>
      refine ⟨by simp, fun _ owner => ⟨iff_of_true rfl (by simp [Unstarted]), ?_⟩⟩
      rintro other ⟨⟩
  | append_singleton items item inductionHypothesis =>
      obtain ⟨iff_before, standsFor⟩ := inductionHypothesis
      rw [forall_steps_append_singleton, forall_steps_append_singleton, ← iff_before]
      constructor
      · apply and_congr_right
        intro before
        rw [aspects.told_iff (standsFor before)]
      · rintro ⟨before, here⟩
        exact aspects.standsFor_append_singleton (standsFor before) here

/-- What is kept stands for what came if keys tell the contents. -/
theorem standsFor_recorded {items : List α} (keysTell : aspects.KeysTell items) :
    aspects.StandsFor (aspects.recorded items).kept items := by
  induction items using List.reverseRecOn with
  | nil =>
      refine fun owner => ⟨iff_of_true rfl fun item member => ?_, ?_⟩
      · exact absurd member List.not_mem_nil
      · rintro other ⟨⟩
  | append_singleton items item inductionHypothesis =>
      rw [KeysTell, forall_steps_append_singleton] at keysTell
      have standsFor := inductionHypothesis keysTell.1
      apply aspects.standsFor_append_singleton standsFor
      intro skipped
      exact (aspects.told_iff standsFor item).mpr (keysTell.2 skipped)

end

end Aspects

end Library
