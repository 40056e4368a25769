import Blockwork.Proofs.Project.Opened
import Blockwork.Proofs.Workspace.FreshIds

/-!
# `Blockwork.Proofs.Workspace.Reloading`: ids in a run with reloads

The counter for new ids is not saved. Loading sets it after the largest serial that it finds, so a
reload may put it back: what was handed out since the largest block still present is handed out again.
As long as each reload finds a serial that is not below that of an id, the counter stays beyond that
id, and no insertion answers it a second time.

## Contents
- `Step`, `Workspace.reload`, `Workspace.step`, `Workspace.after`: runs that mix edits and reloads.
- `Workspace.reload_eq_ok` and `Workspace.started_of_reload`: when a reload succeeds, and to what.
- `Workspace.Passed`, the invariant, with `Passed.step` and `Passed.after`.
- `Workspace.Started.fresh_across_reloads`: **what is asked of the reloads between two insertions for
  their ids to differ**, and `Workspace.insertDeleteReload_reuses`: without it they may be the same.
-/

namespace Blockwork

/-! ## Runs with reloads -/

/-- One step of a run: an edit, or saving the workspace as the forest of a project and loading the
    saved text in its place. -/
inductive Step where
  | edit (c : Command)
  | reload (p : Project) (now : Timestamp)

namespace Workspace

/-- Saves the workspace as the forest of a project, loads the text, and takes the loaded forest over. -/
def reload (w : Workspace) (p : Project) (now : Timestamp) : Except Project.LoadError Workspace := do
  let q ← Project.parse now { p with forest := w.forest }.toText
  (w.replace q.forest).mapError .invalid

/-- The workspace after one step. A reload that fails leaves it as it was. -/
def step (w : Workspace) : Step → Workspace
  | .edit c => (w.apply c).1
  | .reload p now => (w.reload p now).toOption.getD w

/-- The id that a step answers, if it is an insertion that is accepted. -/
def answer (w : Workspace) : Step → Option BlockId
  | .edit c => (w.apply c).2.inserted
  | .reload _ _ => none

/-- The workspace after a run. -/
def after (w : Workspace) (steps : List Step) : Workspace :=
  steps.foldl step w

theorem after_nil (w : Workspace) : w.after [] = w := rfl

theorem after_cons (w : Workspace) (s : Step) (steps : List Step) :
    w.after (s :: steps) = (w.step s).after steps := rfl

theorem after_append (w : Workspace) (steps more : List Step) :
    w.after (steps ++ more) = (w.after steps).after more :=
  List.foldl_append

theorem after_concat (w : Workspace) (steps : List Step) (s : Step) :
    w.after (steps ++ [s]) = (w.after steps).step s :=
  after_append w steps [s]

/-- What holds all along a run holds at its start and all along the rest. -/
theorem forall_prefix_cons {P : Workspace → Prop} {w : Workspace} {s : Step} {steps : List Step} :
    (∀ done, done <+: s :: steps → P (w.after done)) ↔
      P w ∧ ∀ done, done <+: steps → P ((w.step s).after done) := by
  constructor
  · intro h
    exact ⟨h [] List.nil_prefix, fun done hdone => h (s :: done) ((List.prefix_cons_inj s).mpr hdone)⟩
  · rintro ⟨hstart, hrest⟩ done hdone
    cases done with
    | nil => exact hstart
    | cons t done =>
        obtain ⟨rfl, hprefix⟩ := List.cons_prefix_cons.mp hdone
        exact hrest done hprefix

theorem forall_prefix_nil {P : Workspace → Prop} {w : Workspace} :
    (∀ done, done <+: [] → P (w.after done)) ↔ P w := by
  simp [after]

variable {w r : Workspace} {p : Project} {now : Timestamp} {id : BlockId}

/-! ## One reload -/

theorem step_reload (w : Workspace) (p : Project) (now : Timestamp) :
    w.step (.reload p now) = (w.reload p now).toOption.getD w := rfl

theorem step_reload_ok (h : w.reload p now = .ok r) : w.step (.reload p now) = r := by
  rw [step_reload, h]
  rfl

theorem step_reload_error {e : Project.LoadError} (h : w.reload p now = .error e) :
    w.step (.reload p now) = w := by
  rw [step_reload, h]
  rfl

/-- A workspace in order is reloaded if its numbers are finite and read back and its blocks are not
    nested too deep. -/
theorem reload_eq_ok (hw : w.Kept) (hfinite : ∀ x ∈ w.forest.numbers, x.isFinite = true)
    (hback : ∀ x ∈ w.forest.numbers, x.isFinite = true → x.ReadsBack)
    (hheight : Tree.heightAll w.forest.roots ≤ 62) (p : Project) (now : Timestamp) :
    w.reload p now = .ok ⟨.ofTrees w.forest.roots⟩ := by
  let q : Project := { p with forest := w.forest }
  have hvalid : q.reloaded.forest.Valid :=
    Project.valid_reloaded (Forest.valid_iff_sound.mpr hw.sound) hw.filled
  have hparse : Project.parse now q.toText = .ok q.reloaded :=
    (Project.parse_toText_iff hback now).mpr ⟨hfinite, hheight, hvalid, rfl⟩
  have htaken := (Project.opened_of_parse hparse).ofForest
  exact Saved.bind_eq_ok.mpr ⟨_, hparse, Saved.mapError_eq_ok.mpr htaken⟩

/-- **What is loaded is a workspace to start from**, with the ids that were saved. -/
theorem started_of_reload (h : w.reload p now = .ok r) :
    r.Started ∧ r.forest.ids = w.forest.ids := by
  obtain ⟨q, hparse, hreplace⟩ := Saved.bind_eq_ok.mp h
  rw [Saved.mapError_eq_ok] at hreplace
  obtain ⟨hforest, -⟩ := forest_of_ofForest hreplace
  obtain ⟨roots, hroots⟩ := (Project.opened_of_parse hparse).fromTrees
  refine ⟨Or.inr ⟨roots, ?_⟩, ?_⟩
  · exact hroots ▸ hreplace
  · rw [hforest]
    exact Project.ids_of_parse_toText hparse

/-- **Every step keeps the forest in order.** -/
theorem Kept.step (hw : w.Kept) (hsize : w.forest.size < 2 ^ 64 - 1) (s : Step) :
    (w.step s).Kept := by
  cases s with
  | edit c => exact hw.apply hsize c
  | reload p now =>
      cases hresult : w.reload p now with
      | error e =>
          rw [step_reload_error hresult]
          exact hw
      | ok r =>
          rw [step_reload_ok hresult]
          exact (started_of_reload hresult).1.kept

/-! ## The invariant along a run -/

/-- The counter stands beyond the serial of `id`, and serials are left. -/
def Passed (w : Workspace) (id : BlockId) : Prop :=
  ∃ top < 2 ^ 64 - 1, w.forest.Numbered top ∧ Serial.Within top id

/-- What is loaded counts on from the largest serial that was saved. -/
theorem passed_of_reload (h : w.reload p now = .ok r) (hroom : r.forest.topSerial < 2 ^ 64 - 1)
    (hid : Serial.Within w.forest.topSerial id) : r.Passed id := by
  obtain ⟨hstarted, hids⟩ := started_of_reload h
  refine ⟨r.forest.topSerial, hroom, hstarted.numbered, ?_⟩
  rw [Forest.topSerial, hids]
  exact hid

/-- **One edit.** The counter stays, or it takes one step for the id that is answered. -/
theorem numbered_edit {top : Nat} (hw : w.forest.Numbered top) (htop : top < 2 ^ 64 - 1) {c : Command}
    (hroom : (w.apply c).1.forest.topSerial < 2 ^ 64 - 1) :
    ((w.apply c).2.inserted = none ∧ (w.apply c).1.forest.Numbered top) ∨
    (∃ id, (w.apply c).2.inserted = some id ∧ ¬Serial.Within top id ∧ Serial.Within (top + 1) id ∧
      top + 1 < 2 ^ 64 - 1 ∧ (w.apply c).1.forest.Numbered (top + 1)) := by
  rcases numbered_cases hw c with ⟨-, hnone, hnext, -⟩ | ⟨name, id, -, hinserted, hnext⟩
  · exact Or.inl ⟨hnone, hnext⟩
  · obtain ⟨hid, hnew, hlater, hids⟩ := hnext htop
    have hfits : top + 1 < 2 ^ 64 := by omega
    -- The new block is one of those present, so its serial is not the largest of all.
    have hpresent : Serial.Within (w.apply c).1.forest.topSerial id :=
      Forest.within_topSerial (hids ▸ List.mem_concat_self)
    rw [hid, Serial.within_append_toString hfits] at hpresent
    refine Or.inr ⟨id, hinserted, hnew, ?_, Nat.lt_of_le_of_lt hpresent hroom, hlater⟩
    rw [hid, Serial.within_append_toString hfits]

/-- **What an insertion answers has not been passed before, and is passed from then on.** -/
theorem Passed.answered {old : BlockId} (h : w.Passed old) {s : Step}
    (hroom : (w.step s).forest.topSerial < 2 ^ 64 - 1) (hanswer : w.answer s = some id) :
    id ≠ old ∧ (w.step s).Passed id := by
  obtain ⟨top, htop, hnumbered, hold⟩ := h
  cases s with
  | reload p now => exact absurd hanswer (by simp [answer])
  | edit c =>
      rcases numbered_edit hnumbered htop hroom with
        ⟨hnone, -⟩ | ⟨id', hinserted, hnew, hwithin, htop', hlater⟩
      · exact absurd (hnone.symm.trans hanswer) (by simp)
      · obtain rfl : id' = id := Option.some.inj (hinserted.symm.trans hanswer)
        exact ⟨fun he => hnew (he ▸ hold), top + 1, htop', hlater, hwithin⟩

/-- **What has been passed stays passed**, unless a reload puts the counter back behind it. -/
theorem Passed.step (h : w.Passed id) {s : Step} (hroom : (w.step s).forest.topSerial < 2 ^ 64 - 1)
    (hreload : ∀ p now r, s = .reload p now → w.reload p now = .ok r →
      Serial.Within w.forest.topSerial id) :
    (w.step s).Passed id := by
  cases s with
  | edit c =>
      obtain ⟨top, htop, hnumbered, hid⟩ := h
      rcases numbered_edit hnumbered htop hroom with ⟨-, hnext⟩ | ⟨-, -, -, -, htop', hlater⟩
      · exact ⟨top, htop, hnext, hid⟩
      · exact ⟨top + 1, htop', hlater, hid.mono (Nat.le_succ top)⟩
  | reload p now =>
      cases hresult : w.reload p now with
      | error e =>
          rw [step_reload_error hresult]
          exact h
      | ok r =>
          rw [step_reload_ok hresult] at hroom ⊢
          exact passed_of_reload hresult hroom (hreload p now r rfl hresult)

/-- **Along a run** it stays passed, if no reload puts the counter back behind it. -/
theorem Passed.after {steps : List Step} (h : w.Passed id)
    (hroom : ∀ done, done <+: steps → (w.after done).forest.topSerial < 2 ^ 64 - 1)
    (hreloads : ∀ done p now r, done ++ [.reload p now] <+: steps →
      (w.after done).reload p now = .ok r → Serial.Within (w.after done).forest.topSerial id) :
    (w.after steps).Passed id := by
  induction steps generalizing w with
  | nil => exact h
  | cons s steps ih =>
      have hrest := (forall_prefix_cons (P := (·.forest.topSerial < 2 ^ 64 - 1)).mp hroom).2
      have hstep : (w.step s).Passed id := by
        refine h.step (hrest [] List.nil_prefix) ?_
        rintro p now r rfl hr
        exact hreloads [] p now r (List.prefix_append _ _) hr
      refine ih hstep hrest fun done p now r hdone hr => ?_
      exact hreloads (s :: done) p now r ((List.prefix_cons_inj s).mpr hdone) hr

/-! ## Runs from the start -/

/-- A run starts at its largest serial, so an id without a serial has been passed at any point. -/
theorem Started.passed_after (hw : w.Started) {steps : List Step}
    (hroom : ∀ done, done <+: steps → (w.after done).forest.topSerial < 2 ^ 64 - 1)
    (hid : Serial.serial? id = none) : (w.after steps).Passed id := by
  have hwithin : ∀ top, Serial.Within top id := fun top s hs =>
    absurd (hid.symm.trans hs) (by simp)
  have hstart : w.Passed id :=
    ⟨w.forest.topSerial, hroom [] List.nil_prefix, hw.numbered, hwithin _⟩
  exact hstart.after hroom fun done p now r hdone hr => hwithin _

/-- **No id is answered twice**, whether or not its block still exists, as long as no serial reaches
    the largest one and, at each reload between the two insertions, the serial of the first id is not
    above all serials present. -/
theorem Started.fresh_across_reloads (hw : w.Started) {steps done between rest : List Step}
    {s s' : Step} {id id' : BlockId} (hsteps : steps = done ++ s :: (between ++ s' :: rest))
    (hroom : ∀ first, first <+: steps → (w.after first).forest.topSerial < 2 ^ 64 - 1)
    (hfirst : (w.after done).answer s = some id)
    (hsecond : (w.after (done ++ s :: between)).answer s' = some id')
    (hreloads : ∀ first p now r, first ++ [.reload p now] <+: between →
      (w.after (done ++ s :: first)).reload p now = .ok r →
      Serial.Within (w.after (done ++ s :: first)).forest.topSerial id) :
    id' ≠ id := by
  subst hsteps
  have hdone : (w.after done).Passed "" := by
    refine hw.passed_after (fun first hfirst => hroom first ?_) (by decide)
    exact hfirst.trans (List.prefix_append _ _)
  -- The first insertion passes its id, and the reloads in between do not take that back.
  have hstep : ((w.after done).step s).Passed id := by
    refine (hdone.answered ?_ hfirst).2
    rw [← after_concat]
    exact hroom _ ⟨between ++ s' :: rest, by simp⟩
  have hbetween : ((w.after done).step s |>.after between).Passed id := by
    refine hstep.after (fun first hprefix => ?_) fun first p now r hprefix hr => ?_
    · rw [← after_cons, ← after_append]
      refine hroom _ ?_
      obtain ⟨more, rfl⟩ := hprefix
      exact ⟨more ++ s' :: rest, by simp⟩
    · rw [← after_cons, ← after_append] at hr ⊢
      exact hreloads first p now r hprefix hr
  rw [← after_cons, ← after_append] at hbetween
  refine (hbetween.answered ?_ hsecond).1
  rw [← after_concat]
  exact hroom _ ⟨rest, by simp⟩

/-- A statement put down in the corner. -/
def insertPrint : Step :=
  .edit (.insert "print" .origin)

/-- Deletes the first of these statements. -/
def deletePrint : Step :=
  .edit (.delete "print-1")

/-- Saves a project without a name and loads it. -/
def reloadBlank : Step :=
  .reload (.create (.sinceEpoch 0 0) "" "" .empty) (.sinceEpoch 0 0)

/-- A statement is inserted, the first one is deleted, and the project is saved and loaded. -/
def insertDeleteReload : List Step :=
  [insertPrint, deletePrint, reloadBlank]

/-- What is left of two statements. -/
def lonePrint : Workspace :=
  ((empty.step insertPrint).step insertPrint).step deletePrint

theorem lonePrint_reloadBlank : lonePrint.step reloadBlank = lonePrint := by
  have hkept : lonePrint.Kept :=
    ((Reachable.empty.kept.step (by decide) insertPrint).step (by decide) insertPrint).step
      (by decide) deletePrint
  refine (step_reload_ok (reload_eq_ok hkept ?_ ?_ ?_ _ _)).trans ?_
  · decide +kernel
  · decide +kernel
  · decide
  · rw [Forest.ofTrees, Forest.largestSerial_eq]
    rfl

/-- The second of two statements is there at the reload, so the first does not come again. -/
theorem fresh_across_reloads_insertTwice :
    empty.Started ∧
    (∀ first, first <+: insertPrint :: (insertDeleteReload ++ [insertPrint]) →
      (empty.after first).forest.topSerial < 2 ^ 64 - 1) ∧
    empty.answer insertPrint = some "print-1" ∧
    (empty.after (insertPrint :: insertDeleteReload)).answer insertPrint = some "print-3" ∧
    "print-3" ≠ "print-1" := by
  have hstarted : empty.Started := Or.inl rfl
  have hroom : ∀ first, first <+: insertPrint :: (insertDeleteReload ++ [insertPrint]) →
      (empty.after first).forest.topSerial < 2 ^ 64 - 1 := by
    simp only [insertDeleteReload, List.cons_append, List.nil_append,
      forall_prefix_cons (P := (·.forest.topSerial < 2 ^ 64 - 1)),
      forall_prefix_nil (P := (·.forest.topSerial < 2 ^ 64 - 1))]
    rw [← lonePrint, lonePrint_reloadBlank]
    decide +kernel
  have hsecond : (empty.after (insertPrint :: insertDeleteReload)).answer insertPrint
      = some "print-3" := by
    rw [insertDeleteReload, after_cons, after_cons, after_cons, after_cons, after_nil, ← lonePrint,
      lonePrint_reloadBlank]
    decide +kernel
  have hpresent : ∀ first, first <+: insertDeleteReload →
      1 ≤ ((empty.step insertPrint).after first).forest.topSerial := by
    simp only [insertDeleteReload, forall_prefix_cons (P := (1 ≤ ·.forest.topSerial)),
      forall_prefix_nil (P := (1 ≤ ·.forest.topSerial))]
    rw [← lonePrint, lonePrint_reloadBlank]
    decide +kernel
  refine ⟨hstarted, hroom, rfl, hsecond, ?_⟩
  refine @Started.fresh_across_reloads empty hstarted _ [] insertDeleteReload [] insertPrint
    insertPrint _ _ rfl hroom rfl hsecond fun first p now r hprefix _ => ?_
  have hid : "print-1" = "print" ++ "-" ++ toString 1 := by decide
  rw [hid, Serial.within_append_toString (by decide), List.nil_append, after_cons]
  exact hpresent first ((List.prefix_append _ _).trans hprefix)

/-- **A reload may bring an id again.** A statement is inserted and deleted, and the project is saved
    and loaded; then the next statement gets the id of the deleted one, long before serials run out. -/
theorem insertDeleteReload_reuses :
    empty.Started ∧
      (∀ first, first <+: insertDeleteReload ++ [insertPrint] →
        (empty.after first).forest.topSerial < 2 ^ 64 - 1) ∧
      empty.answer insertPrint = some "print-1" ∧
      (empty.after insertDeleteReload).answer insertPrint = some "print-1" := by
  have hkept : ((empty.step insertPrint).step deletePrint).Kept :=
    (Reachable.empty.kept.step (by decide) insertPrint).step (by decide) deletePrint
  have hreload : ((empty.step insertPrint).step deletePrint).step reloadBlank = empty := by
    refine (step_reload_ok (reload_eq_ok hkept ?_ ?_ ?_ _ _)).trans ?_
    · decide
    · decide
    · decide
    · rw [Forest.ofTrees, Forest.largestSerial_eq]
      rfl
  refine ⟨Or.inl rfl, ?_, rfl, ?_⟩
  · simp only [insertDeleteReload, List.cons_append, List.nil_append,
      forall_prefix_cons (P := (·.forest.topSerial < 2 ^ 64 - 1)),
      forall_prefix_nil (P := (·.forest.topSerial < 2 ^ 64 - 1))]
    rw [hreload]
    decide +kernel
  · rw [insertDeleteReload, after_cons, after_cons, after_cons, after_nil, hreload]
    rfl

end Workspace

end Blockwork
