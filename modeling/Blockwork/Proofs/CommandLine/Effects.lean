import Blockwork.CommandLine.Run
import Mathlib.Tactic.Common

/-!
# `Blockwork.Proofs.CommandLine.Effects`: what a run says does not change what it does

The steps of a run pass on more than the disk: what was printed, the lines for the user, the log and
the number of the stage. None of it is ever looked at except to say something else. So the answer of
a step, and the disk that it leaves, can be calculated from the disk alone, step after step.

Everything up to the generated source only looks at the disk. The answers of such steps follow each
other like answers that were calculated without any state at all.

## Contents
- `effect`, the answer of a step and the disk afterwards, for a session that has said nothing.
- `Quiet`, the steps that have this effect whatever was said before, with `Quiet.bind`.
- `effect_bind` and `effect_bind_eq_ok`: the effect of two steps.
- `Reads`, the steps that leave the disk as it is; `answer` and `answer_bind`.
- `reads_loadProject` to `reads_prepare` and `quiet_saveProject` to `quiet_deliver`: the stages.
-/

namespace Blockwork.CommandLine

variable {α β : Type}

/-! ## Effects -/

/-- The answer of a step and the disk that it leaves. -/
def effect (x : Run α) (d : Disk) : Except Failure α × Disk :=
  ((x.run.run { disk := d }).1, (x.run.run { disk := d }).2.disk)

/-- What was said before makes no difference to the step. -/
def Quiet (x : Run α) : Prop :=
  ∀ s, ((x.run.run s).1, (x.run.run s).2.disk) = effect x s.disk

theorem effect_program (now : Timestamp) (d : Disk) (a : Arguments) :
    effect (program now a) d = ((run now d a).1, (run now d a).2.disk) := rfl

theorem run_bind (x : Run α) (f : α → Run β) (s : Session) :
    (x >>= f).run.run s =
      match x.run.run s with
      | (.ok a, t) => (f a).run.run t
      | (.error e, t) => (.error e, t) := by
  show (match x.run.run s with | (r, t) => (ExceptT.bindCont f r).run t) = _
  rcases x.run.run s with ⟨_ | _, t⟩ <;> rfl

/-- A step may look at the session. -/
theorem run_get_bind (f : Session → Run α) (s : Session) :
    (get >>= f).run.run s = (f s).run.run s := rfl

/-- A step that fails ends the run; otherwise the next one begins on the disk that is left. -/
theorem effect_bind (x : Run α) {f : α → Run β} (hf : ∀ a, Quiet (f a)) (d : Disk) :
    effect (x >>= f) d =
      match effect x d with
      | (.ok a, d') => effect (f a) d'
      | (.error e, d') => (.error e, d') := by
  rw [effect, run_bind, effect]
  rcases x.run.run { disk := d } with ⟨_ | a, t⟩
  · rfl
  · exact hf a t

theorem effect_bind_eq_ok {x : Run α} {f : α → Run β} (hf : ∀ a, Quiet (f a)) {d d' : Disk} {b : β} :
    effect (x >>= f) d = (.ok b, d') ↔
      ∃ a e, effect x d = (.ok a, e) ∧ effect (f a) e = (.ok b, d') := by
  rw [effect_bind x hf]
  rcases effect x d with ⟨_ | a, e⟩ <;> simp

namespace Quiet

theorem pure (a : α) : Quiet (Pure.pure a) := fun _ => rfl

theorem throw (e : Failure) : Quiet (MonadExcept.throw e : Run α) := fun _ => rfl

theorem bind {x : Run α} {f : α → Run β} (hx : Quiet x) (hf : ∀ a, Quiet (f a)) : Quiet (x >>= f) := by
  intro s
  rw [effect_bind x hf, ← hx s, run_bind]
  rcases x.run.run s with ⟨_ | a, t⟩
  · rfl
  · exact hf a t

/-- A step may look at the disk. -/
theorem look {f : Session → Run α} (hdisk : ∀ s, f s = f { disk := s.disk }) (hf : ∀ s, Quiet (f s)) :
    Quiet (get >>= f) := by
  intro s
  show (((f s).run.run s).1, ((f s).run.run s).2.disk) = effect (f { disk := s.disk }) s.disk
  rw [← hdisk]
  exact hf s s

end Quiet

/-! ## Steps that only look -/

/-- The disk is left as it is, and what was said before makes no difference. -/
structure Reads (x : Run α) : Prop where
  quiet : Quiet x
  disk : ∀ d, (effect x d).2 = d

/-- The answer of a step. -/
def answer (x : Run α) (d : Disk) : Except Failure α :=
  (effect x d).1

theorem Reads.effect_eq {x : Run α} (hx : Reads x) (d : Disk) : effect x d = (answer x d, d) :=
  Prod.ext rfl (hx.disk d)

/-- The answers of steps that only look follow each other. -/
theorem answer_bind {x : Run α} (hx : Reads x) {f : α → Run β} (hf : ∀ a, Quiet (f a)) (d : Disk) :
    answer (x >>= f) d = answer x d >>= fun a => answer (f a) d := by
  rw [answer, effect_bind x hf, hx.effect_eq]
  cases answer x d <;> rfl

namespace Reads

theorem pure (a : α) : Reads (Pure.pure a) := ⟨Quiet.pure a, fun _ => rfl⟩

theorem throw (e : Failure) : Reads (MonadExcept.throw e : Run α) := ⟨Quiet.throw e, fun _ => rfl⟩

theorem bind {x : Run α} {f : α → Run β} (hx : Reads x) (hf : ∀ a, Reads (f a)) : Reads (x >>= f) where
  quiet := hx.quiet.bind fun a => (hf a).quiet
  disk d := by
    rw [effect_bind x fun a => (hf a).quiet, hx.effect_eq]
    cases answer x d with
    | error e => rfl
    | ok a => exact (hf a).disk d

/-- A step may look at the disk. -/
theorem look {f : Session → Run α} (hdisk : ∀ s, f s = f { disk := s.disk }) (hf : ∀ s, Reads (f s)) :
    Reads (get >>= f) :=
  ⟨.look hdisk fun s => (hf s).quiet, fun d => (hf { disk := d }).disk d⟩

end Reads

/-! ## Steps that only say something -/

/-- The step always goes on, with the disk as it was. -/
structure Says (x : Run Unit) : Prop where
  quiet : Quiet x
  effect_eq : ∀ d, effect x d = (.ok (), d)

namespace Says

variable {x : Run Unit}

theorem reads (hx : Says x) : Reads x :=
  ⟨hx.quiet, fun d => by rw [hx.effect_eq]⟩

theorem note (line : String) : Says (CommandLine.note line) := ⟨fun _ => rfl, fun _ => rfl⟩

theorem report (entries : List LogEntry) : Says (CommandLine.report entries) :=
  ⟨fun _ => rfl, fun _ => rfl⟩

theorem print (text : String) : Says (CommandLine.print text) := ⟨fun _ => rfl, fun _ => rfl⟩

theorem announce (total : Nat) (label : String) : Says (CommandLine.announce total label) :=
  ⟨fun _ => rfl, fun _ => rfl⟩

theorem before (hx : Says x) {f : Unit → Run α} (hf : ∀ u, Quiet (f u)) (d : Disk) :
    effect (x >>= f) d = effect (f ()) d := by
  rw [effect_bind x hf, hx.effect_eq]

theorem after (hx : Says x) (y : Run Unit) (d : Disk) : effect (y >>= fun _ => x) d = effect y d := by
  rw [effect_bind y fun _ => hx.quiet]
  rcases effect y d with ⟨_ | _, e⟩
  · rfl
  · exact hx.effect_eq e

theorem forM {items : List β} {f : β → Run Unit} (hf : ∀ b, Says (f b)) : Says (items.forM f) := by
  induction items with
  | nil => exact ⟨fun _ => rfl, fun _ => rfl⟩
  | cons b items ih =>
      have hnext : ∀ u : Unit, Quiet (items.forM f) := fun _ => ih.quiet
      exact ⟨(hf b).quiet.bind hnext, fun d => ((hf b).before hnext d).trans (ih.effect_eq d)⟩

end Says

/-! ## Loading and editing -/

theorem reads_findInput (path : String) : Reads (findInput path) := by
  unfold findInput
  refine .look (fun _ => rfl) fun s => ?_
  dsimp only
  split
  · split
    · exact .pure _
    · exact .throw _
  · exact .throw _

theorem reads_convertSource (now : Timestamp) (path source : String) :
    Reads (convertSource now path source) := by
  unfold convertSource
  exact (Says.report _).reads.bind fun _ => (Says.forM fun _ => .note _).reads.bind fun _ => .pure _

theorem reads_loadProject (now : Timestamp) (path : String) (fromPython : Bool) :
    Reads (loadProject now path fromPython) := by
  unfold loadProject
  refine .look (fun _ => rfl) fun s => ?_
  dsimp only
  split
  · split
    · exact .throw _
    · exact reads_convertSource now path _
  · split
    · split
      · exact .throw _
      · split
        · exact .throw _
        · exact .pure _
    · split
      · exact .throw _
      · split
        · exact .throw _
        · exact .pure _

theorem reads_loadCommands (path : String) : Reads (loadCommands path) := by
  unfold loadCommands
  refine .look (fun _ => rfl) fun s => ?_
  split
  · exact .throw _
  · split
    · exact .throw _
    · exact .pure _

theorem reads_applyCommands (now : Timestamp) (path : String) (p : Project) :
    Reads (applyCommands now path p) := by
  unfold applyCommands
  refine (reads_loadCommands path).bind fun commands => ?_
  split
  · exact .throw _
  · exact (Says.report _).reads.bind fun _ => (Says.note _).reads.bind fun _ => .pure _

theorem reads_prepare (now : Timestamp) (a : Arguments) : Reads (prepare now a) := by
  unfold prepare
  refine (Says.announce _ _).reads.bind fun _ => (reads_findInput _).bind fun path =>
    (reads_loadProject _ _ _).bind fun p => ?_
  split
  · exact .pure _
  · exact (Says.announce _ _).reads.bind fun _ => reads_applyCommands _ _ _

/-! ## Steps that write -/

theorem quiet_change (failure : SystemError → Failure) (f : Disk → Except SystemError Disk) :
    Quiet (change failure f) := by
  unfold change
  refine .look (fun _ => rfl) fun s => ?_
  split
  · exact fun _ => rfl
  · exact .throw _

theorem effect_change_eq_ok {failure : SystemError → Failure} {f : Disk → Except SystemError Disk}
    {d d' : Disk} {u : Unit} : effect (change failure f) d = (.ok u, d') ↔ f d = .ok d' := by
  have hlook : effect (change failure f) d = effect (change failure fun _ => f d) d := rfl
  rw [hlook]
  cases f d with
  | ok e =>
      have hok : effect (change failure fun _ => .ok e) d = (.ok (), e) := rfl
      simp [hok]
  | error e =>
      have herror : effect (change failure fun _ => .error e) d = (.error (failure e), d) := rfl
      simp [herror]

variable {p : Project} {path : String} {d d' : Disk}

/-- Two changes, and a line in the log about them. -/
theorem quiet_changes (failure : SystemError → Failure) (f g : Disk → Except SystemError Disk)
    (entries : List LogEntry) :
    Quiet (do change failure f; change failure g; report entries) :=
  (quiet_change _ _).bind fun _ => (quiet_change _ _).bind fun _ => (Says.report _).quiet

theorem effect_changes_eq_ok {failure : SystemError → Failure} {f g : Disk → Except SystemError Disk}
    {entries : List LogEntry} {u : Unit} :
    effect (do change failure f; change failure g; report entries) d = (.ok u, d') ↔
      ∃ e, f d = .ok e ∧ g e = .ok d' := by
  rw [effect_bind_eq_ok fun _ => (quiet_change _ _).bind fun _ => (Says.report _).quiet]
  simp only [(Says.report _).after, effect_change_eq_ok]
  constructor
  · rintro ⟨_, e, hf, hg⟩
    exact ⟨e, hf, hg⟩
  · rintro ⟨e, hf, hg⟩
    exact ⟨(), e, hf, hg⟩

/-- A project is saved in two steps, each of which may be refused. -/
theorem effect_saveProject_eq_ok {u : Unit} :
    effect (saveProject path p) d = (.ok u, d') ↔
      ∃ e, d.createParent path = .ok e ∧ e.replaceFile path (Utf8.encode p.toText) = .ok d' :=
  effect_changes_eq_ok

theorem quiet_writeBundle (options : Options) (path : String) (p : Project) :
    Quiet (writeBundle options path p) := by
  unfold writeBundle
  split
  · exact .throw _
  · exact quiet_changes _ _ _ _

theorem effect_writeBundle_eq_ok {options : Options} :
    effect (writeBundle options path p) d = (.ok (), d') ↔
      ∃ bytes e, (Bundle.ofProject options p).write? = some bytes ∧ d.createParent path = .ok e ∧
        e.writeFile path bytes = .ok d' := by
  unfold writeBundle
  cases (Bundle.ofProject options p).write? with
  | none =>
      constructor
      · intro h
        exact absurd (congrArg Prod.fst h) (by nofun)
      · rintro ⟨bytes, e, hbytes, -⟩
        cases hbytes
  | some bytes =>
      refine effect_changes_eq_ok.trans ?_
      constructor
      · rintro ⟨e, hparent, hwrite⟩
        exact ⟨bytes, e, rfl, hparent, hwrite⟩
      · rintro ⟨_, e, hbytes, hparent, hwrite⟩
        cases hbytes
        exact ⟨e, hparent, hwrite⟩

theorem quiet_deliver (a : Arguments) (p : Project) (source : String) : Quiet (deliver a p source) := by
  unfold deliver
  split
  · exact (Says.print _).quiet
  · split
    · exact (Says.announce _ _).quiet.bind fun _ => quiet_writeBundle _ _ _
    · exact (Says.announce _ _).quiet.bind fun _ => quiet_change _ _

/-- To a plain output the source is delivered. -/
theorem effect_deliver_plain {a : Arguments} (hpath : a.output = some path)
    (hplain : wantsBundle a path = false) (p : Project) (source : String) (d : Disk) :
    effect (deliver a p source) d = effect (writeSource path source) d := by
  unfold deliver
  rw [hpath]
  dsimp only
  rw [if_neg (by simp [hplain]), writeSource, (Says.announce _ _).before fun _ => quiet_change _ _]

/-- To a bundle the project is delivered, and the source is generated once more. -/
theorem effect_deliver_bundle {a : Arguments} (hpath : a.output = some path)
    (hbundle : wantsBundle a path = true) (p : Project) (source : String) (d : Disk) :
    effect (deliver a p source) d = effect (writeBundle (optionsOf a) path p) d := by
  unfold deliver
  rw [hpath]
  dsimp only
  rw [if_pos hbundle, (Says.announce _ _).before fun _ => quiet_writeBundle _ _ _]

/-! ## Whole runs -/

/-- The arguments of a run make sense together. -/
def Sensible (a : Arguments) : Prop :=
  (a.bundle = true → a.output.isSome = true) ∧ a.indentWidth ≠ 0

theorem effect_checkArguments_eq_ok {a : Arguments} {u : Unit} :
    effect (checkArguments a) d = (.ok u, d') ↔ Sensible a ∧ d' = d := by
  have hcheck : effect (checkArguments a) d =
      if a.bundle && a.output.isNone then (.error .outputNeeded, d)
      else if a.indentWidth = 0 then (.error .noWidth, d) else (.ok (), d) := by
    unfold checkArguments
    by_cases houtput : (a.bundle && a.output.isNone) = true
    · rw [if_pos houtput, if_pos houtput]
      rfl
    · rw [if_neg houtput, if_neg houtput]
      by_cases hwidth : a.indentWidth = 0
      · rw [if_pos hwidth, if_pos hwidth]
        rfl
      · rw [if_neg hwidth, if_neg hwidth]
        rfl
  rw [hcheck, Sensible]
  cases hbundle : a.bundle <;> cases houtput : a.output <;> by_cases hwidth : a.indentWidth = 0 <;>
    simp [hwidth, eq_comm]

/-- The stages after loading and editing, in a run that saves its project. -/
def stagesAfter (a : Arguments) (path : String) (p : Project) : Run Unit := do
  announce (stageCount a) "Generating Python"
  let source := p.forest.generate (optionsOf a)
  announce (stageCount a) "Writing project JSON"
  saveProject path p
  deliver a p source
  if a.stats then
    (statistics p source).forM fun line => print (line ++ "\n")

theorem program_eq {now : Timestamp} {a : Arguments} (hpath : a.emitProject = some path) :
    program now a = (do
      checkArguments a
      let p ← prepare now a
      stagesAfter a path p) := by
  unfold program
  rw [hpath]
  rfl

theorem says_stats (a : Arguments) (p : Project) (source : String) :
    Says (if a.stats then (statistics p source).forM fun line => print (line ++ "\n")
      else pure ()) := by
  split
  · exact .forM fun _ => .print _
  · exact ⟨fun _ => rfl, fun _ => rfl⟩

theorem quiet_saveAndDeliver (a : Arguments) (path : String) (p : Project) (source : String) :
    Quiet (do
      saveProject path p
      deliver a p source
      if a.stats then (statistics p source).forM fun line => print (line ++ "\n")) :=
  (quiet_changes _ _ _ _).bind fun _ => (quiet_deliver a p source).bind fun _ =>
    (says_stats a p source).quiet

theorem quiet_stagesAfter (a : Arguments) (path : String) (p : Project) :
    Quiet (stagesAfter a path p) :=
  (Says.announce _ _).quiet.bind fun _ => (Says.announce _ _).quiet.bind fun _ =>
    quiet_saveAndDeliver a path p _

/-- Once the project is saved, it remains to deliver the output. -/
theorem effect_stagesAfter (a : Arguments) (path : String) (p : Project) (d : Disk) :
    effect (stagesAfter a path p) d =
      match effect (saveProject path p) d with
      | (.ok _, d') => effect (deliver a p (p.forest.generate (optionsOf a))) d'
      | (.error e, d') => (.error e, d') := by
  have hlast := says_stats a p (p.forest.generate (optionsOf a))
  unfold stagesAfter
  rw [(Says.announce _ _).before fun _ => (Says.announce _ _).quiet.bind fun _ =>
      quiet_saveAndDeliver a path p _,
    (Says.announce _ _).before fun _ => quiet_saveAndDeliver a path p _,
    effect_bind _ fun _ => (quiet_deliver a p _).bind fun _ => hlast.quiet]
  rcases effect (saveProject path p) d with ⟨_ | _, e⟩
  · rfl
  · exact hlast.after _ e

/-- A run whose arguments make sense and whose project is loaded and edited goes on to its later
    stages. -/
theorem effect_program_of_prepare {now : Timestamp} {a : Arguments} (hpath : a.emitProject = some path)
    (ha : Sensible a) (hp : answer (prepare now a) d = .ok p) :
    effect (program now a) d = effect (stagesAfter a path p) d := by
  have hcheck : effect (checkArguments a) d = (.ok (), d) :=
    effect_checkArguments_eq_ok.mpr ⟨ha, rfl⟩
  rw [program_eq hpath, effect_bind _ fun _ => (reads_prepare now a).quiet.bind fun _ =>
      quiet_stagesAfter _ _ _, hcheck]
  dsimp only
  rw [effect_bind _ fun _ => quiet_stagesAfter _ _ _, (reads_prepare now a).effect_eq, hp]

/-- **A run that saves its project and succeeds**: the arguments make sense, a project is loaded and
    edited, it is saved, and the output is delivered. -/
theorem effect_program_eq_ok {now : Timestamp} {a : Arguments} (hpath : a.emitProject = some path) :
    effect (program now a) d = (.ok (), d') ↔
      Sensible a ∧
        ∃ p e, answer (prepare now a) d = .ok p ∧ effect (saveProject path p) d = (.ok (), e) ∧
          effect (deliver a p (p.forest.generate (optionsOf a))) e = (.ok (), d') := by
  constructor
  · intro h
    rw [program_eq hpath, effect_bind_eq_ok fun _ => (reads_prepare now a).quiet.bind fun _ =>
      quiet_stagesAfter _ _ _] at h
    obtain ⟨_, _, hcheck, h⟩ := h
    obtain ⟨hsensible, hd⟩ := effect_checkArguments_eq_ok.mp hcheck
    rw [hd, effect_bind_eq_ok fun _ => quiet_stagesAfter _ _ _, (reads_prepare now a).effect_eq] at h
    obtain ⟨p, e, hp, h⟩ := h
    obtain ⟨hp, he⟩ := Prod.mk.inj hp
    rw [← he, effect_stagesAfter] at h
    rcases hsave : effect (saveProject path p) d with ⟨_ | _, e⟩
    · rw [hsave] at h
      cases h
    · rw [hsave] at h
      exact ⟨hsensible, p, e, hp, hsave, h⟩
  · rintro ⟨hsensible, p, e, hp, hsave, hdelivered⟩
    rw [effect_program_of_prepare hpath hsensible hp, effect_stagesAfter, hsave]
    exact hdelivered

end Blockwork.CommandLine
