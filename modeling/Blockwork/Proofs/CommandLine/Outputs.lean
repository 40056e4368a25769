import Blockwork.Proofs.CommandLine.Effects
import Blockwork.Proofs.Files.Disk
import Blockwork.Proofs.Project.Bundle
import Blockwork.Proofs.Project.Opened

/-!
# `Blockwork.Proofs.CommandLine.Outputs`: all outputs of a run agree

A run may leave its source in a file, in a bundle, and in a saved project from which it can be
generated again. Each of the three is made for itself, from a project that was loaded and edited. They
are compared by way of that project's forest: what is loaded and edited does not depend on what is
asked for as output, nor on the moment of the run.

## Contents
- `loadInput` and `commandsOf`, what a run loads; `opened_of_loadInput` and `map_forest_loadInput`.
- `exists_prepare_iff`: the forest of a run, as commands applied in a workspace, and
  `exists_prepare_later`: it is the same for every output and at any time.
- `readFile_of_run_bundle` and `run_bundled`: what a run does that asks for a bundle instead.
- `OutputsAgree`, and `outputs_agree`: **all outputs of a run agree**.
-/

namespace Blockwork.CommandLine

open Saved

variable {now later : Timestamp} {a : Arguments} {d : Disk} {p : Project}

/-! ## What is loaded -/

/-- The input of a run as a project. -/
def loadInput (now : Timestamp) (a : Arguments) : Run Project := do
  loadProject now (← findInput a.input) a.fromPython

/-- The commands of a run; none if there is no file with commands. -/
def commandsOf (a : Arguments) : Run (List Command) :=
  match a.apply with
  | none => pure []
  | some path => loadCommands path

theorem answer_look {α : Type} (f : Session → Run α) (d : Disk) :
    answer (get >>= f) d = answer (f { disk := d }) d := rfl

theorem answer_convertSource (now : Timestamp) (path source : String) (d : Disk) :
    answer (convertSource now path source) d
      = .ok (Project.create now (Path.stemOf path) "" (Conversion.ofSource source).forest) := by
  unfold convertSource
  have hissues : Says ((Conversion.ofSource source).issues.forM fun issue =>
      note ("warning: line " ++ toString issue.line ++ ": " ++ issue.message)) :=
    .forM fun _ => .note _
  rw [answer, (Says.report _).before fun _ => hissues.quiet.bind fun _ => .pure _,
    hissues.before fun _ => .pure _]
  rfl

/-- Whatever the input is, its project is in order. -/
theorem opened_of_loadProject {path : String} {fromPython : Bool}
    (h : answer (loadProject now path fromPython) d = .ok p) : p.Opened := by
  unfold loadProject at h
  rw [answer_look] at h
  dsimp only at h
  split at h
  · split at h
    · cases h
    · rw [answer_convertSource] at h
      obtain rfl := Except.ok.inj h
      exact Project.opened_ofSource now _ _ _
  · split at h
    · split at h
      · cases h
      · split at h
        · cases h
        · rename_i b hread
          cases h
          exact Project.opened_of_read hread
    · split at h
      · cases h
      · split at h
        · cases h
        · rename_i q hparse
          cases h
          exact Project.opened_of_parse hparse

/-- The forest of the input does not depend on the moment of the run. -/
theorem map_forest_loadProject (now later : Timestamp) (path : String) (fromPython : Bool) (d : Disk) :
    (answer (loadProject now path fromPython) d).map Project.forest
      = (answer (loadProject later path fromPython) d).map Project.forest := by
  unfold loadProject
  rw [answer_look, answer_look]
  dsimp only
  split
  · split
    · rfl
    · rw [answer_convertSource, answer_convertSource]
      rfl
  · split
    · split
      · rfl
      · rename_i bytes _
        have hread := Project.map_forest_read now later bytes
        revert hread
        cases Bundle.read now bytes <;> cases Bundle.read later bytes <;> intro hread <;>
          try cases hread
        · rfl
        · exact congrArg Except.ok (Except.ok.inj hread)
    · split
      · rfl
      · rename_i text _
        have hparse := Project.map_forest_parse now later text
        revert hparse
        cases Project.parse now text <;> cases Project.parse later text <;> intro hparse <;>
          try cases hparse
        · rfl
        · exact congrArg Except.ok (Except.ok.inj hparse)

theorem answer_loadInput (now : Timestamp) (a : Arguments) (d : Disk) :
    answer (loadInput now a) d
      = answer (findInput a.input) d >>= fun path => answer (loadProject now path a.fromPython) d :=
  answer_bind (reads_findInput _) (fun _ => (reads_loadProject _ _ _).quiet) d

theorem opened_of_loadInput (h : answer (loadInput now a) d = .ok p) : p.Opened := by
  rw [answer_loadInput, bind_eq_ok] at h
  obtain ⟨path, -, hload⟩ := h
  exact opened_of_loadProject hload

theorem map_forest_loadInput (now later : Timestamp) (a : Arguments) (d : Disk) :
    (answer (loadInput now a) d).map Project.forest
      = (answer (loadInput later a) d).map Project.forest := by
  rw [answer_loadInput, answer_loadInput]
  exact map_bind_congr_right _ fun path => map_forest_loadProject now later path a.fromPython d

/-! ## What is edited -/

/-- Commands are applied in a workspace; the project keeps the rest. -/
theorem answer_applyCommands {path : String} (hp : p.Opened) :
    answer (applyCommands now path p) d
      = (answer (loadCommands path) d).map fun commands =>
        { p with forest := ((⟨p.forest⟩ : Workspace).applyAll commands).1.forest }.touch now := by
  unfold applyCommands
  rw [hp.ofForest]
  refine (answer_bind (reads_loadCommands path) (fun commands => ?_) d).trans ?_
  · exact (Says.report _).quiet.bind fun _ => (Says.note _).quiet.bind fun _ => .pure _
  · cases answer (loadCommands path) d <;> rfl

/-- The project after the commands of the run. -/
def edit (now : Timestamp) (a : Arguments) (p : Project) : Run Project :=
  match a.apply with
  | none => pure p
  | some path => do
    announce (stageCount a) "Applying edit commands"
    applyCommands now path p

theorem reads_edit (now : Timestamp) (a : Arguments) (p : Project) : Reads (edit now a p) := by
  unfold edit
  split
  · exact .pure _
  · exact (Says.announce _ _).reads.bind fun _ => reads_applyCommands _ _ _

/-- The forest after the commands of the run, in their order. -/
theorem map_forest_edit (hp : p.Opened) :
    (answer (edit now a p) d).map Project.forest
      = (answer (commandsOf a) d).map fun commands =>
        ((⟨p.forest⟩ : Workspace).applyAll commands).1.forest := by
  unfold edit commandsOf
  cases a.apply with
  | none => rfl
  | some path =>
      dsimp only
      rw [answer, (Says.announce _ _).before fun _ => (reads_applyCommands _ _ _).quiet, ← answer,
        answer_applyCommands hp]
      cases answer (loadCommands path) d <;> rfl

theorem answer_prepare (now : Timestamp) (a : Arguments) (d : Disk) :
    answer (prepare now a) d = answer (loadInput now a) d >>= fun p => answer (edit now a p) d := by
  have hprepare : prepare now a = (do
      announce (stageCount a) "Loading input"
      let p ← loadInput now a
      edit now a p) := by
    unfold prepare loadInput
    rw [bind_assoc]
    rfl
  have hload : Reads (loadInput now a) := (reads_findInput _).bind fun _ => reads_loadProject _ _ _
  have hquiet : Quiet (do let p ← loadInput now a; edit now a p) :=
    hload.quiet.bind fun p => (reads_edit now a p).quiet
  rw [hprepare, answer, (Says.announce _ _).before fun _ => hquiet]
  exact answer_bind hload (fun p => (reads_edit now a p).quiet) d

/-- **The forest of a run**: what the input holds, after the commands in their order. -/
theorem exists_prepare_iff {f : Forest} :
    (∃ p, answer (prepare now a) d = .ok p ∧ p.forest = f) ↔
      ∃ loaded commands, answer (loadInput now a) d = .ok loaded ∧
        answer (commandsOf a) d = .ok commands ∧
        f = ((⟨loaded.forest⟩ : Workspace).applyAll commands).1.forest := by
  constructor
  · rintro ⟨p, hp, rfl⟩
    rw [answer_prepare, bind_eq_ok] at hp
    obtain ⟨loaded, hloaded, hedited⟩ := hp
    have hforest : (answer (edit now a loaded) d).map Project.forest = _ :=
      map_forest_edit (opened_of_loadInput hloaded)
    rw [hedited] at hforest
    obtain ⟨commands, hcommands, happlied⟩ := map_eq_ok.mp hforest.symm
    exact ⟨loaded, commands, hloaded, hcommands, happlied.symm⟩
  · rintro ⟨loaded, commands, hloaded, hcommands, rfl⟩
    have hforest : (answer (edit now a loaded) d).map Project.forest = _ :=
      map_forest_edit (opened_of_loadInput hloaded)
    rw [hcommands] at hforest
    obtain ⟨p, hp, hsame⟩ := map_eq_ok.mp hforest
    exact ⟨p, answer_prepare now a d ▸ bind_eq_ok.mpr ⟨loaded, hloaded, hp⟩, hsame⟩

/-- The forest is the same whenever the run takes place, and whatever output is asked for. -/
theorem exists_prepare_later {b : Arguments} (hinput : b.input = a.input)
    (hpython : b.fromPython = a.fromPython) (happly : b.apply = a.apply)
    (h : answer (prepare now a) d = .ok p) (later : Timestamp) :
    ∃ q, answer (prepare later b) d = .ok q ∧ q.forest = p.forest := by
  have hsame : loadInput later b = loadInput later a ∧ commandsOf b = commandsOf a := by
    unfold loadInput commandsOf
    rw [hinput, hpython, happly]
    exact ⟨rfl, rfl⟩
  obtain ⟨loaded, commands, hloaded, hcommands, hforest⟩ := exists_prepare_iff.mp ⟨p, h, rfl⟩
  have hlater := map_forest_loadInput now later a d
  rw [hloaded] at hlater
  obtain ⟨loaded', hloaded', hsameForest⟩ := map_eq_ok.mp hlater.symm
  refine exists_prepare_iff.mpr ⟨loaded', commands, hsame.1 ▸ hloaded', hsame.2 ▸ hcommands, ?_⟩
  rw [hforest, hsameForest]

/-! ## What is written -/

/-- A saved project is read back as the text that it was written as. -/
theorem readText_of_readFile {path text : String} (h : d.readFile path = .ok (Utf8.encode text)) :
    readText d path = .ok text := by
  rw [readText, h]
  show ((Utf8.decode? (Utf8.encode text)).elim _ _ : Except FileError String) = _
  rw [Utf8.decode?_encode]
  rfl

/-- What the archive of a bundle holds as the source. -/
theorem readFile_ofProject {options : Options} {bytes : List UInt8}
    (h : (Bundle.ofProject options p).write? = some bytes) :
    ∃ archive, Archive.ofBytes? bytes = some archive ∧
      Bundle.readFile archive Bundle.sourceFile = .ok (p.forest.generate options) := by
  have hfiles : Archive.write? (Bundle.itemsOf ((Bundle.ofProject options p).edited
      (p.forest.generate options))) = some bytes := h
  obtain ⟨archive, hopen, hcarries⟩ := Bundle.carries_of_write? hfiles
  refine ⟨archive, hopen, hcarries (Bundle.sourceFile, p.forest.generate options) ?_⟩
  simp [Bundle.edited]

/-- A plain output is written in place. -/
theorem exists_writes_of_deliver {out source : String} {d' : Disk} (hout : a.output = some out)
    (hplain : wantsBundle a out = false) (h : effect (deliver a p source) d = (.ok (), d')) :
    ∃ place, d.Writes out (Utf8.encode source) d' place := by
  rw [effect_deliver_plain hout hplain, writeSource, effect_change_eq_ok, Disk.writeFile_eq_ok] at h
  exact h

theorem exists_writes_of_saveProject {path : String} {d' : Disk}
    (h : effect (saveProject path p) d = (.ok (), d')) :
    ∃ e place, d.createParent path = .ok e ∧ e.Writes path (Utf8.encode p.toText) d' place := by
  obtain ⟨e, hparent, hreplace⟩ := effect_saveProject_eq_ok.mp h
  obtain ⟨place, hwrites⟩ := Disk.replaceFile_eq_ok.mp hreplace
  exact ⟨e, place, hparent, hwrites⟩

/-- **A bundle holds the source of its project.** -/
theorem readFile_of_deliver_bundle {path source : String} {d' : Disk} (hout : a.output = some path)
    (hbundle : wantsBundle a path = true) (h : effect (deliver a p source) d = (.ok (), d')) :
    ∃ bytes archive, d'.readFile path = .ok bytes ∧ Archive.ofBytes? bytes = some archive ∧
      Bundle.readFile archive Bundle.sourceFile = .ok (p.forest.generate (optionsOf a)) := by
  rw [effect_deliver_bundle hout hbundle, effect_writeBundle_eq_ok] at h
  obtain ⟨bytes, e, hbytes, -, hwrite⟩ := h
  obtain ⟨place, hwrites⟩ := Disk.writeFile_eq_ok.mp hwrite
  obtain ⟨archive, hopen, hsource⟩ := readFile_ofProject hbytes
  exact ⟨bytes, archive, hwrites.readFile_eq, hopen, hsource⟩

/-- **Where a source was written, a bundle is written instead unless one of its files is too large.** -/
theorem answer_deliver_bundle {path source : String} {bytes : List UInt8} {d' : Disk} {place : Place}
    (hout : a.output = some path) (hbundle : wantsBundle a path = true)
    (h : d.Writes path bytes d' place) :
    answer (deliver a p source) d
      = if (Bundle.ofProject (optionsOf a) p).FitsArchive then .ok () else .error .tooLarge := by
  rw [answer, effect_deliver_bundle hout hbundle]
  by_cases hfits : (Bundle.ofProject (optionsOf a) p).FitsArchive
  · have hwrites := h.others (.refl d) (.refl d) (Archive.encode (Bundle.ofProject (optionsOf a) p).items)
    have heffect := effect_writeBundle_eq_ok.mpr
      ⟨_, d, Bundle.write?_eq_some_iff.mpr ⟨hfits, rfl⟩, h.createParent_eq_self,
        Disk.writeFile_eq_ok.mpr ⟨place, hwrites⟩⟩
    rw [heffect, if_pos hfits]
  · have hnone : (Bundle.ofProject (optionsOf a) p).write? = none :=
      Option.eq_none_iff_forall_ne_some.mpr fun bytes hbytes =>
        hfits (Bundle.write?_eq_some_iff.mp hbytes).1
    unfold writeBundle
    rw [hnone, if_neg hfits]
    rfl

/-- A run that asks for a bundle puts the same source into it. -/
theorem readFile_of_run_bundle {b : Arguments} {disk : Disk} {s : Session} {path emit : String}
    (hinput : b.input = a.input) (hpython : b.fromPython = a.fromPython) (happly : b.apply = a.apply)
    (hindent : b.indentWidth = a.indentWidth) (hp : answer (prepare now a) disk = .ok p)
    (hemit : b.emitProject = some emit) (hout : b.output = some path)
    (hbundle : wantsBundle b path = true) (hrun : run later disk b = (.ok (), s)) :
    ∃ bytes archive, s.disk.readFile path = .ok bytes ∧ Archive.ofBytes? bytes = some archive ∧
      Bundle.readFile archive Bundle.sourceFile = .ok (p.forest.generate (optionsOf a)) := by
  have heffect : effect (program later b) disk = (.ok (), s.disk) := by
    rw [effect_program, hrun]
  obtain ⟨-, q, saved, hq, -, hdeliver⟩ := (effect_program_eq_ok hemit).mp heffect
  obtain ⟨q', hq', hsame⟩ := exists_prepare_later hinput hpython happly hp later
  obtain rfl : q = q' := Except.ok.inj (hq.symm.trans hq')
  have hoptions : optionsOf b = optionsOf a := by
    rw [optionsOf, optionsOf, hindent]
  rw [← hsame, ← hoptions]
  exact readFile_of_deliver_bundle hout hbundle hdeliver

/-- **Where a run has written its source, a run that asks for a bundle writes that**, unless one of its
    files is too large. The bundle is that of a project with the same forest. -/
theorem run_bundled {b : Arguments} {disk e saved after : Disk} {place emitPlace : Place}
    {out emit : String} {bytes text : List UInt8}
    (hinput : b.input = a.input) (hpython : b.fromPython = a.fromPython) (happly : b.apply = a.apply)
    (hsensible : Sensible b) (hp : answer (prepare now a) disk = .ok p)
    (hemit : b.emitProject = some emit) (hout : b.output = some out)
    (hbundle : wantsBundle b out = true) (hparent : disk.createParent emit = .ok e)
    (hemitted : e.Writes emit text saved emitPlace) (hwrites : saved.Writes out bytes after place)
    (later : Timestamp) :
    ∃ q, answer (prepare later b) disk = .ok q ∧ q.forest = p.forest ∧
      (run later disk b).1
        = if (Bundle.ofProject (optionsOf b) q).FitsArchive then .ok () else .error .tooLarge := by
  obtain ⟨q, hq, hforest⟩ := exists_prepare_later hinput hpython happly hp later
  -- The project is saved in place of the other one; the two texts may differ in their moments.
  have hemitted' := hemitted.others (.refl e) (.refl e) (Utf8.encode q.toText)
  have hsave : effect (saveProject emit q) disk
      = (.ok (), e.put emitPlace (.file (Utf8.encode q.toText))) :=
    effect_saveProject_eq_ok.mpr ⟨e, hparent, Disk.replaceFile_eq_ok.mpr ⟨emitPlace, hemitted'⟩⟩
  obtain ⟨after', hthere⟩ :
      ∃ d', (e.put emitPlace (.file (Utf8.encode q.toText))).Writes out bytes d' place := by
    rw [hemitted.result] at hwrites
    exact ⟨_, hwrites.others (Disk.keeps_put_file e hemitted.place_ne_nil _ _)
      (Disk.keeps_put_file e hemitted.place_ne_nil _ _) bytes⟩
  have hprogram := effect_program_of_prepare hemit hsensible hq
  rw [effect_stagesAfter, hsave, effect_program] at hprogram
  have hrun := congrArg Prod.fst hprogram
  dsimp only at hrun
  refine ⟨q, hq, hforest, ?_⟩
  rw [hrun]
  exact answer_deliver_bundle hout hbundle hthere

/-! ## The outputs of one run -/

/-- What the outputs of a run have in common. The run leaves the disk `after`, with its source in the
    file `out` and its project in the file `emit`. -/
structure OutputsAgree (now : Timestamp) (disk after : Disk) (a : Arguments) (out emit : String)
    (loaded : Project) (commands : List Command) (start : Workspace) (forest : Forest) : Prop where
  loads : answer (loadInput now a) disk = .ok loaded
  reads : answer (commandsOf a) disk = .ok commands
  workspace : Workspace.ofForest loaded.forest = .ok start
  edited : forest = (start.applyAll commands).1.forest
  /-- The file `out` holds the source of the edited forest. -/
  plain : after.readFile out = .ok (Utf8.encode (forest.generate (optionsOf a)))
  /-- The file `emit` holds a text from which the same source is generated at any time, if its blocks
      are nested at most 62 levels deep and the digits of its numbers are read back. There are always
      fewer blocks than serials, or else no new id could be found. -/
  project : start.Admits (.applyAll commands) → Tree.heightAll forest.roots ≤ 62 →
    (∀ x ∈ forest.numbers, x.ReadsBack) →
    ∃ text, readText after emit = .ok text ∧
      ∀ later, generateText later (optionsOf a) text = .ok (forest.generate (optionsOf a))
  /-- A bundle holds the same source, if that is the output of the same run at any time. -/
  bundle : ∀ later path flag s',
    wantsBundle { a with output := some path, bundle := flag } path = true →
    run later disk { a with output := some path, bundle := flag } = (.ok (), s') →
    ∃ bytes archive, s'.disk.readFile path = .ok bytes ∧ Archive.ofBytes? bytes = some archive ∧
      Bundle.readFile archive Bundle.sourceFile = .ok (forest.generate (optionsOf a))
  /-- At any time the file `out` can be a bundle instead. The run then has a project with the same
      forest, and it fails only if one of the files of its bundle takes four gigabytes or more. -/
  bundled : ∀ later, ∃ q, answer (prepare later { a with bundle := true }) disk = .ok q ∧
    q.forest = forest ∧
    (run later disk { a with bundle := true }).1
      = if (Bundle.ofProject (optionsOf a) q).FitsArchive then .ok () else .error .tooLarge

/-- **All outputs of a run agree**, whatever its input is, whatever commands are applied to it, and
    however far the source is indented. -/
theorem outputs_agree {disk : Disk} {s : Session} {out emit : String}
    (hrun : run now disk a = (.ok (), s)) (hout : a.output = some out)
    (hplain : wantsBundle a out = false) (hemit : a.emitProject = some emit)
    (hdistinct : s.disk.locate emit ≠ s.disk.locate out) :
    ∃ loaded commands start forest,
      OutputsAgree now disk s.disk a out emit loaded commands start forest := by
  have heffect : effect (program now a) disk = (.ok (), s.disk) := by
    rw [effect_program, hrun]
  obtain ⟨hsensible, p, saved, hp, hsave, hdeliver⟩ := (effect_program_eq_ok hemit).mp heffect
  obtain ⟨loaded, commands, hloaded, hcommands, hforest⟩ := exists_prepare_iff.mp ⟨p, hp, rfl⟩
  -- Two files are written, the project first.
  obtain ⟨place, hwrites⟩ := exists_writes_of_deliver hout hplain hdeliver
  obtain ⟨e, emitPlace, hparent, hemitted⟩ := exists_writes_of_saveProject hsave
  have hopened := opened_of_loadInput hloaded
  refine ⟨loaded, commands, ⟨loaded.forest⟩, p.forest,
    { loads := hloaded
      reads := hcommands
      workspace := hopened.ofForest
      edited := hforest
      plain := hwrites.readFile_eq
      project := fun hadmits hheight hback => ?_
      bundle := fun later path flag s' hbundle hrun' => ?_
      bundled := fun later => ?_ }⟩
  · have hkept : Workspace.Kept ⟨p.forest⟩ := hforest ▸ hopened.kept.applyAll hadmits
    have hread := hwrites.readFile_of_ne hemitted.readFile_eq hdistinct
    refine ⟨p.toText, readText_of_readFile hread, fun later => ?_⟩
    obtain ⟨q, hq, hsource⟩ : ∃ q, Project.parse later p.toText = .ok q ∧
        q.forest.generate (optionsOf a) = p.forest.generate (optionsOf a) :=
      Project.generate_of_parse_toText hkept hheight hback (optionsOf a)
    rw [generateText, hq, ← hsource]
    rfl
  · exact readFile_of_run_bundle (b := { a with output := some path, bundle := flag }) rfl rfl rfl rfl
      hp hemit rfl hbundle hrun'
  · have hsensible' : Sensible { a with bundle := true } :=
      ⟨fun _ => by rw [hout]; rfl, hsensible.2⟩
    exact run_bundled (b := { a with bundle := true }) rfl rfl rfl hsensible' hp hemit hout rfl hparent
      hemitted hwrites later

/-- A directory with a source, and with a command that moves its last line into the loop. -/
def sketchDisk : Disk where
  nodes :=
    [(["home"], .directory),
      (["home", "loop.py"], .file (Utf8.encode "while True:\n  break\nbreak")),
      (["home", "edits.json"],
        .file (Utf8.encode
          "[\x7b\"op\": \"group\", \"parent\": \"while-1\", \"child\": \"break-3\"\x7d]"))]
  current := ["home"]

/-- All that can be asked for at once. -/
def sketchArguments : Arguments where
  input := "loop.py"
  output := some "main.py"
  apply := some "edits.json"
  emitProject := some "save/loop.json"
  indentWidth := 2

/-- The source after the command. -/
def sketchSource : String :=
  "while True:\n  break\n  break\n"

/-- The run writes the source, the source is generated again from the saved project, and the same run
    with a bundle puts it into the bundle. -/
theorem outputs_agree_sketch :
    ∃ s text s' bytes archive,
      run (.sinceEpoch 0 0) sketchDisk sketchArguments = (.ok (), s) ∧
      s.disk.readFile "main.py" = .ok (Utf8.encode sketchSource) ∧
      readText s.disk "save/loop.json" = .ok text ∧
      (∀ later, generateText later (optionsOf sketchArguments) text = .ok sketchSource) ∧
      run (.sinceEpoch 0 0) sketchDisk { sketchArguments with bundle := true } = (.ok (), s') ∧
      s'.disk.readFile "main.py" = .ok bytes ∧ Archive.ofBytes? bytes = some archive ∧
      Bundle.readFile archive Bundle.sourceFile = .ok sketchSource := by
  obtain ⟨s, hs⟩ : ∃ s, s = (run (.sinceEpoch 0 0) sketchDisk sketchArguments).2 := ⟨_, rfl⟩
  obtain ⟨hok, hplaces⟩ : (run (.sinceEpoch 0 0) sketchDisk sketchArguments).1.isOk = true ∧
      ((run (.sinceEpoch 0 0) sketchDisk sketchArguments).2.disk.locate "save/loop.json").toOption ≠
        ((run (.sinceEpoch 0 0) sketchDisk sketchArguments).2.disk.locate "main.py").toOption := by
    decide +kernel
  have hrun : run (.sinceEpoch 0 0) sketchDisk sketchArguments = (.ok (), s) := by
    rw [hs]
    revert hok
    rcases run (.sinceEpoch 0 0) sketchDisk sketchArguments with ⟨_ | ⟨⟩, t⟩
    · intro hok
      cases hok
    · intro
      rfl
  have hdistinct : s.disk.locate "save/loop.json" ≠ s.disk.locate "main.py" :=
    fun h => hplaces (hs ▸ congrArg Except.toOption h)
  obtain ⟨loaded, commands, start, forest, h⟩ := outputs_agree hrun rfl (by decide +kernel) rfl hdistinct
  -- What was loaded is calculated, and with it all that is asked of it.
  have hstart : start = ⟨((answer (loadInput (.sinceEpoch 0 0) sketchArguments) sketchDisk).map
      Project.forest).toOption.getD .empty⟩ := by
    have hforest := (Workspace.forest_of_ofForest h.workspace).1
    rw [h.loads]
    exact congrArg Workspace.mk hforest
  have hcommands : commands = (answer (commandsOf sketchArguments) sketchDisk).toOption.getD [] := by
    rw [h.reads]
    rfl
  obtain ⟨hsizes, hheight, hback, hsource⟩ :
      (∀ done ∈ commands.inits, (start.applyAll done).1.forest.size < 2 ^ 64 - 1) ∧
        Tree.heightAll forest.roots ≤ 62 ∧ (∀ x ∈ forest.numbers, x.ReadsBack) ∧
        forest.generate (optionsOf sketchArguments) = sketchSource := by
    rw [h.edited, hstart, hcommands]
    decide +kernel
  have hadmits : start.Admits (.applyAll commands) :=
    fun done hdone => hsizes done ((List.mem_inits _ _).mpr hdone)
  obtain ⟨text, htext, hagain⟩ := h.project hadmits hheight hback
  -- The files of the bundle are small.
  obtain ⟨q, hq, -, hbundled⟩ := h.bundled (.sinceEpoch 0 0)
  have hfits : (Bundle.ofProject (optionsOf sketchArguments) q).FitsArchive := by
    have hsmall : ((answer (prepare (.sinceEpoch 0 0) { sketchArguments with bundle := true })
        sketchDisk).toOption.all fun q => (Bundle.ofProject (optionsOf sketchArguments) q).FitsArchive)
        = true := by decide +kernel
    rw [hq] at hsmall
    exact of_decide_eq_true hsmall
  rw [if_pos hfits] at hbundled
  obtain ⟨bytes, archive, hbytes, harchive, hstored⟩ := h.bundle (.sinceEpoch 0 0) "main.py" true
    (run (.sinceEpoch 0 0) sketchDisk { sketchArguments with bundle := true }).2 rfl
    (Prod.ext hbundled rfl)
  exact ⟨s, text, _, bytes, archive, hrun, hsource ▸ h.plain, htext, hsource ▸ hagain,
    Prod.ext hbundled rfl, hbytes, harchive, hsource ▸ hstored⟩

end Blockwork.CommandLine
