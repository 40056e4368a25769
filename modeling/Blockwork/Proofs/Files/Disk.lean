import Blockwork.Files.Disk
import Mathlib.Tactic.Common

/-!
# `Blockwork.Proofs.Files.Disk`: a file is read as it was written

Writing puts something at one place, and that place was no directory before. So no path that led
somewhere leads elsewhere afterwards: what was written is read back, and what stands at other places
is read as before.

## Contents
- `node?_put_of_ne`: other places stay as they are.
- `Keeps`, with `locate_of_keeps`: paths lead where they led.
- `Writes`, what it means that bytes were written: `writeFile_eq_ok` and `replaceFile_eq_ok`.
- `Writes.readFile_eq` and `Writes.readFile_of_ne`: what is read afterwards.
- `createParent_eq_self`: the directory of a file that can be written is there.
-/

namespace Blockwork.Disk

variable {d d' : Disk} {path path' : String} {place place' next : Place} {bytes bytes' : List UInt8}

theorem node?_put_of_ne (d : Disk) (node : Node) (h : place' ≠ place) :
    (d.put place node).node? place' = d.node? place' := by
  have hsame : ∀ e : Place × Node,
      decide ((e.1 != place) = true ∧ (e.1 == place') = true) = (e.1 == place') := by
    intro e
    by_cases he : e.1 = place'
    · simp [he, h]
    · simp [he]
  unfold node? put
  rw [List.find?_cons_of_neg (by simp [h.symm]), List.find?_filter]
  simp only [hsame]

/-! ## Paths -/

/-- Directories are still there, and relative paths still begin at the same one. -/
structure Keeps (d d' : Disk) : Prop where
  current : d'.current = d.current
  directories : ∀ place, d.node? place = some .directory → d'.node? place = some .directory

theorem Keeps.refl (d : Disk) : Keeps d d := ⟨rfl, fun _ h => h⟩

theorem keeps_put (h : d.node? place ≠ some .directory) (node : Node) :
    Keeps d (d.put place node) where
  current := rfl
  directories other hother := by
    have hne : other ≠ place := fun heq => h (heq ▸ hother)
    rw [node?_put_of_ne d node hne, hother]

/-- The bytes of a file make no difference. -/
theorem keeps_put_file (d : Disk) (hplace : place ≠ []) (bytes bytes' : List UInt8) :
    Keeps (d.put place (.file bytes)) (d.put place (.file bytes')) where
  current := rfl
  directories other hother := by
    have hne : other ≠ place := by
      rintro rfl
      rw [node?_put d _ hplace] at hother
      cases hother
    rw [node?_put_of_ne d _ hne] at hother ⊢
    exact hother

/-- One part further: from a directory only. -/
theorem enter_eq_ok {part : String} :
    d.enter place part = .ok next ↔
      d.node? place = some .directory ∧
        (if part = Path.here then place
          else if part = Path.above then place.dropLast else place ++ [part]) = next := by
  unfold enter
  cases d.node? place with
  | none => simp
  | some node =>
      cases node with
      | file bytes => simp
      | directory =>
          simp only [true_and]
          split
          · simp
          · split <;> simp

theorem foldlM_enter_cons {part : String} {parts : List String} {start : Place} :
    (part :: parts).foldlM d.enter start = .ok place ↔
      ∃ next, d.enter start part = .ok next ∧ parts.foldlM d.enter next = .ok place := by
  rw [List.foldlM_cons]
  cases d.enter start part with
  | error e => exact ⟨nofun, fun ⟨_, h, _⟩ => nomatch h⟩
  | ok next =>
      constructor
      · intro h
        exact ⟨next, rfl, h⟩
      · rintro ⟨_, ⟨⟩, h⟩
        exact h

/-- Parts that led somewhere still lead there. -/
theorem foldlM_enter_of_keeps (h : Keeps d d') {parts : List String} {start : Place}
    (hparts : parts.foldlM d.enter start = .ok place) :
    parts.foldlM d'.enter start = .ok place := by
  induction parts generalizing start with
  | nil => exact hparts
  | cons part parts ih =>
      obtain ⟨next, hnext, hrest⟩ := foldlM_enter_cons.mp hparts
      obtain ⟨hdirectory, hstep⟩ := enter_eq_ok.mp hnext
      have hnext' : d'.enter start part = .ok next :=
        enter_eq_ok.mpr ⟨h.directories start hdirectory, hstep⟩
      exact foldlM_enter_cons.mpr ⟨next, hnext', ih hrest⟩

theorem locate_of_keeps (h : Keeps d d') (hpath : d.locate path = .ok place) :
    d'.locate path = .ok place := by
  have hstart : d'.startOf path = d.startOf path := by
    rw [startOf, startOf, h.current]
  rw [locate, hstart]
  exact foldlM_enter_of_keeps h hpath

/-! ## Reading and writing -/

theorem readFile_eq_ok :
    d.readFile path = .ok bytes ↔
      ∃ place, d.locate path = .ok place ∧ d.node? place = some (.file bytes) ∧
        Path.endsWithSlash path = false := by
  unfold readFile lookup
  cases d.locate path with
  | error e => simp [bind, Except.bind]
  | ok place =>
      simp only [bind, Except.bind, Except.ok.injEq, exists_eq_left']
      cases d.node? place with
      | none => simp [throw, throwThe, MonadExceptOf.throw]
      | some node =>
          cases node with
          | directory => simp [throw, throwThe, MonadExceptOf.throw, pure, Except.pure]
          | file content =>
              cases Path.endsWithSlash path <;>
                simp [throw, throwThe, MonadExceptOf.throw, pure, Except.pure]

/-- The bytes were put where a path leads; no directory was there, and the path does not ask for
    one. -/
structure Writes (d : Disk) (path : String) (bytes : List UInt8) (d' : Disk) (place : Place) : Prop where
  leads : d.locate path = .ok place
  free : d.node? place ≠ some .directory
  noSlash : Path.endsWithSlash path = false
  noDots : endsWithDots path = false
  result : d' = d.put place (.file bytes)

/-- Bytes are put anywhere but in place of a directory. -/
theorem put_eq_ok {e : SystemError} :
    (match d.node? place with
      | some .directory => .error e
      | _ => .ok (d.put place (.file bytes)) : Except SystemError Disk) = .ok d' ↔
      d.node? place ≠ some .directory ∧ d' = d.put place (.file bytes) := by
  cases d.node? place with
  | none => simp [eq_comm]
  | some node => cases node <;> simp [eq_comm]

theorem exists_writes_iff (hplace : d.locate path = .ok place) :
    (∃ place, d.Writes path bytes d' place) ↔
      (Path.endsWithSlash path = false ∧ endsWithDots path = false) ∧
        d.node? place ≠ some .directory ∧ d' = d.put place (.file bytes) := by
  constructor
  · rintro ⟨place', h⟩
    cases hplace.symm.trans h.leads
    exact ⟨⟨h.noSlash, h.noDots⟩, h.free, h.result⟩
  · rintro ⟨⟨hslash, hdots⟩, hfree, hresult⟩
    exact ⟨place, hplace, hfree, hslash, hdots, hresult⟩

theorem not_writes_of_error {e : SystemError} (hplace : d.locate path = .error e) :
    ¬∃ place, d.Writes path bytes d' place := by
  rintro ⟨place, h⟩
  cases hplace.symm.trans h.leads

theorem writeFile_eq_ok : d.writeFile path bytes = .ok d' ↔ ∃ place, d.Writes path bytes d' place := by
  unfold writeFile
  cases hplace : d.locate path with
  | error e =>
      refine ⟨fun h => ?_, fun h => absurd h (not_writes_of_error hplace)⟩
      cases h
  | ok place =>
      rw [exists_writes_iff hplace, ← put_eq_ok]
      cases Path.endsWithSlash path
      · cases endsWithDots path
        · simp only [and_self, true_and]
          exact Iff.rfl
        · simp [throw, throwThe, MonadExceptOf.throw, bind, Except.bind]
      · simp [throw, throwThe, MonadExceptOf.throw, bind, Except.bind]

/-- A file is replaced wherever it could be written; only the errors differ. -/
theorem replaceFile_eq_ok_iff_writeFile :
    d.replaceFile path bytes = .ok d' ↔ d.writeFile path bytes = .ok d' := by
  unfold replaceFile writeFile
  cases d.locate path with
  | error e => rfl
  | ok place =>
      cases Path.endsWithSlash path <;> cases endsWithDots path <;>
        simp [throw, throwThe, MonadExceptOf.throw, bind, Except.bind, pure, Except.pure]

theorem replaceFile_eq_ok :
    d.replaceFile path bytes = .ok d' ↔ ∃ place, d.Writes path bytes d' place :=
  replaceFile_eq_ok_iff_writeFile.trans writeFile_eq_ok

/-! ## Reading what was written -/

namespace Writes

theorem place_ne_nil (h : d.Writes path bytes d' place) : place ≠ [] := by
  rintro rfl
  exact h.free rfl

theorem keeps (h : d.Writes path bytes d' place) : Keeps d d' :=
  h.result ▸ keeps_put h.free _

theorem locate_eq (h : d.Writes path bytes d' place) : d'.locate path = .ok place :=
  locate_of_keeps h.keeps h.leads

/-- What was written is read back. -/
theorem readFile_eq (h : d.Writes path bytes d' place) : d'.readFile path = .ok bytes := by
  refine readFile_eq_ok.mpr ⟨place, h.locate_eq, ?_, h.noSlash⟩
  rw [h.result, node?_put d _ h.place_ne_nil]

/-- What stands at another place is read as before. -/
theorem readFile_of_ne (h : d.Writes path bytes d' place) (hread : d.readFile path' = .ok bytes')
    (hne : d'.locate path' ≠ d'.locate path) : d'.readFile path' = .ok bytes' := by
  obtain ⟨place', hplace', hnode, hslash⟩ := readFile_eq_ok.mp hread
  have hplace'' := locate_of_keeps h.keeps hplace'
  have hdiffer : place' ≠ place := by
    rintro rfl
    exact hne (hplace''.trans h.locate_eq.symm)
  refine readFile_eq_ok.mpr ⟨place', hplace'', ?_, hslash⟩
  rw [h.result, node?_put_of_ne d _ hdiffer, hnode]

/-- Where some bytes were written, others can be, on every disk with the same directories. -/
theorem others (h : d.Writes path bytes d' place) {e : Disk} (hde : Keeps d e) (hed : Keeps e d)
    (bytes' : List UInt8) : e.Writes path bytes' (e.put place (.file bytes')) place :=
  ⟨locate_of_keeps hde h.leads, fun he => h.free (hed.directories place he), h.noSlash, h.noDots, rfl⟩

end Writes

/-! ## The directory of a file -/

/-- A way to a directory begins at one. -/
theorem directory_of_foldlM_enter {parts : List String} {start : Place}
    (hparts : parts.foldlM d.enter start = .ok place) (hplace : d.node? place = some .directory) :
    d.node? start = some .directory := by
  cases parts with
  | nil =>
      cases hparts
      exact hplace
  | cons part parts =>
      obtain ⟨next, hnext, -⟩ := foldlM_enter_cons.mp hparts
      exact (enter_eq_ok.mp hnext).1

theorem createDirectoriesFrom_cons {part : String} {start : Place} (hnext : d.enter start part = .ok next)
    (hdirectory : d.node? next = some .directory) (parts : List String) :
    d.createDirectoriesFrom start (part :: parts) = d.createDirectoriesFrom next parts := by
  rw [createDirectoriesFrom, hnext]
  simp only [bind, Except.bind, hdirectory]

/-- Directories that are there need not be created; parts that stay where they are do not matter. -/
theorem createDirectoriesFrom_filter {parts : List String} {start : Place}
    (hparts : parts.foldlM d.enter start = .ok place) (hplace : d.node? place = some .directory) :
    d.createDirectoriesFrom start (parts.filter (· != Path.here)) = .ok d := by
  induction parts generalizing start with
  | nil => rfl
  | cons part parts ih =>
      obtain ⟨next, hnext, hrest⟩ := foldlM_enter_cons.mp hparts
      by_cases hhere : part = Path.here
      · have hsame : next = start := by
          rw [← (enter_eq_ok.mp hnext).2, if_pos hhere]
        rw [List.filter_cons_of_neg (by simp [hhere]), ← hsame]
        exact ih hrest
      · rw [List.filter_cons_of_pos (by simp [hhere]),
          createDirectoriesFrom_cons hnext (directory_of_foldlM_enter hrest hplace)]
        exact ih hrest

/-- **The directory of a file that can be written is there.** -/
theorem Writes.createParent_eq_self (h : d.Writes path bytes d' place) :
    d.createParent path = .ok d := by
  obtain ⟨last, hlast, hname⟩ : ∃ last, (Path.parts path).getLast? = some last ∧ last ≠ Path.here := by
    have hdots := h.noDots
    unfold endsWithDots at hdots
    split at hdots
    · rename_i last hlast
      refine ⟨last, hlast, ?_⟩
      rintro rfl
      simp at hdots
    · cases hdots
  obtain ⟨before, hparts⟩ := List.getLast?_eq_some_iff.mp hlast
  -- All parts but the last lead to the directory of the file.
  obtain ⟨parent, hparent, hdirectory⟩ : ∃ parent,
      before.foldlM d.enter (d.startOf path) = .ok parent ∧ d.node? parent = some .directory := by
    have hleads := h.leads
    rw [locate, hparts, List.foldlM_append] at hleads
    cases hbefore : before.foldlM d.enter (d.startOf path) with
    | error e =>
        rw [hbefore] at hleads
        cases hleads
    | ok parent =>
        rw [hbefore] at hleads
        obtain ⟨_, hnext, -⟩ := foldlM_enter_cons.mp hleads
        exact ⟨parent, rfl, (enter_eq_ok.mp hnext).1⟩
  rw [createParent, Path.parentOf, Path.components, hparts]
  cases before with
  | nil =>
      simp only [List.nil_append, List.filter_nil, List.append_nil, hname, false_and, if_false]
      rfl
  | cons first before =>
      have hrest : (before ++ [last]).filter (· != Path.here)
          = before.filter (· != Path.here) ++ [last] := by
        rw [List.filter_append, List.filter_cons_of_pos (by simp [hname]), List.filter_nil]
      obtain ⟨next, hnext, hbefore⟩ := foldlM_enter_cons.mp hparent
      simp only [List.cons_append, hrest, ← List.append_assoc, List.dropLast_concat]
      by_cases hfirst : first = Path.here ∧ Path.isAbsolute path = true
      · have hsame : next = d.startOf path := by
          rw [← (enter_eq_ok.mp hnext).2, if_pos hfirst.1]
        rw [if_pos hfirst, List.nil_append, ← hsame]
        exact createDirectoriesFrom_filter hbefore hdirectory
      · rw [if_neg hfirst, List.singleton_append,
          createDirectoriesFrom_cons hnext (directory_of_foldlM_enter hbefore hdirectory)]
        exact createDirectoriesFrom_filter hbefore hdirectory

end Blockwork.Disk
