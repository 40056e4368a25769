import Blockwork.Bundle
import Blockwork.Proofs.Archive.RoundTrip
import Blockwork.Proofs.Project.SaveAndLoad
import Blockwork.Proofs.Saved.Size

/-!
# `Blockwork.Proofs.Project.Bundle`: a bundle is read as it was written

A bundle is read from the texts of its three files, however the archive around them was made. So
reading is described for archives that carry given texts, and an archive that was written carries the
texts that were put in. The manifest comes back as it is: its keys are in order, and its numbers fit,
since the project's text alone takes a byte for every block.

## Contents
- `Archive.Carries`, and `carries_of_write?`: what was written is carried.
- `Bundle.ofWholeText_manifest`, `checkManifest_manifest`, `sourceFileOf_manifest` and
  `hasDigest_manifest`: what the reader sees of a manifest.
- `Bundle.FitsArchive`, and `Bundle.write?_eq_some_iff`: which bundles can be written.
- `Bundle.edited`, the files with another source, and `ofArchive_of_carries`.
- `Bundle.read_write`: **a bundle is read as it was written, and an edited source is refused**.
-/

namespace Blockwork

open Saved

/-- The files of a list with their texts are in the archive. -/
def Archive.Carries (a : Archive) (files : List (String × String)) : Prop :=
  ∀ f ∈ files, Bundle.readFile a f.1 = .ok f.2

namespace Bundle

variable {b : Bundle} {text : String}

/-! ## Files in archives -/

/-- Files as they are put into an archive. -/
def itemsOf (files : List (String × String)) : List Archive.Item :=
  files.map fun (name, text) => ⟨name, Utf8.encode text⟩

/-- A file that is found has the text that was put in. -/
theorem readFile_member {a : Archive} {name : String} {i : Archive.Item}
    (hfind : a.find? name = some i.member) (hcontent : i.content = Utf8.encode text) :
    readFile a name = .ok text := by
  have hbytes : i.member.content = .ok (Utf8.encode text) := hcontent ▸ Archive.content_member i
  rw [readFile, hfind]
  refine bind_eq_ok.mpr ⟨i.member, rfl, bind_eq_ok.mpr ⟨Utf8.encode text, ?_, ?_⟩⟩
  · rw [hbytes]
    rfl
  · rw [Utf8.decode?_encode]
    rfl

/-- The files of the bundle with another text for the source. -/
def edited (b : Bundle) (text : String) : List (String × String) :=
  [(manifestFile, b.manifest.pretty), (projectFile, b.project.toText), (sourceFile, text)]

/-- The names of the three files are read back. -/
theorem name_member {name : String} (hname : name ∈ [manifestFile, projectFile, sourceFile])
    (content : List UInt8) : (Archive.Item.mk name content).member.name = some name := by
  have hnames : ∀ name ∈ [manifestFile, projectFile, sourceFile],
      (Archive.Item.mk name []).member.name = some name := by
    decide +kernel
  exact hnames name hname

/-- **An archive that was written carries the texts that were put in.** -/
theorem carries_of_write? {bytes : List UInt8}
    (h : Archive.write? (itemsOf (b.edited text)) = some bytes) :
    ∃ a, Archive.ofBytes? bytes = some a ∧ a.Carries (b.edited text) := by
  refine ⟨_, Archive.ofBytes?_of_write? h, ?_⟩
  have hmanifest := name_member (by decide : manifestFile ∈ _) (Utf8.encode b.manifest.pretty)
  have hproject := name_member (by decide : projectFile ∈ _) (Utf8.encode b.project.toText)
  have hsource := name_member (by decide : sourceFile ∈ _) (Utf8.encode text)
  have hdiffer : manifestFile ≠ projectFile ∧ manifestFile ≠ sourceFile ∧ projectFile ≠ sourceFile := by
    decide
  obtain ⟨hmanifestProject, hmanifestSource, hprojectSource⟩ := hdiffer
  simp only [Archive.Carries, edited, List.forall_mem_cons]
  refine ⟨readFile_member (i := ⟨manifestFile, Utf8.encode b.manifest.pretty⟩) ?_ rfl,
    readFile_member (i := ⟨projectFile, Utf8.encode b.project.toText⟩) ?_ rfl,
    readFile_member (i := ⟨sourceFile, Utf8.encode text⟩) ?_ rfl, fun f hf => (nomatch hf)⟩
  -- The search goes from the last file to the first.
  · simp [Archive.find?, itemsOf, hmanifest, hproject, hsource, hmanifestProject.symm,
      hmanifestSource.symm, Archive.isReadable_member]
  · simp [Archive.find?, itemsOf, hproject, hsource, hprojectSource.symm, Archive.isReadable_member]
  · simp [Archive.find?, itemsOf, hsource, Archive.isReadable_member]

/-! ## The manifest -/

/-- The manifest is read as it was written. -/
theorem ofWholeText_manifest (h : b.project.forest.size < UInt64.size) :
    ofWholeText b.manifest.pretty = .ok b.manifest := by
  have hplain : Json.Plain b.manifest := by
    refine .record ?_
    simp only [List.forall_mem_cons]
    exact ⟨.natural _, .text _, .text _, .text _, .text _, .natural _, fun m hm => (nomatch hm)⟩
  have hversion : version < UInt64.size := by decide
  have hkeys : ["block_count", "entry_file", "format", "name", "source_md5", "version"].Pairwise
      (· < ·) := by decide
  have hloaded : Json.loaded b.manifest = b.manifest := by
    rw [manifest, Json.loaded_record_of_sorted]
    · simp only [List.map_cons, List.map_nil, Json.loaded_natural h, Json.loaded_natural hversion,
        Json.loaded_text]
    · exact List.pairwise_map.mp hkeys
  have hreadable : (Json.reread b.manifest).readable depthLimit = true := by
    rw [manifest, Json.reread_record, Json.readable_record, List.forall_mem_map]
    simp only [List.forall_mem_cons, Json.reread_natural h, Json.reread_natural hversion]
    exact ⟨by decide, rfl, rfl, rfl, rfl, rfl, rfl, fun m hm => (nomatch hm)⟩
  rw [ofWholeText_pretty hplain, if_pos hreadable, hloaded]

theorem checkManifest_manifest (b : Bundle) : checkManifest b.manifest = .ok () := by
  rfl

theorem sourceFileOf_manifest (b : Bundle) : sourceFileOf b.manifest = sourceFile := by
  rfl

theorem hasDigest_manifest (b : Bundle) (text : String) :
    hasDigest b.manifest text = (sourceDigest text == sourceDigest b.source) := by
  rfl

/-! ## Sizes -/

/-- Each file of a bundle takes less than four gigabytes in an archive. -/
def FitsArchive (b : Bundle) : Prop :=
  ∀ f ∈ b.files, (Deflate.store (Utf8.encode f.2)).length < 4294967296

instance (b : Bundle) : Decidable b.FitsArchive :=
  inferInstanceAs (Decidable (∀ f ∈ b.files, _))

/-- The files of a bundle have short names, so only what is in them can be too large. -/
theorem fits_items_iff (b : Bundle) : (∀ i ∈ b.items, i.Fits) ↔ b.FitsArchive := by
  have hnames : ∀ f ∈ b.files, (Utf8.encode f.1).length < 65536 := by
    simp only [files, List.forall_mem_cons]
    exact ⟨by decide, by decide, by decide, fun f hf => (nomatch hf)⟩
  rw [items, List.forall_mem_map]
  refine forall₂_congr fun f hf => ⟨fun h => h.data, fun h => ⟨hnames f hf, ?_, h⟩⟩
  exact Nat.lt_of_le_of_lt (Deflate.length_le_length_store _) h

/-- **A bundle can be written exactly if none of its files is too large.** -/
theorem write?_eq_some_iff {bytes : List UInt8} :
    b.write? = some bytes ↔ b.FitsArchive ∧ bytes = Archive.encode b.items := by
  rw [write?, Archive.write?_eq_some_iff, fits_items_iff]
  constructor
  · rintro ⟨rfl, -, hfits⟩
    exact ⟨hfits, rfl⟩
  · rintro ⟨hfits, rfl⟩
    exact ⟨rfl, Archive.length_encode_lt (b.fits_items_iff.mpr hfits) (by simp [items, files]), hfits⟩

/-- A bundle that fits into an archive has few enough blocks to be counted. -/
theorem size_lt_of_write? {bytes : List UInt8} (h : b.write? = some bytes) :
    b.project.forest.size < UInt64.size := by
  obtain ⟨-, -, hitems⟩ := Archive.write?_eq_some_iff.mp h
  have hitem : (⟨projectFile, Utf8.encode b.project.toText⟩ : Archive.Item) ∈ b.items := by
    simp [items, files]
  have hfits : (Utf8.encode b.project.toText).length < 4294967296 := (hitems _ hitem).content
  have hsize := b.project.size_le_length_toText
  have hwide : (4294967296 : Nat) < UInt64.size := by decide
  exact (hsize.trans_lt hfits).trans hwide

/-! ## Reading -/

/-- What is read from an archive that carries the manifest and the project of a bundle with some
    source. -/
theorem ofArchive_of_carries {a : Archive} {now : Timestamp} {q : Project}
    (hload : Project.parse now b.project.toText = .ok q)
    (hsize : b.project.forest.size < UInt64.size) (ha : a.Carries (b.edited text)) :
    ofArchive now a
      = if sourceDigest text = sourceDigest b.source then .ok ⟨q, text⟩
        else .error (.wrongDigest sourceFile) := by
  simp only [Archive.Carries, edited, List.forall_mem_cons] at ha
  obtain ⟨hmanifest, hproject, hsource, -⟩ := ha
  simp only [ofArchive, hmanifest, ofWholeText_manifest hsize, checkManifest_manifest, hproject, hload,
    sourceFileOf_manifest, hsource, hasDigest_manifest, beq_iff_eq, bind, Except.bind, Except.mapError]
  rfl

/-- **A bundle is read as it was written, and an edited source is refused.** Let a project be loaded
    from its own text as a project that is the same. Whenever its bundle can be written, whatever the
    options are, reading gives that project with the source generated from the one that was written.
    An archive with the same manifest and project and a source of another digest is refused, whether it
    was made like a bundle or otherwise. -/
theorem read_write {now : Timestamp} {p q : Project} (options : Options) {bytes : List UInt8}
    (hload : Project.parse now p.toText = .ok q) (hsame : p.same q = true)
    (hwrite : (ofProject options p).write? = some bytes) :
    (∃ b, read now bytes = .ok b ∧ p.same b.project = true ∧
      b.source = p.forest.generate options) ∧
    ∀ text, sourceDigest text ≠ sourceDigest (p.forest.generate options) →
      (∀ edited a, Archive.ofBytes? edited = some a →
        a.Carries ((ofProject options p).edited text) →
        read now edited = .error (.wrongDigest sourceFile)) ∧
      ∀ edited, Archive.write? (itemsOf ((ofProject options p).edited text)) = some edited →
        read now edited = .error (.wrongDigest sourceFile) := by
  have hsize := size_lt_of_write? hwrite
  have hcarried : ∀ text edited a, Archive.ofBytes? edited = some a →
      a.Carries ((ofProject options p).edited text) →
      read now edited = if sourceDigest text = sourceDigest (p.forest.generate options)
        then .ok ⟨q, text⟩ else .error (.wrongDigest sourceFile) := by
    intro text edited a hopen ha
    rw [read, hopen]
    exact ofArchive_of_carries (b := ofProject options p) hload hsize ha
  constructor
  · have hfiles : Archive.write? (itemsOf ((ofProject options p).edited (p.forest.generate options)))
        = some bytes := hwrite
    obtain ⟨a, hopen, ha⟩ := carries_of_write? hfiles
    refine ⟨⟨q, p.forest.generate options⟩, ?_, hsame, rfl⟩
    rw [hcarried (p.forest.generate options) bytes a hopen ha, if_pos rfl]
  · intro text hdigest
    constructor
    · intro edited a hopen ha
      rw [hcarried text edited a hopen ha, if_neg hdigest]
    · intro edited hedited
      obtain ⟨a, hopen, ha⟩ := carries_of_write? hedited
      rw [hcarried text edited a hopen ha, if_neg hdigest]

/-- The bundle of a folded loop around a comment. -/
def loopBundle : Bundle :=
  ofProject {} (Project.sketch (.ofDecimal true 1225 (-2)))

/-- It is read back, and with a comment for a source it is refused. -/
theorem read_write_loopBundle :
    ∃ q bytes edited, Project.parse (.sinceEpoch 0 0) loopBundle.project.toText = .ok q ∧
      loopBundle.project.same q = true ∧ loopBundle.write? = some bytes ∧
      (∃ b, read (.sinceEpoch 0 0) bytes = .ok b ∧ loopBundle.project.same b.project = true ∧
        b.source = loopBundle.source) ∧
      sourceDigest "# edited\n" ≠ sourceDigest loopBundle.source ∧
      Archive.write? (itemsOf (loopBundle.edited "# edited\n")) = some edited ∧
      read (.sinceEpoch 0 0) edited = .error (.wrongDigest sourceFile) := by
  have hback : ∀ x ∈ loopBundle.project.forest.numbers, x.isFinite = true → x.ReadsBack := by
    decide +kernel
  have hfinite : ∀ x ∈ loopBundle.project.forest.numbers, x.isFinite = true := by decide +kernel
  have hheight : Tree.heightAll loopBundle.project.forest.roots ≤ 62 := by decide +kernel
  have hvalid : loopBundle.project.reloaded.forest.Valid := by rfl
  have hload : Project.parse (.sinceEpoch 0 0) loopBundle.project.toText
      = .ok loopBundle.project.reloaded :=
    (Project.parse_toText_iff hback _).mpr ⟨hfinite, hheight, hvalid, rfl⟩
  have hsame : loopBundle.project.same loopBundle.project.reloaded = true := by decide +kernel
  have hwrite : loopBundle.write? = some (Archive.encode loopBundle.items) :=
    write?_eq_some_iff.mpr ⟨by decide +kernel, rfl⟩
  have hdigest : sourceDigest "# edited\n" ≠ sourceDigest loopBundle.source := by decide +kernel
  have hedited : Archive.write? (itemsOf (loopBundle.edited "# edited\n"))
      = some (Archive.encode (itemsOf (loopBundle.edited "# edited\n"))) := by
    have hfits : ∀ i ∈ itemsOf (loopBundle.edited "# edited\n"), i.Fits := by decide +kernel
    exact Archive.write?_eq_some_iff.mpr ⟨rfl, Archive.length_encode_lt hfits (by decide), hfits⟩
  obtain ⟨hread, hrefused⟩ := read_write {} hload hsame hwrite
  exact ⟨_, _, _, hload, hsame, hwrite, hread, hdigest, hedited,
    (hrefused "# edited\n" hdigest).2 _ hedited⟩

end Bundle

end Blockwork
