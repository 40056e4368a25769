import Blockwork.Bundle
import Blockwork.Proofs.Project.SaveAndLoad
import Blockwork.Proofs.Source.Conversion
import Blockwork.Proofs.Workspace.Reachable

/-!
# `Blockwork.Proofs.Project.Opened`: every project that is opened is in order

A project comes from a text, from a bundle or from source. Whichever it is, its forest was put together
from trees in one piece, with the defaults filled in, and has passed the check. So a workspace takes it
over, commands keep it in order, and what they make of it generates the same source after it was saved
and loaded again.

## Contents
- `Saved.decodeMembers_keeps` and `Saved.map_bind_congr`: invariants of decoding in steps.
- `Project.Opened`, with `opened_of_parse`, `opened_of_read` and `opened_ofSource`.
- `Project.map_forest_parse` and `map_forest_read`: the moment of loading is not in the forest.
- `Project.Opened.kept`: a workspace takes the forest over.
- `Project.generate_of_parse_toText`: the source of a saved project.
-/

namespace Blockwork

open Saved

/-! ## Decoding in steps -/

/-- What is kept by every field is kept by a whole record. -/
theorem Saved.decodeMembers_keeps {σ : Type} {field : σ → String → Json → Decode σ} {P : σ → Prop}
    (hfield : ∀ {s name j t}, field s name j = .ok t → P s → P t)
    {members : List (Option String × Json)} {s t : σ} (h : decodeMembers field s members = .ok t)
    (hs : P s) : P t := by
  induction members generalizing s with
  | nil =>
      cases h
      exact hs
  | cons m members ih =>
      obtain ⟨name?, j⟩ := m
      cases name? with
      | none => cases h
      | some name =>
          rw [decodeMembers, bind_eq_ok] at h
          obtain ⟨r, hr, hrest⟩ := h
          exact ih hrest (hfield hr hs)

/-- Two computations go on alike as long as what differs between them makes no difference. -/
theorem Saved.map_bind_congr {ε α β κ γ : Type} {x y : Except ε α} {key : α → κ}
    {f g : α → Except ε β} {result : β → γ} (hxy : x.map key = y.map key)
    (hfg : ∀ a b, key a = key b → (f a).map result = (g b).map result) :
    (x >>= f).map result = (y >>= g).map result := by
  cases x with
  | error e =>
      cases y with
      | error e' =>
          cases hxy
          rfl
      | ok b => cases hxy
  | ok a =>
      cases y with
      | error e' => cases hxy
      | ok b => exact hfg a b (Except.ok.inj hxy)

theorem Saved.map_bind_congr_right {ε α β γ : Type} (x : Except ε α) {f g : α → Except ε β}
    {result : β → γ} (hfg : ∀ a, (f a).map result = (g a).map result) :
    (x >>= f).map result = (x >>= g).map result := by
  cases x with
  | error e => rfl
  | ok a => exact hfg a

theorem Saved.map_mapError {ε δ α κ : Type} (x : Except ε α) (f : ε → δ) (key : α → κ) :
    (x.mapError f).map key = (x.map key).mapError f := by
  cases x <;> rfl

theorem Json.refuse_ne_ok {α : Type} (j : Json) (expected : String) (a : α) :
    j.refuse expected ≠ .ok a := by
  unfold refuse
  split <;> exact nofun

namespace Project

variable {now : Timestamp} {p : Project}

/-! ## From texts -/

/-- The forest was put together from trees, and it has passed the check. -/
structure Opened (p : Project) : Prop where
  fromTrees : ∃ roots, p.forest = .ofTrees roots
  valid : p.forest.Valid

theorem fromTrees_of_decode {j : Json} {f : Forest} (h : Forest.decode j = .ok f) :
    ∃ roots, f = .ofTrees roots := by
  rw [Forest.decode, map_eq_ok] at h
  obtain ⟨roots, -, rfl⟩ := h
  exact ⟨roots, rfl⟩

/-- The forest of a draft, if there is one yet, was put together from trees. -/
theorem Draft.fromTrees_of_field {draft next : Draft} {name : String} {j : Json}
    (h : draft.field name j = .ok next) (hdraft : ∀ f ∈ draft.forest, ∃ roots, f = .ofTrees roots) :
    ∀ f ∈ next.forest, ∃ roots, f = .ofTrees roots := by
  unfold field at h
  split at h
  case h_3 =>
    obtain ⟨f, hf, rfl⟩ := map_eq_ok.mp h
    rintro g ⟨⟩
    exact fromTrees_of_decode hf
  case h_6 =>
    cases h
    exact hdraft
  all_goals
    obtain ⟨_, -, rfl⟩ := map_eq_ok.mp h
    exact hdraft

theorem exists_trees_of_decode {j : Json} (h : decode now j = .ok p) :
    ∃ roots, p.forest = .ofTrees roots := by
  unfold decode at h
  split at h
  · obtain ⟨f, hf, rfl⟩ := map_eq_ok.mp h
    exact fromTrees_of_decode hf
  · rename_i hnoArray
    cases j with
    | array items => exact absurd rfl (hnoArray items)
    | object members =>
        rw [decodeRecord, bind_eq_ok] at h
        obtain ⟨draft, hdraft, hfinish⟩ := h
        have hforest := decodeMembers_keeps
          (P := fun draft : Draft => ∀ f ∈ draft.forest, ∃ roots, f = .ofTrees roots)
          Draft.fromTrees_of_field hdraft (fun f hf => absurd hf (Option.not_mem_none f))
        obtain ⟨name, -, hfinish⟩ := bind_eq_ok.mp hfinish
        obtain ⟨forest, hrequired, hfinish⟩ := bind_eq_ok.mp hfinish
        cases hfinish
        refine hforest forest ?_
        cases hknown : draft.forest with
        | none =>
            rw [hknown] at hrequired
            cases hrequired
        | some f =>
            rw [hknown] at hrequired
            cases hrequired
            rfl
    | number n => exact absurd h (Json.refuse_ne_ok (.number n) _ p)
    | _ => cases h

/-- **A project that is loaded from a text is in order.** -/
theorem opened_of_parse {text : String} (h : parse now text = .ok p) : p.Opened := by
  simp only [parse, bind_eq_ok, mapError_eq_ok] at h
  obtain ⟨q, hq, u, hvalid, hp⟩ := h
  cases hp
  obtain ⟨j, -, hdecode⟩ := bind_eq_ok.mp hq
  exact ⟨exists_trees_of_decode hdecode, hvalid⟩

/-! ## From bundles and from source -/

/-- **So is a project that is read from a bundle.** -/
theorem opened_of_read {bytes : List UInt8} {b : Bundle} (h : Bundle.read now bytes = .ok b) :
    b.project.Opened := by
  unfold Bundle.read at h
  split at h
  · simp only [Bundle.ofArchive, bind_eq_ok, mapError_eq_ok] at h
    obtain ⟨_, -, _, -, _, -, _, -, q, hq, _, -, h⟩ := h
    split at h
    · cases h
      exact opened_of_parse hq
    · cases h
  · cases h

/-- **So is a project that is made from source.** -/
theorem opened_ofSource (now : Timestamp) (name description source : String) :
    (create now name description (Conversion.ofSource source).forest).Opened :=
  ⟨⟨_, rfl⟩, Forest.valid_iff_sound.mpr (Source.sound_ofSource source)⟩

/-! ## The moment of loading -/

/-- What is known of a draft apart from its moments. -/
def Draft.timeless (draft : Draft) : Option String × Option Forest :=
  (draft.name, draft.forest)

theorem Draft.map_timeless_field {draft other : Draft} (h : draft.timeless = other.timeless)
    (name : String) (j : Json) :
    (draft.field name j).map timeless = (other.field name j).map timeless := by
  obtain ⟨hname, hforest⟩ := Prod.mk.inj h
  -- One case for each field that is known, and one for all others.
  unfold field
  split
  · cases decodeText j with
    | error e => rfl
    | ok s => exact congrArg Except.ok (Prod.ext rfl hforest)
  · cases decodeText j with
    | error e => rfl
    | ok s => exact congrArg Except.ok h
  · cases Forest.decode j with
    | error e => rfl
    | ok f => exact congrArg Except.ok (Prod.ext hname rfl)
  · cases decodeTimestamp j with
    | error e => rfl
    | ok t => exact congrArg Except.ok h
  · cases decodeTimestamp j with
    | error e => rfl
    | ok t => exact congrArg Except.ok h
  · exact congrArg Except.ok h

/-- Whatever moments a draft begins with, the same fields are taken from a record. -/
theorem Draft.map_timeless_decodeMembers {members : List (Option String × Json)} {draft other : Draft}
    (h : draft.timeless = other.timeless) :
    (decodeMembers field draft members).map timeless
      = (decodeMembers field other members).map timeless := by
  induction members generalizing draft other with
  | nil => exact congrArg Except.ok h
  | cons m members ih =>
      obtain ⟨name?, j⟩ := m
      cases name? with
      | none => rfl
      | some name =>
          exact map_bind_congr (map_timeless_field h name j) fun _ _ hnext => ih hnext

theorem Draft.map_forest_finish {draft other : Draft} (h : draft.timeless = other.timeless)
    (missing : String → Mismatch) :
    (draft.finish missing).map Project.forest = (other.finish missing).map Project.forest := by
  obtain ⟨hname, hforest⟩ := Prod.mk.inj h
  unfold finish
  rw [hname, hforest]
  cases other.name with
  | none => rfl
  | some name => cases other.forest <;> rfl

theorem map_forest_decode (now later : Timestamp) (j : Json) :
    (decode now j).map Project.forest = (decode later j).map Project.forest := by
  cases j with
  | array items =>
      show ((Forest.decode (.array items)).map _).map _ = ((Forest.decode (.array items)).map _).map _
      cases Forest.decode (.array items) <;> rfl
  | object members =>
      exact map_bind_congr (Draft.map_timeless_decodeMembers rfl) fun _ _ hdraft =>
        Draft.map_forest_finish hdraft _
  | number n =>
      show (Json.refuse (.number n) _ : Decode Project).map _ = (Json.refuse (.number n) _).map _
      rfl
  | _ => rfl

/-- **The forest of a text does not depend on when it is loaded.** -/
theorem map_forest_parse (now later : Timestamp) (text : String) :
    (parse now text).map forest = (parse later text).map forest := by
  have hdecode : ((ofWholeText text).bind (decode now)).map forest
      = ((ofWholeText text).bind (decode later)).map forest :=
    map_bind_congr_right _ (map_forest_decode now later)
  have hloaded : (((ofWholeText text).bind (decode now)).mapError LoadError.decode).map forest
      = (((ofWholeText text).bind (decode later)).mapError LoadError.decode).map forest := by
    rw [map_mapError, hdecode, map_mapError]
  refine map_bind_congr hloaded fun p q hforest => ?_
  rw [hforest]
  exact map_bind_congr_right _ fun _ => congrArg Except.ok hforest

/-- Nor does the forest of a bundle. -/
theorem map_forest_read (now later : Timestamp) (bytes : List UInt8) :
    (Bundle.read now bytes).map (·.project.forest)
      = (Bundle.read later bytes).map (·.project.forest) := by
  unfold Bundle.read
  split
  · unfold Bundle.ofArchive
    refine map_bind_congr_right _ fun text => map_bind_congr_right _ fun manifest =>
      map_bind_congr_right _ fun _ => map_bind_congr_right _ fun saved => ?_
    have hloaded : ((parse now saved).mapError Bundle.ReadError.project).map forest
        = ((parse later saved).mapError Bundle.ReadError.project).map forest := by
      rw [map_mapError, map_forest_parse now later, map_mapError]
    refine map_bind_congr hloaded fun p q hforest => map_bind_congr_right _ fun source => ?_
    split
    · exact congrArg Except.ok hforest
    · rfl
  · rfl

/-! ## Opened projects in workspaces -/

/-- A workspace takes the forest over. -/
theorem Opened.ofForest (hp : p.Opened) : Workspace.ofForest p.forest = .ok ⟨p.forest⟩ := by
  have hvalid : p.forest.validate = .ok () := hp.valid
  rw [Workspace.ofForest, hvalid]
  rfl

/-- What the workspace then keeps holds at the start. -/
theorem Opened.kept (hp : p.Opened) : Workspace.Kept ⟨p.forest⟩ := by
  obtain ⟨roots, hroots⟩ := hp.fromTrees
  exact .ofForest (hroots ▸ .ofTrees roots) hp.ofForest

/-! ## Opening what was saved -/

/-- The source is made from the trees alone. -/
theorem generate_of_roots_eq {f g : Forest} (h : f.roots = g.roots) (options : Options) :
    f.generate options = g.generate options := by
  obtain ⟨roots, _⟩ := f
  cases h
  rfl

/-- **A saved project is opened again with the same source.** Its blocks are in order and not nested
    too deep, and the digits of its numbers are read back. -/
theorem generate_of_parse_toText (hkept : Workspace.Kept ⟨p.forest⟩)
    (hheight : Tree.heightAll p.forest.roots ≤ 62) (hback : ∀ x ∈ p.forest.numbers, x.ReadsBack)
    (options : Options) :
    ∃ q, parse now p.toText = .ok q ∧ q.forest.generate options = p.forest.generate options := by
  have hfinite : ∀ x ∈ p.forest.numbers, x.isFinite = true := fun x hx => isFinite_of_readsBack (hback x hx)
  have hvalid : p.reloaded.forest.Valid :=
    valid_reloaded (Forest.valid_iff_sound.mpr hkept.sound) hkept.filled
  refine ⟨p.reloaded, ?_, generate_of_roots_eq (roots_reloaded hkept.filled) options⟩
  exact (parse_toText_iff (fun x hx _ => hback x hx) now).mpr ⟨hfinite, hheight, hvalid, rfl⟩

end Project

end Blockwork
