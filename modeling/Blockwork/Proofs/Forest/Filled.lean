import Blockwork.Edit.Operations
import Blockwork.Proofs.Forest.Serial
import Blockwork.Proofs.Forest.Walk

/-!
# `Blockwork.Proofs.Forest.Filled`: declared parameters have values

Loading writes out the default of every declared parameter that has no value, and every parameter of
the library has a default. So after loading each block has a value for each parameter that its
definition declares, and since values are only ever added, that stays so.

## Contents
- `Settings.contains_insert`, `Settings.contains_override`: setting values takes none away.
- `Catalog.default_isSome`: every parameter of the library has a default.
- `Block.default?`, and `Block.get?_fill`: which value a name has in a filled block.
- `Block.Filled`, with `Block.fill_filled`, `Block.Filled.fill_eq` and `Block.Filled.patch`.
- `Forest.Filled`, with `Forest.ofTrees_filled`, `Forest.ids_ofTrees` and `Forest.roots_ofTrees`;
  `Forest.ofTrees_nextSerial_ne_zero`.
-/

namespace Blockwork

/-! ## Setting values -/

namespace Settings

theorem contains_insert (s : Settings) (name other : String) (value : Value) :
    (s.insert name value).contains other = (decide (name = other) || s.contains other) := by
  rw [contains, get?_insert]
  by_cases h : name = other
  · simp [h]
  · simp [h, contains]

theorem contains_override (s : Settings) (entries : List (String × Value)) (name : String) :
    (s.override entries).contains name = (s.contains name || entries.any (·.1 = name)) := by
  unfold override
  induction entries generalizing s with
  | nil => simp
  | cons e entries ih =>
      rw [List.foldl_cons, ih, contains_insert, List.any_cons]
      cases decide (e.1 = name) <;> cases s.contains name <;> rfl

end Settings

/-! ## Blocks -/

/-- Every parameter of the library has a default. -/
theorem Catalog.default_isSome :
    ∀ d ∈ Catalog.builtin, ∀ p ∈ d.parameters, p.default.isSome = true := by
  decide

/-- A parameter of a definition is found under its name. -/
theorem Definition.exists_parameter?_of_mem {d : Definition} {p : Parameter} (hp : p ∈ d.parameters) :
    ∃ q ∈ d.parameters, d.parameter? p.name = some q ∧ q.name = p.name := by
  have hdeclared : (d.parameter? p.name).isSome = true :=
    List.find?_isSome.mpr ⟨p, hp, beq_self_eq_true p.name⟩
  obtain ⟨q, hq⟩ := Option.isSome_iff_exists.mp hdeclared
  exact ⟨q, List.mem_of_find?_eq_some hq, hq, by simpa using List.find?_some hq⟩

namespace Block

/-- The declared default of a parameter. -/
def default? (b : Block) (name : String) : Option Value :=
  (b.definition.val.parameter? name).bind (·.defaultValue)

theorem parameter?_eq (b : Block) (name : String) :
    b.parameter? name = (b.parameters.get? name).or (b.default? name) := rfl

/-- Every declared parameter has a default. -/
theorem isSome_default? {b : Block} {p : Parameter} (hp : p ∈ b.definition.val.parameters) :
    (b.default? p.name).isSome = true := by
  obtain ⟨q, hmem, hq, -⟩ := Definition.exists_parameter?_of_mem hp
  have hdefault := Catalog.default_isSome _ b.definition.property q hmem
  rw [default?, hq, Option.bind_some, Parameter.defaultValue, Option.isSome_map, hdefault]

/-- One parameter's default is added if it has no value. -/
theorem get?_fillParameter (values : Settings) (p : Parameter) (name : String) :
    (fillParameter values p).get? name
      = (values.get? name).or (if p.name = name then p.defaultValue else none) := by
  unfold fillParameter
  by_cases hname : p.name = name
  · subst hname
    cases hvalue : values.get? p.name with
    | some v => simp [Settings.contains, hvalue]
    | none => cases p.defaultValue <;> simp [Settings.contains, hvalue]
  · rw [if_neg hname, Option.or_none]
    split
    · rfl
    · cases p.defaultValue with
      | none => rfl
      | some v => rw [Settings.get?_insert, if_neg hname]

/-- Filling adds for each name the default of the first parameter that is called so. -/
theorem get?_foldl_fillParameter {ps : List Parameter} (hps : ∀ p ∈ ps, p.default.isSome = true)
    (values : Settings) (name : String) :
    (ps.foldl fillParameter values).get? name
      = (values.get? name).or ((ps.find? (·.name == name)).bind (·.defaultValue)) := by
  induction ps generalizing values with
  | nil => simp
  | cons p ps ih =>
      obtain ⟨hp, hps⟩ := List.forall_mem_cons.mp hps
      rw [List.foldl_cons, ih hps, get?_fillParameter, Option.or_assoc, List.find?_cons]
      by_cases hname : p.name = name
      · -- A default that is there is added, and later parameters with the name find it.
        obtain ⟨raw, hraw⟩ := Option.isSome_iff_exists.mp hp
        simp [hname, Parameter.defaultValue, hraw]
      · have hother : (p.name == name) = false := beq_eq_false_iff_ne.mpr hname
        rw [if_neg hname, Option.none_or, hother]

/-- **A filled block has for each name its own value or else the declared default.** -/
theorem get?_fill (b : Block) (name : String) :
    b.fill.parameters.get? name = (b.parameters.get? name).or (b.default? name) :=
  get?_foldl_fillParameter (Catalog.default_isSome _ b.definition.property) b.parameters name

/-- Every parameter that the block's definition declares has a value. -/
def Filled (b : Block) : Prop :=
  ∀ p ∈ b.definition.val.parameters, b.parameters.contains p.name = true

/-- **Filling gives every declared parameter a value.** -/
theorem fill_filled (b : Block) : b.fill.Filled := by
  intro p hp
  have hdefault : (b.default? p.name).isSome = true := isSome_default? hp
  rw [Settings.contains, get?_fill, Option.isSome_or, hdefault, Bool.or_true]

/-- A block that has all its values stays as it is. -/
theorem Filled.fill_eq {b : Block} (h : b.Filled) : b.fill = b := by
  have hvalues : ∀ ps : List Parameter, (∀ p ∈ ps, b.parameters.contains p.name = true) →
      ps.foldl fillParameter b.parameters = b.parameters := by
    intro ps hps
    induction ps with
    | nil => rfl
    | cons p ps ih =>
        rw [List.forall_mem_cons] at hps
        rw [List.foldl_cons, fillParameter, if_pos hps.1]
        exact ih hps.2
  unfold fill
  rw [hvalues _ h]

theorem Filled.patch {b : Block} (h : b.Filled) (p : Patch) : (b.patch p).Filled := by
  intro q hq
  show (b.parameters.override _).contains q.name = true
  rw [Settings.contains_override, h q hq, Bool.true_or]

end Block

/-! ## Forests -/

theorem Tree.blocksAll_mapAll (f : Block → Block) (ts : List Tree) :
    blocksAll (mapAll f ts) = (blocksAll ts).map f := by
  induction ts using siblingInduction with
  | nil => rfl
  | cons b us ts ihUs ihTs =>
      rw [mapAll, map, blocksAll_cons, blocksAll_cons, ihUs, ihTs, List.map_cons, List.map_append]

theorem Tree.mapAll_eq_self {f : Block → Block} {ts : List Tree} (h : ∀ b ∈ blocksAll ts, f b = b) :
    mapAll f ts = ts := by
  induction ts using siblingInduction with
  | nil => rfl
  | cons b us ts ihUs ihTs =>
      rw [blocksAll_cons, List.forall_mem_cons, List.forall_mem_append] at h
      rw [mapAll, map, h.1, ihUs h.2.1, ihTs h.2.2]

namespace Forest

/-- Every block has a value for every parameter that its definition declares. -/
def Filled (f : Forest) : Prop :=
  ∀ b ∈ f.blocks, b.Filled

theorem blocks_ofTrees (roots : List Tree) :
    (ofTrees roots).blocks = (Tree.blocksAll roots).map Block.fill :=
  Tree.blocksAll_mapAll Block.fill roots

/-- Loading changes no id. -/
theorem ids_ofTrees (roots : List Tree) : (ofTrees roots).ids = Tree.idsAll roots := by
  have hblocks := congrArg (List.map Block.id) (blocks_ofTrees roots)
  rwa [List.map_map, show Block.id ∘ Block.fill = Block.id from rfl, Tree.map_id_blocksAll, blocks,
    Tree.map_id_blocksAll] at hblocks

/-- Loading leaves trees as they are if all values are there. -/
theorem roots_ofTrees {roots : List Tree} (h : ∀ b ∈ Tree.blocksAll roots, b.Filled) :
    (ofTrees roots).roots = roots :=
  Tree.mapAll_eq_self fun b hb => (h b hb).fill_eq

theorem empty_filled : empty.Filled := by
  intro b hb
  exact absurd hb (by simp [blocks, empty])

/-- **A loaded forest has values for all declared parameters.** -/
theorem ofTrees_filled (roots : List Tree) : (ofTrees roots).Filled := by
  intro b hb
  rw [blocks_ofTrees] at hb
  obtain ⟨c, -, rfl⟩ := List.mem_map.mp hb
  exact c.fill_filled

/-- The counter of a loaded forest stands at one or later. -/
theorem ofTrees_nextSerial_ne_zero (roots : List Tree) : (ofTrees roots).nextSerial ≠ 0 := by
  unfold ofTrees
  by_cases h : largestSerial (Tree.mapAll Block.fill roots) = Serial.largest
  · simp only [h]
    decide
  · have hnext := @Serial.nextSerial_ne_zero (largestSerial (Tree.mapAll Block.fill roots))
    rw [Serial.nextSerial, if_neg h] at hnext
    simpa only [if_neg h] using hnext

end Forest

end Blockwork
