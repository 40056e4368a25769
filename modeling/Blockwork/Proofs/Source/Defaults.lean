import Blockwork.Proofs.Source.Folding
import Blockwork.Source.Label

/-!
# `Blockwork.Proofs.Source.Defaults`: written defaults are not seen

A default counts in two places. Loading writes it out where a declared parameter has no value, and asking
for a parameter that has no value answers it. Both go by the same rule, the block's own value or else the
declared default, so asking gives the same before and after loading; and all that is shown of a block, its
line and its label, is made of what asking gives. So it does not matter which defaults are written in what
is loaded.

## Contents
- `Block.parameter?_fill`: asking gives the same before and after loading.
- `Block.label_congr_parameter?`: the label, too, depends on what asking gives.
- `Block.Agrees` and `Tree.Agree`: equal but for defaults that are written out.
- `Block.Unseen`, and `Forest.generate_mapAll`: changes that are not seen in the source.
- `Forest.filling_unseen`.
-/

namespace Blockwork

namespace Block

/-! ## The rule -/

/-- Asking gives the same before and after loading. -/
theorem parameter?_fill (b : Block) (name : String) : b.fill.parameter? name = b.parameter? name := by
  rw [parameter?_eq, get?_fill, parameter?_eq, Option.or_assoc]
  congr 1
  exact Option.or_self

/-! ## What is shown -/

section Shown

variable {b c : Block} (hdefinition : b.definition = c.definition)
  (h : ∀ name, b.parameter? name = c.parameter? name)

include hdefinition h

/-- The label of a block depends on its type and on what asking gives, as its line does. -/
theorem label_congr_parameter? : b.label = c.label := by
  have htext : ∀ name, b.parameterText name = c.parameterText name := by
    intro name
    rw [parameterText, parameterText, h]
  rw [label, label, printLabel, printLabel, rangeLabel, rangeLabel,
    Source.line_congr_parameter? hdefinition h]
  simp only [htext, hdefinition]

end Shown

theorem line_fill (b : Block) : b.fill.line = b.line :=
  Source.line_congr_parameter? rfl b.parameter?_fill

theorem label_fill (b : Block) : b.fill.label = b.label :=
  label_congr_parameter? rfl b.parameter?_fill

/-! ## Defaults that are written out -/

/-- Blocks that are equal but for defaults: where one has a value that the other has not, it is the declared
    default. -/
structure Agrees (b c : Block) : Prop where
  id : b.id = c.id
  definition : b.definition = c.definition
  position : b.position = c.position
  collapsed : b.collapsed = c.collapsed
  parent : b.parent = c.parent
  values : ∀ name, b.parameters.get? name = c.parameters.get? name ∨
    (b.parameters.get? name = none ∧ c.parameters.get? name = c.default? name) ∨
    (c.parameters.get? name = none ∧ b.parameters.get? name = b.default? name)

namespace Agrees

variable {b c : Block} (h : b.Agrees c)

include h

theorem default?_eq (name : String) : b.default? name = c.default? name := by
  rw [default?, default?, h.definition]

theorem parameter?_eq (name : String) : b.parameter? name = c.parameter? name := by
  rw [Block.parameter?_eq, Block.parameter?_eq, h.default?_eq]
  rcases h.values name with hsame | ⟨hb, hc⟩ | ⟨hc, hb⟩
  · rw [hsame]
  · rw [hb, hc, Option.none_or, Option.or_self]
  · rw [hb, hc, Option.none_or, h.default?_eq, Option.or_self]

/-- Loading makes them equal. -/
theorem fill_eq : b.fill = c.fill := by
  refine Block.ext h.id h.definition h.position (Settings.eq_of_get?_eq fun name => ?_) h.collapsed h.parent
  rw [get?_fill, get?_fill]
  exact h.parameter?_eq name

end Agrees

theorem agrees_refl (b : Block) : b.Agrees b :=
  ⟨rfl, rfl, rfl, rfl, rfl, fun _ => Or.inl rfl⟩

/-- Writing out a default makes no difference. -/
theorem agrees_insert {b : Block} {name : String} {v : Value} (hmissing : b.parameters.get? name = none)
    (hdefault : b.default? name = some v) :
    b.Agrees { b with parameters := b.parameters.insert name v } where
  id := rfl
  definition := rfl
  position := rfl
  collapsed := rfl
  parent := rfl
  values other := by
    rw [Settings.get?_insert]
    by_cases hname : name = other
    · subst hname
      exact Or.inr (Or.inl ⟨hmissing, by rw [if_pos rfl]; exact hdefault.symm⟩)
    · exact Or.inl (if_neg hname).symm

end Block

namespace Tree

/-- Siblings with the same shape whose blocks are equal but for defaults. -/
inductive Agree : List Tree → List Tree → Prop where
  | nil : Agree [] []
  | cons {b c : Block} {us us' ts ts' : List Tree} (root : b.Agrees c) (below : Agree us us')
      (after : Agree ts ts') : Agree (node b us :: ts) (node c us' :: ts')

theorem Agree.mapAll_fill_eq {ts us : List Tree} (h : Agree ts us) :
    mapAll Block.fill ts = mapAll Block.fill us := by
  induction h with
  | nil => rfl
  | cons root _ _ ihBelow ihAfter => rw [mapAll, map, mapAll, map, root.fill_eq, ihBelow, ihAfter]

end Tree

/-! ## Changes that are not seen -/

/-- A change of blocks that keeps all that counts for the source. -/
structure Block.Unseen (u : Block → Block) : Prop where
  definition : ∀ b, (u b).definition = b.definition
  position : ∀ b, (u b).position = b.position
  collapsed : ∀ b, (u b).collapsed = b.collapsed
  parent : ∀ b, (u b).parent = b.parent
  line : ∀ b, (u b).line = b.line

theorem Block.fill_unseen : Unseen fill where
  definition _ := rfl
  position _ := rfl
  collapsed _ := rfl
  parent _ := rfl
  line := line_fill

section Unseen

variable {u : Block → Block} (hu : Block.Unseen u)

include hu

/-- What is written for a changed tree are the changed blocks. -/
theorem Tree.emit_map (threshold : Binary64) (depth : Nat) (t : Tree) :
    (map u t).emit threshold depth = (t.emit threshold depth).map fun e => (e.1, u e.2) := by
  induction t using childrenInduction generalizing depth with
  | node b ts ih =>
      rw [map, emit_node, emit_node, hu.collapsed, List.map_cons, inOrder_mapAll hu.position,
        List.flatMap_map]
      by_cases hcollapsed : b.collapsed = true
      · rw [if_pos hcollapsed, if_pos hcollapsed, List.map_nil]
      · rw [if_neg hcollapsed, if_neg hcollapsed, List.map_flatMap]
        congr 1
        refine List.flatMap_congr fun t ht => ?_
        exact ih t ((inOrder_perm threshold ts).mem_iff.mp ht) (depth + 1)

namespace Forest

/-- The roots of each group are the same trees, changed, in the same order. -/
theorem bucketRoots_mapAll (threshold : Binary64) (roots : List Tree) (s s' : UInt64) (k : Bucket) :
    bucketRoots threshold ⟨Tree.mapAll u roots, s⟩ k
      = (bucketRoots threshold ⟨roots, s'⟩ k).map (Tree.map u) := by
  have hblock : ∀ t : Tree, (t.map u).block = u t.block := by
    intro t
    cases t with
    | node b ts => rfl
  rw [bucketRoots, topLevel, Tree.mapAll_eq_map, List.filter_map, List.filter_map,
    Source.sortByPosition_map]
  simp only [Function.comp_def, hblock, hu.position, hu.parent, Block.kind, hu.definition]
  rfl

/-- **A change that keeps all that counts for the source is not seen in it.** -/
theorem generate_mapAll (options : Options) (roots : List Tree) (s s' : UInt64) :
    generate options ⟨Tree.mapAll u roots, s⟩ = generate options ⟨roots, s'⟩ := by
  refine generate_congr fun k => ?_
  rw [bucketEmitted, bucketEmitted, bucketRoots_mapAll hu options.rowThreshold roots s s', List.flatMap_map,
    List.map_flatMap, List.map_flatMap]
  refine List.flatMap_congr fun t _ => ?_
  rw [Tree.emit_map hu, List.map_map]
  refine List.map_congr_left fun e _ => ?_
  rw [Function.comp_apply, Source.shown, Source.shown, hu.line]

end Forest

end Unseen

namespace Forest

/-! ## Loading -/

/-- Loading what was loaded changes nothing. -/
theorem ofTrees_ofTrees (roots : List Tree) : ofTrees (ofTrees roots).roots = ofTrees roots := by
  have hfill : Tree.mapAll Block.fill (Tree.mapAll Block.fill roots) = Tree.mapAll Block.fill roots :=
    roots_ofTrees (ofTrees_filled roots)
  show ofTrees (Tree.mapAll Block.fill roots) = ofTrees roots
  rw [ofTrees, hfill, ofTrees]

/-- Loading does not tell trees apart that are equal but for defaults. -/
theorem ofTrees_eq_of_agree {roots roots' : List Tree} (h : Tree.Agree roots roots') :
    ofTrees roots = ofTrees roots' := by
  rw [ofTrees, h.mapAll_fill_eq, ofTrees]

/-- **Filling in defaults is not seen**, and once is enough. Loading fills every block where it stands and
    changes nothing else: a name has the value it had, or else the default that is declared for it. Loading
    again changes nothing. Asking a block for any parameter gives what it gave before, so its line and its
    label are the same, and so is the source of the whole. And if two inputs differ only in defaults that
    are written out in one of them, all this is the same for both, and loading makes one forest of them. -/
theorem filling_unseen :
    (∀ roots : List Tree,
      (ofTrees roots).preorder = (Tree.preorderAll 0 roots).map fun e => (e.1, e.2.fill)) ∧
    (∀ (b : Block) (name : String),
      b.fill = { b with parameters := b.fill.parameters } ∧
      b.fill.parameters.get? name = (b.parameters.get? name).or (b.default? name)) ∧
    (∀ roots : List Tree, ofTrees (ofTrees roots).roots = ofTrees roots) ∧
    (∀ (b : Block) (name : String), b.fill.parameter? name = b.parameter? name) ∧
    (∀ b : Block, b.fill.line = b.line ∧ b.fill.label = b.label) ∧
    (∀ (roots : List Tree) (serial : UInt64) (options : Options),
      (ofTrees roots).generate options = generate options ⟨roots, serial⟩) ∧
    (∀ b c : Block, b.Agrees c →
      (∀ name, b.parameter? name = c.parameter? name) ∧ b.line = c.line ∧ b.label = c.label) ∧
    (∀ roots roots' : List Tree, Tree.Agree roots roots' →
      ofTrees roots = ofTrees roots' ∧
      ∀ (serial serial' : UInt64) (options : Options),
        generate options ⟨roots, serial⟩ = generate options ⟨roots', serial'⟩) := by
  have hsource : ∀ (roots : List Tree) (serial : UInt64) (options : Options),
      (ofTrees roots).generate options = generate options ⟨roots, serial⟩ :=
    fun roots serial options => generate_mapAll Block.fill_unseen options roots _ serial
  refine ⟨fun roots => Tree.preorderAll_mapAll Block.fill 0 roots, fun b name => ⟨rfl, b.get?_fill name⟩,
    ofTrees_ofTrees, Block.parameter?_fill, fun b => ⟨b.line_fill, b.label_fill⟩, hsource, fun b c h => ?_,
    fun roots roots' h => ?_⟩
  · exact ⟨h.parameter?_eq, Source.line_congr_parameter? h.definition h.parameter?_eq,
      Block.label_congr_parameter? h.definition h.parameter?_eq⟩
  · have hloaded := ofTrees_eq_of_agree h
    refine ⟨hloaded, fun serial serial' options => ?_⟩
    rw [← hsource roots serial, hloaded, hsource roots' serial']

theorem isSome_lookup_class : (Catalog.lookup "class").isSome = true := by
  decide

theorem isSome_lookup_print : (Catalog.lookup "print").isSome = true := by
  decide

/-- A class with one of its two values. -/
def bareClass : Block where
  id := "class-1"
  definition := Catalog.entry "class" isSome_lookup_class
  position := .origin
  parameters := .ofList [("parent", .text "Base")]
  collapsed := false
  parent := none

/-- The class with the other value, the default, written out. -/
def spelledClass : Block :=
  { bareClass with parameters := bareClass.parameters.insert "name" (.text "MyClass") }

/-- A statement in the class, without its value but with one that is not declared. -/
def colouredPrint : Block where
  id := "print-2"
  definition := Catalog.entry "print" isSome_lookup_print
  position := .origin
  parameters := .ofList [("colour", .text "red")]
  collapsed := false
  parent := some "class-1"

/-- Both ways of writing the class load the same; the value that is not declared stays. -/
theorem filling_unseen_spelledClass :
    Tree.Agree [.node bareClass [.node colouredPrint []]] [.node spelledClass [.node colouredPrint []]] ∧
    ofTrees [.node bareClass [.node colouredPrint []]]
      = ofTrees [.node spelledClass [.node colouredPrint []]] ∧
    bareClass.Agrees spelledClass ∧ bareClass.label = spelledClass.label ∧
    (ofTrees [.node bareClass [.node colouredPrint []]]).generate {}
      = generate {} ⟨[.node bareClass [.node colouredPrint []]], 1⟩ ∧
    (ofTrees [.node bareClass [.node colouredPrint []]]).generate {}
      = "class MyClass(Base):\n    print(\"Hello, World!\")\n" ∧
    ((ofTrees [.node bareClass [.node colouredPrint []]]).walk.map fun e => e.2.parameters.entries)
      = [[("name", .text "MyClass"), ("parent", .text "Base")],
        [("colour", .text "red"), ("message", .text "Hello, World!")]] := by
  have hclass : bareClass.Agrees spelledClass := Block.agrees_insert (by decide) (by decide)
  have hagree : Tree.Agree [.node bareClass [.node colouredPrint []]]
      [.node spelledClass [.node colouredPrint []]] :=
    .cons hclass (.cons colouredPrint.agrees_refl .nil .nil) .nil
  obtain ⟨-, -, -, -, -, hsource, hshown, hloaded⟩ := filling_unseen
  refine ⟨hagree, (hloaded _ _ hagree).1, hclass, (hshown _ _ hclass).2.2, hsource _ 1 {}, by decide +kernel,
    ?_⟩
  rw [walk_eq_preorder]
  decide +kernel

end Forest

end Blockwork
