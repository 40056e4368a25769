import Blockwork.Proofs.Source.Nesting
import Blockwork.Source.Convert

/-!
# `Blockwork.Proofs.Source.Assembly`: reading with a stack nests by indentation

The assembly reads the lines once and keeps the blocks that are still open on a stack. Nesting goes
through the lines from the last to the first and needs no stack. Both make the same trees: what a line
does to the assembly is what putting it before the suites of the lines after it does to these suites.
To say so, an assembly is completed by the suites that follow: the innermost open block takes those that
are indented further than itself, is attached, and leaves the others to the next one.

## Contents
- `Statement.opensSuite`, `Statement.definition`, `Statement.block`: a statement inside a given block.
- `Suite.toTrees` and `treesOf`, the trees that nesting makes of statements.
- `Assembly.complete`, and `complete_close`, `complete_attach`, `complete_push`: what closing, attaching
  and opening a block do to it.
- `Assembly.complete_read`, the step, and `Assembly.complete_foldl`, the run.
- `Assembly.roots_ofStatements` and `Assembly.issues_ofStatements`.
-/

namespace Blockwork.Source

/-! ## Statements inside a block -/

/-- Whether the block of a statement may hold other blocks. -/
def Statement.opensSuite (s : Statement) : Bool :=
  s.content.block.val.canOwnChildren

/-- The type of the block of a statement inside a given block. -/
def Statement.definition (parent : Option Block) (s : Statement) : Entry :=
  s.entry (parent.map Block.kind = some .class)

/-- The block of a statement inside a given block. -/
def Statement.block (parent : Option Block) (s : Statement) : Block :=
  (s.freshBlock (parent.map Block.kind = some .class)).setParent (parent.map Block.id)

mutual

/-- The tree of a suite inside a given block. -/
def Suite.toTree (parent : Option Block) : Suite Statement → Tree
  | .node s body =>
    let b := s.block parent
    .node b (Suite.toTrees (some b) body)

/-- The trees of suites inside a given block. -/
def Suite.toTrees (parent : Option Block) : List (Suite Statement) → List Tree
  | [] => []
  | s :: ss => Suite.toTree parent s :: Suite.toTrees parent ss

end

/-- The trees of a list of statements. -/
def treesOf (statements : List Statement) : List Tree :=
  Suite.toTrees none (nest (·.line.indent) Statement.opensSuite statements)

variable {parent : Option Block}

theorem definition_eq (parent : Option Block) (s : Statement) :
    s.definition parent
      = if s.content.block.val.kind = .function ∧ parent.map Block.kind = some .class then
          Catalog.entry "method"
        else s.content.block := by
  rw [Statement.definition, Statement.entry]
  simp only [decide_eq_true_eq]

theorem definition_block (s : Statement) : (s.block parent).definition = s.definition parent := rfl

/-- A block is what its line says, or a method where the line says function. -/
theorem definition_cases (parent : Option Block) (s : Statement) :
    s.definition parent = s.content.block ∨
      s.content.block.val.kind = .function ∧ s.definition parent = Catalog.entry "method" := by
  rw [definition_eq]
  by_cases hmethod : s.content.block.val.kind = .function ∧ parent.map Block.kind = some .class
  · exact Or.inr ⟨hmethod.1, if_pos hmethod⟩
  · exact Or.inl (if_neg hmethod)

theorem canOwnChildren_block (s : Statement) :
    (s.block parent).canOwnChildren = s.opensSuite := by
  rw [Block.canOwnChildren, definition_block, Statement.opensSuite]
  rcases definition_cases parent s with h | ⟨hkind, h⟩
  · rw [h]
  · rw [h, Definition.canOwnChildren, Definition.canOwnChildren, hkind]
    decide

theorem toTrees_cons (s : Statement) (body ss : List (Suite Statement)) :
    Suite.toTrees parent (.node s body :: ss)
      = .node (s.block parent) (Suite.toTrees (some (s.block parent)) body)
        :: Suite.toTrees parent ss := by
  rw [Suite.toTrees, Suite.toTree]

/-- What is inside a block depends on the id and the kind of the block only. -/
theorem toTrees_congr {b c : Block} (hid : b.id = c.id) (hkind : b.kind = c.kind)
    (ss : List (Suite Statement)) : Suite.toTrees (some b) ss = Suite.toTrees (some c) ss := by
  induction ss using Suite.siblingInduction with
  | nil => rw [Suite.toTrees, Suite.toTrees]
  | cons s body ss _ ihSs =>
      have hblock : s.block (some b) = s.block (some c) := by
        simp only [Statement.block, Option.map_some, hid, hkind]
      rw [toTrees_cons, toTrees_cons, hblock, ihSs]

/-! ## Completing an assembly -/

namespace Assembly

/-- The tree with more children, at the end. -/
def extend (t : Tree) (more : List Tree) : Tree :=
  .node t.block (t.children ++ more)

theorem block_addChild (child t : Tree) : (Tree.addChild child t).block = t.block := by
  cases t with
  | node b ts => rfl

theorem extend_addChild (child t : Tree) (more : List Tree) :
    extend (Tree.addChild child t) more = extend t (child :: more) := by
  cases t with
  | node b ts =>
      rw [Tree.addChild, extend, extend, Tree.block_node, Tree.children_node, Tree.block_node,
        Tree.children_node, List.append_assoc, List.singleton_append]

/-- The trees that there are in the end if what follows makes up some suites. Each open block takes the
    suites that are indented further, from the innermost block to the outermost. -/
def complete (a : Assembly) (following : List (Suite Statement)) : List Tree :=
  match _h : a.opened with
  | [] => a.roots ++ Suite.toTrees none following
  | (width, t) :: rest =>
    let inside := following.takeWhile fun s => width < s.item.line.indent
    complete (attach (extend t (Suite.toTrees (some t.block) inside)) { a with opened := rest })
      (following.dropWhile fun s => width < s.item.line.indent)
termination_by a.opened.length
decreasing_by simp only [length_opened_attach, _h, List.length_cons, Nat.lt_add_one]

variable {a : Assembly} {width : Nat} {t : Tree} {rest : List (Nat × Tree)}

theorem complete_of_nil (h : a.opened = []) (following : List (Suite Statement)) :
    a.complete following = a.roots ++ Suite.toTrees none following := by
  obtain ⟨roots, opened, issues⟩ := a
  cases h
  rw [complete]

theorem complete_of_cons (h : a.opened = (width, t) :: rest) (following : List (Suite Statement)) :
    a.complete following
      = complete
          (attach
            (extend t
              (Suite.toTrees (some t.block) (following.takeWhile fun s => width < s.item.line.indent)))
            { a with opened := rest })
          (following.dropWhile fun s => width < s.item.line.indent) := by
  obtain ⟨roots, opened, issues⟩ := a
  cases h
  rw [complete]

theorem attach_of_nil (h : a.opened = []) (child : Tree) :
    a.attach child = { a with roots := a.roots ++ [child.mapRoot (·.setParent none)] } := by
  obtain ⟨roots, opened, issues⟩ := a
  cases h
  rfl

theorem attach_of_cons (h : a.opened = (width, t) :: rest) (child : Tree) :
    a.attach child
      = { a with
          opened := (width, Tree.addChild (child.mapRoot (·.setParent (some t.id))) t) :: rest } := by
  obtain ⟨roots, opened, issues⟩ := a
  cases h
  rfl

theorem close_of_nil (h : a.opened = []) (indent : Nat) : a.close indent = a := by
  obtain ⟨roots, opened, issues⟩ := a
  cases h
  rw [close]

theorem close_of_lt (h : a.opened = (width, t) :: rest) {indent : Nat} (hlt : width < indent) :
    a.close indent = a := by
  obtain ⟨roots, opened, issues⟩ := a
  cases h
  rw [close]
  exact if_pos hlt

theorem close_of_le (h : a.opened = (width, t) :: rest) {indent : Nat} (hle : indent ≤ width) :
    a.close indent = close indent (attach t { a with opened := rest }) := by
  obtain ⟨roots, opened, issues⟩ := a
  cases h
  rw [close]
  exact if_neg (Nat.not_lt.mpr hle)

/-- What is innermost once an indentation has been closed is indented less. -/
theorem lt_of_mem_opened_close (indent : Nat) (a : Assembly) :
    ∀ e ∈ (a.close indent).opened.head?, e.1 < indent := by
  induction a using close.induct indent with
  | case1 a h =>
      rw [close_of_nil h, h]
      simp
  | case2 a width t rest h hlt =>
      rw [close_of_lt h hlt, h]
      simpa using hlt
  | case3 a width t rest h hle ih =>
      rw [close_of_le h (Nat.not_lt.mp hle)]
      exact ih

/-- An open block takes nothing in if what follows begins no further to the right. -/
theorem complete_of_le (h : a.opened = (width, t) :: rest) {following : List (Suite Statement)}
    (hle : ∀ s ∈ following.head?, s.item.line.indent ≤ width) :
    a.complete following = complete (attach t { a with opened := rest }) following := by
  have hnone : following.takeWhile (fun s => width < s.item.line.indent) = [] ∧
      following.dropWhile (fun s => width < s.item.line.indent) = following := by
    cases following with
    | nil => exact ⟨rfl, rfl⟩
    | cons s ss =>
        have hs : ¬width < s.item.line.indent := Nat.not_lt.mpr (hle s rfl)
        exact ⟨List.takeWhile_cons_of_neg (by simpa using hs),
          List.dropWhile_cons_of_neg (by simpa using hs)⟩
  have ht : extend t [] = t := by
    cases t with
    | node b ts => rw [extend, Tree.block_node, Tree.children_node, List.append_nil]
  rw [complete_of_cons h, hnone.1, hnone.2, Suite.toTrees, ht]

/-- **Closing** an indentation leaves what there is in the end as it is, if what follows begins there or
    further to the left. -/
theorem complete_close {indent : Nat} {following : List (Suite Statement)}
    (hfollowing : ∀ s ∈ following.head?, s.item.line.indent ≤ indent) (a : Assembly) :
    (a.close indent).complete following = a.complete following := by
  induction a using close.induct indent with
  | case1 a h => rw [close_of_nil h]
  | case2 a width t rest h hlt => rw [close_of_lt h hlt]
  | case3 a width t rest h hle ih =>
      have hle := Nat.not_lt.mp hle
      rw [close_of_le h hle, ih, complete_of_le h fun s hs => (hfollowing s hs).trans hle]

/-- The block that a line is read in: the innermost one that is open. -/
def innermost? (a : Assembly) : Option Block :=
  a.opened.head?.map fun e => e.2.block

theorem insideClass_eq (a : Assembly) :
    a.insideClass = decide (a.innermost?.map Block.kind = some .class) := by
  rw [insideClass, innermost?]
  cases a.opened with
  | nil => rfl
  | cons e rest => simp [beq_eq_decide]

/-- The tree of a line and its suite before it is attached. -/
def finished (a : Assembly) (s : Statement) (body : List (Suite Statement)) : Tree :=
  .node (s.freshBlock a.insideClass) (Suite.toTrees (some (s.freshBlock a.insideClass)) body)

/-- The tree that is attached is the one that nesting puts there: the test for a class when the line was
    read and the parent that the block gets speak of the same block. -/
theorem mapRoot_finished (a : Assembly) (s : Statement) (body : List (Suite Statement)) :
    (a.finished s body).mapRoot (·.setParent (a.innermost?.map Block.id))
      = Suite.toTree a.innermost? (.node s body) := by
  have hblock : (s.freshBlock a.insideClass).setParent (a.innermost?.map Block.id)
      = s.block a.innermost? := by
    rw [Statement.block, ← insideClass_eq]
  have hbody : Suite.toTrees (some (s.freshBlock a.insideClass)) body
      = Suite.toTrees (some (s.block a.innermost?)) body := by
    rw [← hblock]
    refine toTrees_congr ?_ ?_ body <;> rfl
  rw [finished, Tree.mapRoot, Suite.toTree, hblock, hbody]

/-- **Attaching** a line with its suite does what leaving it among those that follow does, if the line
    is indented further than the innermost open block. -/
theorem complete_attach {s : Statement} (hopen : ∀ e ∈ a.opened.head?, e.1 < s.line.indent)
    (body after : List (Suite Statement)) :
    (a.attach (a.finished s body)).complete after = a.complete (.node s body :: after) := by
  have htree := mapRoot_finished a s body
  generalize a.finished s body = child at htree ⊢
  unfold innermost? at htree
  cases h : a.opened with
  | nil =>
      rw [h, List.head?_nil, Option.map_none, Option.map_none] at htree
      rw [attach_of_nil h, complete_of_nil h, complete_of_nil (a := { a with roots := a.roots ++ [_] }) h,
        htree, Suite.toTrees, List.append_assoc, List.singleton_append]
  | cons e rest =>
      obtain ⟨width, u⟩ := e
      rw [h, List.head?_cons, Option.map_some, Option.map_some] at htree
      have hwidth : width < s.line.indent := hopen (width, u) (by rw [h]; rfl)
      have htake : (Suite.node s body :: after).takeWhile (fun s => width < s.item.line.indent)
          = .node s body :: after.takeWhile (fun s => width < s.item.line.indent) :=
        List.takeWhile_cons_of_pos (decide_eq_true hwidth)
      have hdrop : (Suite.node s body :: after).dropWhile (fun s => width < s.item.line.indent)
          = after.dropWhile (fun s => width < s.item.line.indent) :=
        List.dropWhile_cons_of_pos (decide_eq_true hwidth)
      rw [attach_of_cons h, complete_of_cons rfl, complete_of_cons h, htake, hdrop, Suite.toTrees, ← htree,
        extend_addChild, block_addChild]
      rfl

/-- **Opening** a block leaves the suites that it takes in to be read. -/
theorem complete_push {s : Statement} (hopens : s.opensSuite = true)
    (hopen : ∀ e ∈ a.opened.head?, e.1 < s.line.indent) (following : List (Suite Statement)) :
    (a.push s.line.indent (s.freshBlock a.insideClass)).complete following
      = a.complete (graft (·.line.indent) Statement.opensSuite s following) := by
  rw [push, complete_of_cons rfl, graft, if_pos hopens, ← complete_attach hopen]
  rfl

theorem attach_issues (t : Tree) (a : Assembly) (issues : List Issue) :
    attach t { a with issues } = { a.attach t with issues } := by
  obtain ⟨roots, opened, issues'⟩ := a
  cases opened with
  | nil => rfl
  | cons e rest => rfl

theorem push_issues (indent : Nat) (b : Block) (a : Assembly) (issues : List Issue) :
    push indent b { a with issues } = { a.push indent b with issues } := rfl

/-- The trees do not depend on what is reported. -/
theorem complete_issues (a : Assembly) (following : List (Suite Statement)) (issues : List Issue) :
    complete { a with issues } following = a.complete following := by
  induction a, following using complete.induct with
  | case1 a following h => rw [complete_of_nil h, complete_of_nil (a := { a with issues }) h]
  | case2 a following width t rest h inside ih =>
      rw [complete_of_cons h, ← ih, ← attach_issues]
      exact complete_of_cons (a := { a with issues }) h following

theorem canOwnChildren_freshBlock (s : Statement) (a : Assembly) :
    (s.freshBlock a.insideClass).canOwnChildren = s.opensSuite := by
  have hblock : (s.block a.innermost?).canOwnChildren = s.opensSuite := canOwnChildren_block s
  rw [← hblock, Statement.block, ← insideClass_eq]
  rfl

/-- **One step**: reading a line does to the assembly what putting it before the suites of the lines after
    it does to these. -/
theorem complete_read (a : Assembly) (s : Statement) (following : List (Suite Statement)) :
    (a.read s).complete following
      = a.complete (graft (·.line.indent) Statement.opensSuite s following) := by
  have hfirst : ∀ u ∈ (graft (·.line.indent) Statement.opensSuite s following).head?,
      u.item.line.indent ≤ s.line.indent :=
    fun u hu => Nat.le_of_eq (congrArg (·.line.indent) (item_of_mem_head?_graft hu))
  have hopen := lt_of_mem_opened_close s.line.indent a
  rw [← complete_close hfirst a, read]
  generalize a.close s.line.indent = a at hopen ⊢
  simp only [canOwnChildren_freshBlock]
  by_cases hopens : s.opensSuite = true
  · rw [if_pos hopens, push_issues, complete_issues, complete_push hopens hopen]
  · have hleaf : Tree.node (s.freshBlock a.insideClass) [] = a.finished s [] := by
      rw [finished, Suite.toTrees]
    rw [if_neg hopens, attach_issues, complete_issues, graft, if_neg hopens, ← complete_attach hopen,
      hleaf]

/-- **All steps**: what has been read and what has not make up the same trees wherever the line between
    them is drawn. -/
theorem complete_foldl (statements : List Statement) (a : Assembly) (following : List (Suite Statement)) :
    (statements.foldl read a).complete following
      = a.complete (statements.foldr (graft (·.line.indent) Statement.opensSuite) following) := by
  induction statements generalizing a with
  | nil => rfl
  | cons s statements ih => rw [List.foldl_cons, ih, complete_read, List.foldr_cons]

/-- If nothing follows, what is open is finished. -/
theorem complete_nil (a : Assembly) : a.complete [] = (a.close 0).roots := by
  induction a using close.induct 0 with
  | case1 a h => rw [close_of_nil h, complete_of_nil h, Suite.toTrees, List.append_nil]
  | case2 a width t rest h hlt => exact absurd hlt (Nat.not_lt_zero width)
  | case3 a width t rest h hle ih => rw [close_of_le h (Nat.zero_le width), complete_of_le h (by simp), ih]

/-- **Reading with a stack makes the trees that nesting makes.** -/
theorem roots_ofStatements (statements : List Statement) :
    (ofStatements statements).roots = treesOf statements := by
  rw [ofStatements, ← complete_nil, complete_foldl, complete_of_nil rfl]
  rfl

/-! ## What is reported -/

theorem issues_attach (t : Tree) (a : Assembly) : (a.attach t).issues = a.issues := by
  obtain ⟨roots, opened, issues⟩ := a
  cases opened with
  | nil => rfl
  | cons e rest => rfl

theorem issues_close (indent : Nat) (a : Assembly) : (a.close indent).issues = a.issues := by
  induction a using close.induct indent with
  | case1 a h => rw [close_of_nil h]
  | case2 a width t rest h hlt => rw [close_of_lt h hlt]
  | case3 a width t rest h hle ih => rw [close_of_le h (Nat.not_lt.mp hle), ih, issues_attach]

theorem issues_read (a : Assembly) (s : Statement) :
    (a.read s).issues = a.issues ++ s.issue?.toList := by
  rw [read]
  split
  · rw [push, issues_close]
  · rw [issues_attach, issues_close]

theorem issues_foldl (statements : List Statement) (a : Assembly) :
    (statements.foldl read a).issues = a.issues ++ statements.filterMap Statement.issue? := by
  induction statements generalizing a with
  | nil => rw [List.foldl_nil, List.filterMap_nil, List.append_nil]
  | cons s statements ih =>
      rw [List.foldl_cons, ih, issues_read, List.append_assoc, List.filterMap_cons]
      cases s.issue? <;> rfl

/-- The lines that were not recognised are reported in order. -/
theorem issues_ofStatements (statements : List Statement) :
    (ofStatements statements).issues = statements.filterMap Statement.issue? := by
  rw [ofStatements, issues_close, issues_foldl]
  rfl

end Assembly

end Blockwork.Source
