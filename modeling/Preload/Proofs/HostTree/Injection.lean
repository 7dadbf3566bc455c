import Preload.HostTree
import Preload.Proofs.Injector.Transform
import Preload.Proofs.Run.Ledger

/-!
# Injection into host trees

A host reads the code for the support module with a parser of its own. All that is asked of it is
that it reads a literal as the text that the literal denotes (`HostTree.Reader.Faithful`). Then
whatever it accepts is the item that the guard against a second injection looks for, so the writer
of the code, the reader and the guard agree on every specifier.

Main statements:
* `HostTree.opensWith_iff`: what the guard looks for;
* `HostTree.supportItem_eq`: what the code for a module is read as;
* `Injector.injectTreeInPlace_cases`: what comes of a tree once the module is in place;
* `Injector.tree_of_transformTreeInPlace`: a transformation that injects nothing leaves the tree
  alone;
* `Injector.transformTree_outcome`: what comes of a transformation, and of a second one.
-/

namespace Preload

/-! ## Literals -/

/-- What the body of a literal denotes in which only quotes and backslashes are escaped. -/
inductive Quoted.Denotes : List Char → List Char → Prop where
  | nil : Denotes [] []
  | plain {c : Char} {body value : List Char} :
    c ≠ '\'' → c ≠ '\\' → Denotes body value → Denotes (c :: body) (c :: value)
  | escaped {c : Char} {body value : List Char} :
    c = '\'' ∨ c = '\\' → Denotes body value → Denotes ('\\' :: c :: body) (c :: value)

/-- A text has one such literal. -/
theorem Quoted.denotes_iff {body value : List Char} : Denotes body value ↔ body = escape value := by
  constructor
  · intro h
    -- character by character: one that is special has a backslash in front, in both
    induction h with
    | nil => rfl
    | plain hquote hslash _ ih =>
      rw [escape_cons_of_plain (not_or.2 ⟨hslash, hquote⟩), ← ih]
    | escaped hspecial _ ih => rw [escape_cons_of_special hspecial.symm, ← ih]
  · rintro rfl
    induction value with
    | nil => exact .nil
    | cons c cs ih =>
      -- only quotes and backslashes are special
      by_cases hspecial : c = '\\' ∨ c = '\''
      · rw [escape_cons_of_special hspecial]
        exact .escaped hspecial.symm ih
      · rw [escape_cons_of_plain hspecial]
        exact .plain (mt .inr hspecial) (mt .inl hspecial) ih

namespace HostTree

/-- A host that reads a literal as the text it denotes, if it reads the code around it at all. -/
structure Reader.Faithful (read : Reader) : Prop where
  call {body value : List Char} {items : List Item} :
    Quoted.Denotes body value → read ("require('" ++ String.ofList body ++ "')") = some items →
      items = [.stmt (.require (String.ofList value))]
  declaration {body value : List Char} {items : List Item} :
    Quoted.Denotes body value → read ("import '" ++ String.ofList body ++ "'") = some items →
      items = [.importDecl (String.ofList value) []]

/-- The item that loads a module in a style. -/
def Item.load (style : ImportStyle) (specifier : String) : Item :=
  match style with
  | .requireCall => .stmt (.require specifier)
  | .importDecl => .importDecl specifier []

/-- What a faithful host reads the code for a module as. -/
theorem Reader.Faithful.of_render {read : Reader} (hread : read.Faithful) {style : ImportStyle}
    {specifier : String} {items : List Item} (h : read (style.render specifier) = some items) :
    items = [.load style specifier] := by
  -- the code has the specifier in it as it is escaped
  have hdenotes : Quoted.Denotes (Quoted.escape specifier.toList) specifier.toList :=
    Quoted.denotes_iff.2 rfl
  cases style with
  | requireCall =>
    have hcode : ImportStyle.requireCall.render specifier =
        "require('" ++ String.ofList (Quoted.escape specifier.toList) ++ "')" := by
      apply String.toList_injective
      simp [ImportStyle.render, toList_quote]
    rw [hcode] at h
    rw [hread.call hdenotes h, String.ofList_toList]
    rfl
  | importDecl =>
    have hcode : ImportStyle.importDecl.render specifier =
        "import '" ++ String.ofList (Quoted.escape specifier.toList) ++ "'" := by
      apply String.toList_injective
      simp [ImportStyle.render, toList_quote]
    rw [hcode] at h
    rw [hread.declaration hdenotes h, String.ofList_toList]
    rfl

/-- The code for a module is read as its item, or refused. -/
theorem supportItem_eq {read : Reader} (hread : read.Faithful) (style : ImportStyle)
    (specifier : String) :
    supportItem read style specifier =
      if read (style.render specifier) = none then
        .error (.template (style.render specifier) .refused)
      else .ok (.load style specifier) := by
  unfold supportItem
  simp only
  -- what the host reads is the item of the style, if it reads anything
  cases hcode : read (style.render specifier) with
  | none => rw [if_pos rfl]
  | some items => rw [hread.of_render hcode, if_neg (Option.some_ne_none _)]

/-! ## The guard -/

theorem Stmt.requires_iff {s : Stmt} {specifier : String} :
    s.requires specifier = true ↔ s = .require specifier := by
  constructor
  · -- the guard looks for the call with this very specifier
    intro h
    unfold Stmt.requires at h
    split at h
    · unfold Expr.requires at h
      split at h
      · rw [beq_iff_eq] at h
        rw [h]
        rfl
      · cases h
    · cases h
  · rintro rfl
    exact beq_self_eq_true specifier

theorem Item.references_iff {item : Item} {specifier : String} :
    item.references specifier = true ↔
      item = .stmt (.require specifier) ∨ item = .importDecl specifier [] := by
  -- a declaration counts only if it names nothing
  cases item with
  | stmt s =>
    rw [Item.references, Stmt.requires_iff]
    simp
  | importDecl source names =>
    rw [Item.references]
    simp [and_comm]
  | exportAll source => simp [Item.references]
  | other text => simp [Item.references]

/-- The item for a module references that module and no other one. -/
theorem references_load {style : ImportStyle} {specifier other : String} :
    (Item.load style specifier).references other = true ↔ other = specifier := by
  rw [Item.references_iff]
  -- both items name the module that they were made for
  cases style <;> simp [Item.load, Stmt.require, eq_comm]

/-- The items of a tree. -/
def items (tree : HostTree) : List Item :=
  match tree with
  | moduleTree _ body => body
  | scriptTree _ body => body.map .stmt

/-- The line in front of a tree. -/
def shebang (tree : HostTree) : Option String :=
  match tree with
  | moduleTree shebang _ | scriptTree shebang _ => shebang

/-- Whether a tree takes only statements. -/
def isScript (tree : HostTree) : Bool :=
  match tree with
  | moduleTree _ _ => false
  | scriptTree _ _ => true

/-- Whether a tree opens with a call or a declaration that loads a module for its effects. The items
of a script are statements, so there only the call is possible. -/
def Loads (tree : HostTree) (specifier : String) : Prop :=
  tree.items.head? = some (.stmt (.require specifier)) ∨
    tree.items.head? = some (.importDecl specifier [])

/-- The guard looks for such an item. -/
theorem opensWith_iff {tree : HostTree} {specifier : String} :
    tree.opensWith specifier = true ↔ tree.Loads specifier := by
  unfold opensWith Loads items
  -- the first item of a module, or the first statement of a script
  split
  · simp [Item.references_iff]
  · simp [Stmt.requires_iff]
  · simp
  · simp

/-! ## The item in front -/

/-- The tree with an item in front of the others, and nothing else changed. -/
structure Extends (tree : HostTree) (item : Item) (tree' : HostTree) : Prop where
  items : tree'.items = item :: tree.items
  shebang : tree'.shebang = tree.shebang
  isScript : tree'.isScript = tree.isScript

/-- A declaration does not go in front of a script. -/
theorem prepend?_of_script {tree : HostTree} (h : tree.isScript = true) (specifier : String) :
    tree.prepend? (.load .importDecl specifier) = none := by
  -- a script takes statements only
  cases tree with
  | moduleTree shebang body => cases h
  | scriptTree shebang body => rfl

/-- Anything else goes in front of a tree. -/
theorem exists_prepend? {tree : HostTree} {style : ImportStyle}
    (h : ¬(tree.isScript = true ∧ style = .importDecl)) (specifier : String) :
    ∃ tree', tree.prepend? (.load style specifier) = some tree' ∧
      tree.Extends (.load style specifier) tree' := by
  cases tree with
  -- a module takes any item, and a script the call
  | moduleTree shebang body => exact ⟨_, rfl, rfl, rfl, rfl⟩
  | scriptTree shebang body =>
    cases style with
    | requireCall => exact ⟨_, rfl, rfl, rfl, rfl⟩
    | importDecl => exact absurd ⟨rfl, rfl⟩ h

/-- A tree with the item for a module in front is one that the guard stops at. -/
theorem Extends.loads {tree tree' : HostTree} {style : ImportStyle} {specifier : String}
    (h : tree.Extends (.load style specifier) tree') : tree'.Loads specifier := by
  unfold Loads
  rw [h.items]
  -- the guard looks at the first item, which is the new one
  cases style with
  | requireCall => exact .inl rfl
  | importDecl => exact .inr rfl

/-! ## The host that knows only such code -/

/-- The code for a module is read as its item, or refused for a character that no literal holds. -/
theorem readLoad_render {style : ImportStyle} {specifier : String} {items : List Item}
    (h : readLoad (style.render specifier) = some items) : items = [.load style specifier] := by
  unfold readLoad at h
  -- such a host refuses a text with a line break or one that it cannot parse
  split at h
  · cases h
  · next hline =>
    have hfeed : '\n' ∉ specifier.toList := by
      intro hmem
      have hescape : '\n' ∈ Quoted.escape specifier.toList := Quoted.newline_mem_escape.2 hmem
      apply hline
      left
      cases style <;> simp [ImportStyle.render, toList_quote, hescape]
    -- without a line feed the code is read as a load of this module
    obtain ⟨span, raw, hparse⟩ := exists_parse_render hfeed style
    rw [hparse] at h
    cases style <;> cases h <;> rfl

theorem faithful_readLoad : readLoad.Faithful where
  call := by
    intro body value items hdenotes h
    -- a body that denotes a value is the escaped value
    have hcode : "require('" ++ String.ofList body ++ "')" =
        ImportStyle.requireCall.render (String.ofList value) := by
      apply String.toList_injective
      simp [ImportStyle.render, toList_quote, Quoted.denotes_iff.1 hdenotes]
    rw [hcode] at h
    exact readLoad_render h
  declaration := by
    intro body value items hdenotes h
    have hcode : "import '" ++ String.ofList body ++ "'" =
        ImportStyle.importDecl.render (String.ofList value) := by
      apply String.toList_injective
      simp [ImportStyle.render, toList_quote, Quoted.denotes_iff.1 hdenotes]
    rw [hcode] at h
    exact readLoad_render h

end HostTree

/-! ## Transformations -/

namespace Injector

variable {i : Injector} {read : HostTree.Reader} {tree : HostTree} {file : Path} {p : Placement}

/-- What may come of a tree once the support module is in place. -/
theorem injectTreeInPlace_cases (hread : read.Faithful) (i : Injector) (p : Placement)
    (tree : HostTree) :
    let style := i.layout.importStyle
    let code := style.render p.specifier
    let outcome := i.injectTreeInPlace read p tree
    (tree.Loads p.specifier → outcome = (.ok false, tree)) ∧
      (¬tree.Loads p.specifier → read code = none →
        outcome = (.error (.template code .refused), tree)) ∧
      (¬tree.Loads p.specifier → read code ≠ none → tree.isScript = true ∧ style = .importDecl →
        outcome = (.error (.template code .importInScript), tree)) ∧
      (¬tree.Loads p.specifier → read code ≠ none → ¬(tree.isScript = true ∧ style = .importDecl) →
        outcome.1 = .ok true ∧ tree.Extends (.load style p.specifier) outcome.2) := by
  intro style code outcome
  have houtcome : outcome = i.injectTreeInPlace read p tree := rfl
  unfold injectTreeInPlace at houtcome
  simp only [HostTree.supportItem_eq hread] at houtcome
  have hstyle : i.layout.importStyle = style := rfl
  refine ⟨?_, ?_, ?_, ?_⟩
  · -- the guard answers first
    intro hloads
    rw [houtcome, if_pos (HostTree.opensWith_iff.2 hloads)]
  · -- the host refuses the code, so there is no item
    intro hloads hrefused
    rw [houtcome, if_neg (mt HostTree.opensWith_iff.1 hloads), if_pos hrefused]
  · -- the item is there, but is a declaration
    intro hloads haccepted hscript
    have hrefuses : tree.prepend? (.load style p.specifier) = none := by
      rw [hscript.2]
      exact HostTree.prepend?_of_script hscript.1 p.specifier
    rw [houtcome, if_neg (mt HostTree.opensWith_iff.1 hloads), if_neg haccepted]
    simp only [hstyle, hrefuses]
    rfl
  · intro hloads haccepted hfits
    obtain ⟨tree', hprepend, hextends⟩ := HostTree.exists_prepend? hfits p.specifier
    rw [houtcome, if_neg (mt HostTree.opensWith_iff.1 hloads), if_neg haccepted]
    simp only [hstyle, hprepend]
    -- the item goes in front
    exact ⟨trivial, hextends⟩

/-- A tree into which nothing is injected is left alone, whatever the host reads. -/
theorem tree_of_injectTreeInPlace (h : (i.injectTreeInPlace read p tree).1 ≠ .ok true) :
    (i.injectTreeInPlace read p tree).2 = tree := by
  unfold injectTreeInPlace at h ⊢
  simp only at h ⊢
  -- the guard stops, the host refuses, the item does not fit: in all three the tree is as it was
  split
  · rfl
  · next hopens =>
    rw [if_neg hopens] at h
    cases hitem : HostTree.supportItem read i.layout.importStyle p.specifier with
    | error e => rfl
    | ok item =>
      cases hprepend : tree.prepend? item with
      | none => simp only [hprepend]
      | some tree' =>
        -- the item goes in front, and the answer says so
        simp only [hitem, hprepend] at h
        exact absurd rfl h

/-- Nothing but an injection changes a tree: a transformation that fails, or that answers that there
is nothing to do, leaves it alone. -/
theorem tree_of_transformTreeInPlace {r : Run}
    (h : (i.transformTreeInPlace read tree file r).1 ≠ .ok true) :
    (i.transformTreeInPlace read tree file r).2.1 = tree :=
  eq_of_transformWith (fun _ => tree_of_injectTreeInPlace) h

/-- The placement that a file is prepared with is its own. -/
theorem placement_of_prepare {r : Run} (h : (i.prepare file r).1 = .ok (some p)) :
    i.placement file = .ok (some p) := by
  unfold prepare at h
  -- only a placement that was found and served is handed on
  cases hplacement : i.placement file with
  | error e =>
    rw [hplacement] at h
    cases h
  | ok placement =>
    cases placement with
    | none =>
      rw [hplacement] at h
      cases h
    | some q =>
      simp only [hplacement] at h
      cases hwrite : r.materialize q i.layout.cache with
      | mk outcome r' =>
        rw [hwrite] at h
        cases outcome <;> cases h
        rfl

/-- A file that was prepared can be prepared again. -/
theorem prepare_again {r : Run} (h : (i.prepare file r).1 = .ok (some p)) :
    (i.prepare file (i.prepare file r).2).1 = .ok (some p) := by
  have hplacement := placement_of_prepare h
  rw [prepare_of_placement hplacement] at h ⊢
  cases hwritten : (r.materialize p i.layout.cache).1 with
  | error e =>
    rw [hwritten] at h
    cases h
  | ok wrote =>
    -- the module is there, or it is written once more
    obtain ⟨again, hagain⟩ := Run.exists_materialize_again hwritten
    rw [prepare_of_placement hplacement, hagain]
    rfl

/-- What comes of the transformation of a host tree. The run ends up as after the transformation of
a program, and an error in it is passed on. If the file was prepared, the item that loads the
support module is put in front of the tree, unless the tree opens with it, the host refuses its
code, or it is a declaration and the tree a script. In those cases the tree is left alone. The item
references the module and no other one, so another transformation leaves the tree alone as well. -/
theorem transformTree_outcome (hread : read.Faithful) (i : Injector) (tree : HostTree) (file : Path)
    (r : Run) :
    let answer := (i.transformTreeInPlace read tree file r).1
    let tree' := (i.transformTreeInPlace read tree file r).2.1
    let r' := (i.transformTreeInPlace read tree file r).2.2
    let style := i.layout.importStyle
    (∀ program, r' = (i.transformInPlace program file r).2.2) ∧
      (∀ e, (i.prepare file r).1 = .error e → answer = .error e ∧ tree' = tree) ∧
      ((i.prepare file r).1 = .ok none → answer = .ok false ∧ tree' = tree) ∧
      ∀ p, (i.prepare file r).1 = .ok (some p) →
        let code := style.render p.specifier
        (tree.Loads p.specifier → answer = .ok false ∧ tree' = tree) ∧
          (¬tree.Loads p.specifier → read code = none →
            answer = .error (.template code .refused) ∧ tree' = tree) ∧
          (¬tree.Loads p.specifier → read code ≠ none → tree.isScript = true ∧ style = .importDecl →
            answer = .error (.template code .importInScript) ∧ tree' = tree) ∧
          (¬tree.Loads p.specifier → read code ≠ none →
            ¬(tree.isScript = true ∧ style = .importDecl) →
            answer = .ok true ∧ ∃ item, tree.Extends item tree' ∧
              (∀ specifier, item.references specifier = true ↔ specifier = p.specifier) ∧
              (i.transformTreeInPlace read tree' file r').1 = .ok false ∧
              (i.transformTreeInPlace read tree' file r').2.1 = tree') := by
  intro answer tree' r' style
  have hrun : r' = (i.prepare file r).2 := run_of_transformWith
  refine ⟨?_, ?_, ?_, ?_⟩
  · -- the program has no part in what becomes of the run
    intro program
    rw [hrun, transformInPlace, run_of_transformWith]
  · -- an error of the preparation is the error
    intro e he
    have htransform : i.transformTreeInPlace read tree file r = _ := transformWith_of_error he
    exact ⟨congrArg Prod.fst htransform, congrArg (·.2.1) htransform⟩
  · -- a file that is no entry
    intro hnone
    have htransform : i.transformTreeInPlace read tree file r = _ := transformWith_of_none hnone
    exact ⟨congrArg Prod.fst htransform, congrArg (·.2.1) htransform⟩
  · intro p hp code
    have htransform : i.transformTreeInPlace read tree file r = _ := transformWith_of_prepared hp
    have hanswer : answer = (i.injectTreeInPlace read p tree).1 := congrArg Prod.fst htransform
    have htree : tree' = (i.injectTreeInPlace read p tree).2 := congrArg (·.2.1) htransform
    obtain ⟨hloaded, hrefused, hscript, hinjected⟩ := injectTreeInPlace_cases hread i p tree
    refine ⟨fun hloads => ?_, fun hloads hcode => ?_, fun hloads hcode hfits => ?_,
      fun hloads hcode hfits => ?_⟩
    · -- the tree opens with the item
      rw [hanswer, htree, hloaded hloads]
      exact ⟨rfl, rfl⟩
    · -- the host does not read the code
      rw [hanswer, htree, hrefused hloads hcode]
      exact ⟨rfl, rfl⟩
    · -- the item is a declaration, and the tree a script
      rw [hanswer, htree, hscript hloads hcode hfits]
      exact ⟨rfl, rfl⟩
    · obtain ⟨hchanged, hextends⟩ := hinjected hloads hcode hfits
      rw [← hanswer] at hchanged
      rw [← htree] at hextends
      -- the file is prepared again, and then the guard finds the item
      have hagain : (i.prepare file r').1 = .ok (some p) := by
        rw [hrun]
        exact prepare_again hp
      have hguard := (injectTreeInPlace_cases hread i p tree').1 hextends.loads
      refine ⟨hchanged, _, hextends, fun specifier => HostTree.references_load, ?_⟩
      rw [transformTreeInPlace, transformWith_of_prepared hagain, hguard]
      exact ⟨rfl, rfl⟩

/-- The call goes in front of a script, and the declaration does not. -/
theorem transformTree_outcome_of_script :
    let file : Path := ⟨"src/index.js"⟩
    let tree : HostTree := .scriptTree (some "#!/usr/bin/env node") [.debugger]
    let r := Run.fresh .empty "x"
    let calling : Injector := ⟨.default, ⟨"/app"⟩⟩
    let importing : Injector := ⟨{ Options.default with importStyle := .importDecl }, ⟨"/app"⟩⟩
    HostTree.readLoad.Faithful ∧
      ((calling.transformTreeInPlace HostTree.readLoad tree file r).1 = .ok true ∧
        (∃ item, tree.Extends item (calling.transformTreeInPlace HostTree.readLoad tree file r).2.1) ∧
        (calling.transformTreeInPlace HostTree.readLoad
          (calling.transformTreeInPlace HostTree.readLoad tree file r).2.1 file
          (calling.transformTreeInPlace HostTree.readLoad tree file r).2.2).1 = .ok false) ∧
      (importing.transformTreeInPlace HostTree.readLoad tree file r).1 =
        .error (.template "import './_build_modules/source-map-support-register.js'"
          .importInScript) ∧
      (importing.transformTreeInPlace HostTree.readLoad tree file r).2.1 = tree := by
  intro file tree r calling importing
  let placement : Placement :=
    ⟨⟨"/app/src/index.js"⟩, ⟨"/app/build"⟩,
      ⟨"/app/build/_build_modules/source-map-support-register.js"⟩,
      "./_build_modules/source-map-support-register.js"⟩
  -- the one item is a statement of another kind
  have hloads : ¬tree.Loads placement.specifier := by
    rintro (h | h) <;> cases h
  refine ⟨HostTree.faithful_readLoad, ?_, ?_⟩
  · obtain ⟨-, -, -, hcases⟩ := transformTree_outcome HostTree.faithful_readLoad calling tree file r
    obtain ⟨-, -, -, hinjected⟩ := hcases placement (by decide +kernel)
    obtain ⟨hchanged, item, hextends, -, hagain, -⟩ :=
      hinjected hloads (by decide +kernel) (by decide +kernel)
    exact ⟨hchanged, ⟨item, hextends⟩, hagain⟩
  · obtain ⟨-, -, -, hcases⟩ :=
      transformTree_outcome HostTree.faithful_readLoad importing tree file r
    obtain ⟨-, -, hscript, -⟩ := hcases placement (by decide +kernel)
    -- the code is the text that the error names
    have hcode : importing.layout.importStyle.render placement.specifier =
        "import './_build_modules/source-map-support-register.js'" := by decide +kernel
    rw [hcode] at hscript
    exact hscript hloads (by decide +kernel) (by decide +kernel)

end Injector

end Preload
