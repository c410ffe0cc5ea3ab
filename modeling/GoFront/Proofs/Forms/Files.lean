import GoFront.Proofs.Forms.Statements
import GoFront.Proofs.Reading.Accounts

/-!
# Forms of files

Every tree that is returned for a text is well formed, and the headers of its control statements are
clear, whatever errors its text has. The proof is by induction on the allowance, like that of what
nonterminals read.
-/

namespace GoFront

variable {P : Type} {limit : Nat}

open Yields

/-- Only behind a name does the rule of types yield one. -/
theorem isNamedType_of_typeRule
    {machine : Machine P}
    {state final : ReadState P}
    {type : TypeExpr P}
    (notIdent : state.cursor.token ≠ .ident)
    (run : machine.run Production.typeRule state = .done (some type) final) :
    type.isNamedType = false := by
  obtain ⟨-, _, run, -⟩ := Machine.exists_of_run_nested run
  replace run := Reads.run_look_done run
  dsimp only at run
  split at run
  · next production found =>
      obtain ⟨value, middle, typeRun, run⟩ := Reads.run_bind_done run
      obtain ⟨isType, -⟩ := Outcome.done.inj run
      obtain rfl := Option.some.inj isType
      exact (YieldsPlain.typeFrom_unnamed notIdent found).of_run rfl typeRun
  · cases run

/-- What nonterminals yield can stand where they are read if what their rules yield can, on a smaller
allowance. -/
theorem yieldsPlain (limit allowance : Nat) : YieldsPlain (P := P) (ruleMachine limit allowance) := by
  induction allowance with
  | zero =>
      refine ⟨fun nonterminal => ⟨fun atFlag run => ?_⟩, fun notIdent run => ?_⟩
      · cases run
      · cases run
  | succ allowance plain =>
      refine ⟨fun nonterminal => ⟨fun atFlag run => ?_⟩, fun notIdent run => ?_⟩
      · rw [run_call_succ] at run
        cases nonterminal with
        | type => exact plain.typeRule.of_run atFlag run
        | expr least => exact (plain.exprRule least).of_run atFlag run
        | unary => exact plain.unaryRule.of_run atFlag run
        | literalBody => exact plain.literalBodyRule.of_run atFlag run
        | block => exact plain.blockRule.of_run atFlag run
        | stmt => exact plain.stmtRule.of_run atFlag run
        | ifStmt => exact plain.ifStmtRule.of_run atFlag run
      · exact isNamedType_of_typeRule notIdent ((run_call_succ limit allowance .type _).symm.trans run)

/-- What is known of the parts of a file. -/
structure Production.FileParts.Plain (parts : Production.FileParts P) : Prop where
  imports : ∀ decl ∈ parts.imports, decl.Plain false
  decls : ∀ decl ∈ parts.decls, decl.Plain false ∧ decl.isImportDecl = false

namespace YieldsPlain

variable {machine : Machine P} (plain : YieldsPlain machine)

include plain

theorem file : Yields false machine (Production.file (P := P)) Production.FileParts.Plain := by
  refine skip ?_
  intro _
  refine bind (resuming (plain.specDecl .imports)) ?_
  intro _ isImports
  exact bind (resuming plain.decl) fun _ isDecls => done ⟨isImports, isDecls⟩

theorem singleDecl : Yields false machine (Production.singleDecl (P := P)) (Tree.Plain false) := by
  -- what follows the declaration changes nothing about it
  have behind {decl : Decl P} (isDecl : decl.Plain false) :
      Yields false machine (Production.look.bind fun cursor =>
        if cursor.token = .eof then .pure decl
        else (Production.report (.trailing cursor.token)).bind fun _ => .pure decl)
        (Tree.Plain false) :=
    skip fun _ => choice (fun _ => done isDecl) fun _ => skip fun _ => done isDecl
  refine skip fun cursor => choice (fun _ => ?_) fun _ => ?_
  · exact bind (plain.specifiedDecl .imports) fun decl ⟨isDecl, _⟩ => behind isDecl
  · exact bind plain.decl fun decl ⟨isDecl, _⟩ => behind isDecl

end YieldsPlain

/-! ## Returned trees -/

/-- What a file that is returned is made of is formed, and imports stand in front. -/
theorem formed_of_returned_file
    {source : String}
    {filename : Option String}
    {file : File Position}
    (returned : (parseFileWithin limit source filename).tree = some file) :
    file.imports.Formed false ∧ file.decls.Formed false
      ∧ ∀ decl ∈ file.decls.toList, decl.isImportDecl = false := by
  obtain ⟨parts, final, run, finished, _⟩ := Parsed.exists_of_ofLexed returned
  rw [Production.readFrom_eq_run] at run
  obtain ⟨package, _, rfl⟩ := Option.map_eq_some_iff.1 finished
  obtain ⟨imports, decls⟩ := (yieldsPlain limit _).file.of_run rfl run
  have importsPlain : (Tree.ofList parts.imports).Plain false := .ofList imports
  have declsPlain : (Tree.ofList parts.decls).Plain false :=
    .ofList fun decl member => (decls decl member).1
  refine ⟨importsPlain.formed, declsPlain.formed, fun decl member => ?_⟩
  rw [Tree.toList_ofList] at member
  exact (decls decl member).2

theorem formed_of_returned_decl
    {source : String}
    {filename : Option String}
    {decl : Decl Position}
    (returned : (parseDeclWithin limit source filename).tree = some decl) :
    decl.Formed false := by
  obtain ⟨value, final, run, finished, _⟩ := Parsed.exists_of_ofLexed returned
  rw [Production.readFrom_eq_run] at run
  obtain rfl := Option.some.inj finished
  exact ((yieldsPlain limit _).singleDecl.of_run rfl run).formed

theorem wellFormed_of_returned_file
    {source : String}
    {filename : Option String}
    {file : File Position}
    (returned : (parseFileWithin limit source filename).tree = some file) :
    file.WellFormed :=
  have ⟨imports, decls, notImport⟩ := formed_of_returned_file returned
  ⟨imports.wellFormed, decls.wellFormed, notImport⟩

theorem wellFormed_of_returned_decl
    {source : String}
    {filename : Option String}
    {decl : Decl Position}
    (returned : (parseDeclWithin limit source filename).tree = some decl) :
    decl.WellFormed :=
  (formed_of_returned_decl returned).wellFormed

/-- A phrase occurs in a file. -/
def File.Has
    {slot : Slot}
    (file : File P)
    (node : Tree P slot) : Prop :=
  Tree.Occurs node file.imports ∨ Tree.Occurs node file.decls

theorem File.WellFormed.sound_of_has
    {slot : Slot}
    {file : File P}
    {node : Tree P slot}
    (wellFormed : file.WellFormed)
    (has : file.Has node) :
    node.Sound :=
  has.elim wellFormed.imports.sound_of_occurs wellFormed.decls.sound_of_occurs

/-- Every phrase of a tree that is returned is sound, with or without diagnostics: its parts agree in
kind, in names and in operators, nothing that needs parts lacks them, and each phrase that can stand in
some places only stands in one of them. -/
theorem parsed_trees_are_well_formed
    (limit : Nat)
    (source : String)
    (filename : Option String) :
    (∀ file, (parseFileWithin limit source filename).tree = some file -> file.WellFormed)
      ∧ ∀ decl, (parseDeclWithin limit source filename).tree = some decl -> decl.WellFormed :=
  ⟨fun _ => wellFormed_of_returned_file, fun _ => wellFormed_of_returned_decl⟩

/-- Constants of which only the first have values, a case that receives, and a malformed declaration. -/
theorem parsed_trees_are_well_formed_select :
    (∃ file, (parseFileWithin 9 "package p\nconst (\na = 1\nb\n)\nvar = 2" none).tree = some file
        ∧ file.WellFormed)
      ∧ ∃ decl, (parseDeclWithin 9 "func f() \x7b select \x7b case v := <-c: \x7d \x7d" none).tree
          = some decl
        ∧ decl.WellFormed := by
  have fileIsSome :
      (parseFileWithin 9 "package p\nconst (\na = 1\nb\n)\nvar = 2" none).tree.isSome := by
    decide +kernel
  have declIsSome :
      (parseDeclWithin 9 "func f() \x7b select \x7b case v := <-c: \x7d \x7d" none).tree.isSome := by
    decide +kernel
  obtain ⟨file, fileReturned⟩ := Option.isSome_iff_exists.1 fileIsSome
  obtain ⟨decl, declReturned⟩ := Option.isSome_iff_exists.1 declIsSome
  have wellFormed := parsed_trees_are_well_formed 9
  exact ⟨⟨file, fileReturned, (wellFormed _ _).1 file fileReturned⟩,
    ⟨decl, declReturned, (wellFormed _ _).2 decl declReturned⟩⟩

/-! ## Headers -/

/-- The header of a control statement never takes the body of the statement for a literal: in every tree
that is returned, with or without diagnostics, no composite literal of a named type stands in the open
in the header of a conditional statement, a loop or a switch. -/
theorem headers_leave_bodies_alone
    (limit : Nat)
    (source : String)
    (filename : Option String) :
    (∀ file, (parseFileWithin limit source filename).tree = some file -> file.HeadersClear)
      ∧ ∀ decl, (parseDeclWithin limit source filename).tree = some decl -> decl.HeadersClear := by
  constructor
  · intro file returned
    obtain ⟨imports, decls, -⟩ := formed_of_returned_file returned
    exact ⟨imports.headersClear, decls.headersClear⟩
  · intro decl returned
    exact (formed_of_returned_decl returned).headersClear

/-- A literal of a type without a name, and one of a named type in parentheses. -/
theorem headers_leave_bodies_alone_sheltered :
    (∃ file, (parseFileWithin 20
          "package p\nfunc f() \x7b for range []T\x7b\x7d \x7b\x7d \x7d" none).tree = some file
        ∧ file.HeadersClear)
      ∧ ∃ decl, (parseDeclWithin 20
          "func f() \x7b if a := (T\x7b\x7d); a == T \x7b\x7d \x7d" none).tree = some decl
        ∧ decl.HeadersClear := by
  have fileIsSome : (parseFileWithin 20
      "package p\nfunc f() \x7b for range []T\x7b\x7d \x7b\x7d \x7d" none).tree.isSome := by
    decide +kernel
  have declIsSome : (parseDeclWithin 20
      "func f() \x7b if a := (T\x7b\x7d); a == T \x7b\x7d \x7d" none).tree.isSome := by
    decide +kernel
  obtain ⟨file, fileReturned⟩ := Option.isSome_iff_exists.1 fileIsSome
  obtain ⟨decl, declReturned⟩ := Option.isSome_iff_exists.1 declIsSome
  have clear := headers_leave_bodies_alone 20
  exact ⟨⟨file, fileReturned, (clear _ _).1 file fileReturned⟩,
    ⟨decl, declReturned, (clear _ _).2 decl declReturned⟩⟩

end GoFront
