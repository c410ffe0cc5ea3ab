import GoFront.Proofs.Reading.Accounts
import GoFront.Proofs.Shape.Statements

/-!
# Layers of files

Whatever the errors of a text, what is returned for it is graded, and the parts of all phrases fit. The
proof is by induction on the allowance, like that of what nonterminals read.
-/

namespace GoFront

variable {P : Type} {limit : Nat}

open Builds
open GoFront.Tree (Graded)

/-- Nonterminals build graded phrases if their rules do, on a smaller allowance. -/
theorem buildsGraded (limit allowance : Nat) : BuildsGraded (P := P) (ruleMachine limit allowance) := by
  induction allowance with
  | zero => exact ⟨fun nonterminal => ⟨fun _ _ => trivial⟩, nofun⟩
  | succ allowance graded =>
      refine ⟨fun nonterminal => ⟨fun hasRoom partsFit => ?_⟩, fun run => ?_⟩
      · rw [run_call_succ]
        cases nonterminal with
        | type => exact graded.typeRule.of_run hasRoom partsFit
        | expr least => exact (graded.exprRule least).of_run hasRoom partsFit
        | unary => exact graded.unaryRule.of_run hasRoom partsFit
        | literalBody => exact graded.literalBodyRule.of_run hasRoom partsFit
        | block => exact graded.blockRule.of_run hasRoom partsFit
        | stmt => exact graded.stmtRule.of_run hasRoom partsFit
        | ifStmt => exact graded.ifStmtRule.of_run hasRoom partsFit
      · rw [run_call_succ] at run
        exact BuildsGraded.stops_of_exprRule run

/-- What is known of the parts of a file. -/
structure Production.FileParts.Graded (layers : Nat) (parts : Production.FileParts P) : Prop where
  imports : ∀ decl ∈ parts.imports, decl.Graded layers
  decls : ∀ decl ∈ parts.decls, decl.Graded layers

namespace BuildsGraded

variable {room : Nat} {machine : Machine P} (graded : BuildsGraded machine)

include graded

theorem file :
    Builds room machine (Production.file (P := P)) (Production.FileParts.Graded (8 * room + 15)) := by
  have packageClause : Builds room machine (Production.packageClause (P := P)) fun _ => True :=
    skip (mark _) fun _ => skip ident fun _ => skip semicolon fun _ => done trivial
  refine skip (recovering packageClause) fun package => ?_
  refine bind (resuming (graded.specDecl .imports)) fun imports isImports => ?_
  refine bind (resuming graded.decl) fun decls isDecls => done ⟨fun decl member => ?_, isDecls⟩
  exact (isImports decl member).mono (by omega)

theorem singleDecl :
    Builds room machine (Production.singleDecl (P := P)) (Graded (8 * room + 15)) := by
  -- what follows the declaration changes nothing about it
  have behind {decl : Decl P} (isDecl : decl.Graded (8 * room + 15)) :
      Builds room machine (Production.look.bind fun cursor =>
        if cursor.token = .eof then .pure decl
        else (Production.report (.trailing cursor.token)).bind fun _ => .pure decl)
        (Graded (8 * room + 15)) :=
    skip look fun _ =>
      choice (fun _ => done isDecl) fun _ => skip (report (.of_other rfl)) fun _ => done isDecl
  refine skip look fun cursor => choice (fun _ => ?_) fun _ => ?_
  · exact bind (graded.specifiedDecl .imports) fun decl isDecl => behind isDecl
  · exact bind graded.decl fun decl isDecl => behind isDecl

end BuildsGraded

/-! ## Returned trees and their errors -/

variable {α β : Type}

/-- What is returned for a text was built by a run, and the errors of the run are reported. -/
theorem Parsed.builds
    {production : Production Position α}
    {property : α -> Prop}
    {finish : α -> Option β}
    {lexed : Lexed Position}
    (builds : Builds limit (ruleMachine limit (Production.allowance lexed.significant.length))
      production property) :
    (∀ result, (ofLexed limit production finish lexed).tree = some result ->
        ∃ value, property value ∧ finish value = some result)
      ∧ ∀ error, .grammatical error ∈ (ofLexed limit production finish lexed).diagnostics ->
        error.cause.PartsFit := by
  by_cases hasErrors : lexed.hasErrors
  · rw [ofLexed, if_pos hasErrors]
    exact ⟨fun _ returned => (Option.some_ne_none _ returned.symm).elim,
      fun error member => by simp at member⟩
  · have clean : (ReadState.start lexed.significant lexed.stop).PartsFit [] :=
      fun _ member => .inl member
    have ends := builds.of_run (Nat.zero_add limit) clean
    rw [ofLexed, if_neg hasErrors, Production.readFrom_eq_run]
    cases run : (ruleMachine limit (Production.allowance lexed.significant.length)).run production
        (.start lexed.significant lexed.stop) with
    | done value final =>
        rw [run] at ends
        refine ⟨fun result returned => ⟨value, ends.1, returned⟩, fun error member => ?_⟩
        exact (ends.2 error (by simpa [ofOutcome] using member)).resolve_left List.not_mem_nil
    | gaveUp final =>
        rw [run] at ends
        refine ⟨fun _ returned => (Option.some_ne_none _ returned.symm).elim, fun error member => ?_⟩
        exact (ends error (by simpa [ofOutcome] using member)).resolve_left List.not_mem_nil
    | exhausted =>
        exact ⟨fun _ returned => (Option.some_ne_none _ returned.symm).elim,
          fun error member => by simp [ofOutcome] at member⟩

theorem graded_of_returned_file
    {source : String}
    {filename : Option String}
    {file : File Position}
    (returned : (parseFileWithin limit source filename).tree = some file) :
    file.imports.Graded (8 * limit + 15) ∧ file.decls.Graded (8 * limit + 15) := by
  obtain ⟨parts, graded, finished⟩ := (Parsed.builds (buildsGraded limit _).file).1 file returned
  obtain ⟨package, _, rfl⟩ := Option.map_eq_some_iff.1 finished
  exact ⟨.ofList graded.imports, .ofList graded.decls⟩

theorem graded_of_returned_decl
    {source : String}
    {filename : Option String}
    {decl : Decl Position}
    (returned : (parseDeclWithin limit source filename).tree = some decl) :
    decl.Graded (8 * limit + 15) := by
  obtain ⟨value, graded, finished⟩ :=
    (Parsed.builds (buildsGraded limit _).singleDecl).1 decl returned
  obtain rfl := Option.some.inj finished
  exact graded

/-! ## Parts that do not fit -/

/-- A text was complained about because parts of a phrase did not fit, for a reason. -/
def Parsed.Misfits (reason : InvalidNode) (parsed : Parsed α) : Prop :=
  ∃ error, .grammatical error ∈ parsed.diagnostics ∧ error.cause = .invalidNode reason

/-- The grammar puts phrases together of parts that fit: for no text, read as a file or as a single
declaration, are the parts of a phrase refused, except for a variable that has neither a type nor
values. -/
theorem only_variables_lack_parts
    (limit : Nat)
    (source : String)
    (filename : Option String)
    (reason : InvalidNode)
    (misfits : (parseFileWithin limit source filename).Misfits reason
      ∨ (parseDeclWithin limit source filename).Misfits reason) :
    reason = .varWithoutTypeOrValue := by
  rcases misfits with ⟨error, reported, isReason⟩ | ⟨error, reported, isReason⟩
  · exact (Parsed.builds (buildsGraded limit _).file).2 error reported reason isReason
  · exact (Parsed.builds (buildsGraded limit _).singleDecl).2 error reported reason isReason

/-- A lone name behind `var`. -/
theorem only_variables_lack_parts_name :
    ∃ reason, (parseFileWithin 9 "package p\nvar x" none).Misfits reason
      ∧ reason = .varWithoutTypeOrValue := by
  have misfits : (parseFileWithin 9 "package p\nvar x" none).Misfits .varWithoutTypeOrValue :=
    ⟨⟨_, 15, 2, none⟩, by decide +kernel, rfl⟩
  exact ⟨_, misfits, only_variables_lack_parts 9 _ _ _ (.inl misfits)⟩

/-- A variable without a type and values is refused only when its parts are put together. -/
theorem lone_variable_misfits :
    (parseFile "package p\nvar x" none).Misfits .varWithoutTypeOrValue
      ∧ (parseDecl "var x" none).Misfits .varWithoutTypeOrValue :=
  ⟨⟨⟨_, 15, 2, none⟩, by decide +kernel, rfl⟩, ⟨⟨_, 5, 1, none⟩, by decide +kernel, rfl⟩⟩

end GoFront
