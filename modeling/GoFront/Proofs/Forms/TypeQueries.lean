import GoFront.Proofs.Copies.Statements
import GoFront.Proofs.Forms.Files
import GoFront.Proofs.Reading.EntryPoints

/-!
# Type queries

What asks for the type of a value tells the two kinds of switches apart: it is the subject of every switch
over types, and no switch over values has it for its tag. It is not confined to switches, though. Like any
other suffix it is read behind whatever operand it follows.
-/

namespace GoFront

variable {P : Type}

open Production (Parses isTypeQuery suffix?)

namespace Tree

/-- A switch over types has a query for its subject. A query is neither the tag of a switch over values nor
what a call makes or allocates, which is a type. -/
def QueriesPlaced : {slot : Slot} -> Tree P slot -> Prop
  | _, guard _ expr => isTypeQuery expr = true
  | _, exprSwitch _ _ tag .. => ∀ expr ∈ tag.toOption, isTypeQuery expr = false
  | _, call func _ args _ _ =>
      Production.takesType func = true -> ∀ first ∈ args.exprs.head?, isTypeQuery first = false
  | _, _ => True

/-- What is a type is no query. -/
theorem isTypeQuery_of_isTypeOperand
    {expr : Expr P}
    (isType : expr.isTypeOperand = true) :
    isTypeQuery expr = false := by
  cases expr with
  | typeOperand => rfl
  | _ => cases isType

theorem Fits.queriesPlaced
    {slot : Slot}
    {tree : Tree P slot}
    (fits : tree.Fits) :
    tree.QueriesPlaced := by
  cases tree with
  | guard | exprSwitch => exact fits
  | call func lParen args ellipsis rParen =>
      intro takesType first isFirst
      cases func with
      | ident name =>
          have isBuiltin : name.name = "make" ∨ name.name = "new" := by
            simpa [Production.takesType] using takesType
          exact isTypeQuery_of_isTypeOperand (fits name rfl isBuiltin first isFirst)
      | _ => cases takesType
  | _ => trivial

end Tree

/-! ## Queries for assertions -/

/-- The same tree without places, with queries for the assertions of the names that are asked for. -/
def Tree.queried
    (asks : P -> Bool)
    {slot : Slot}
    (tree : Tree P slot) : Tree Unit slot :=
  tree.copy asks fun _ => ()

/-- The same file without places, its name and its comments, with queries for the assertions of the names
that are asked for. -/
def File.queried
    (asks : P -> Bool)
    (file : File P) : File Unit where
  filename := none
  package := file.package.map fun _ => ()
  imports := file.imports.queried asks
  decls := file.decls.queried asks
  comments := []

theorem Tree.bare_copy
    {Q R : Type}
    (asks : P -> Bool)
    (place : Q -> P)
    (move : Q -> R)
    {slot : Slot}
    (tree : Tree Q slot) :
    (tree.copy (asks ∘ place) move).bare = (tree.map place).queried asks := by
  rw [bare, copy_map, queried, map_copy]
  rfl

/-- Without places, its name and its comments, a file with queries is made of its parts alone. -/
theorem Production.FileParts.file?_copy
    {Q R : Type}
    (asks : P -> Bool)
    (place : Q -> P)
    (move : Q -> R)
    (parts : FileParts Q)
    (filename name : Option String)
    (comments : List (Comment R))
    (others : List (Comment P)) :
    ((parts.copy (asks ∘ place) move).file? filename comments).map File.bare
      = ((parts.map place).file? name others).map (File.queried asks) := by
  obtain ⟨package, imports, decls⟩ := parts
  cases package with
  | none => rfl
  | some package =>
      simp only [file?, FileParts.copy, FileParts.map, Option.map_some, File.bare, File.queried,
        ← Tree.copy_ofList, ← Tree.map_ofList]
      have same {phrase : Phrase} (trees : Tree Q (.many phrase)) :
          (trees.copy (asks ∘ place) move).map (fun _ => ()) = (trees.map place).queried asks :=
        Tree.bare_copy asks place move trees
      rw [same, same]
      rfl

theorem Lexeme.eq_of_contents
    {lexemes others : List (Lexeme P)}
    (contents : lexemes.map Lexeme.content = others.map Lexeme.content)
    (places : lexemes.map Lexeme.pos = others.map Lexeme.pos) :
    lexemes = others := by
  have injective : Function.Injective fun lexeme : Lexeme P => (lexeme.content, lexeme.pos) := by
    rintro ⟨token, pos, literal⟩ ⟨token', pos', literal'⟩ same
    cases same
    rfl
  have zipped (lexemes : List (Lexeme P)) :
      lexemes.map (fun lexeme => (lexeme.content, lexeme.pos))
        = (lexemes.map Lexeme.content).zip (lexemes.map Lexeme.pos) :=
    List.zip_map'.symm
  refine List.map_injective_iff.2 injective ?_
  rw [zipped, zipped, contents, places]

/-- What a lexeme says if the names that are asked for become the keyword `type`. -/
def Lexeme.queriedContent
    (asks : P -> Bool)
    (lexeme : Lexeme P) : Token × Option String :=
  if asks lexeme.pos then (.kwType, none) else lexeme.content

/-- A text without lexical errors has queries where another one asserts the names that are asked for.
Otherwise it says the same. -/
structure Lexed.QueriesFor
    (asks : Position -> Bool)
    (lexed other : Lexed Position) : Prop where
  onlyAsserted : OnlyAsserted asks lexed.significant
  noErrors : other.errors = []
  contents : other.significant.map Lexeme.content = lexed.significant.map (Lexeme.queriedContent asks)

section Numbers

variable {limit : Nat} {contents : List (Token × Option String)} {asks : Position -> Bool}
  {lexed other : Lexed Position}

/-- The copy of numbered lexemes that has queries for the names that are asked for. -/
def Copying.ofNumbers
    (asks : Position -> Bool)
    (lexed other : Lexed Position) : Copying (Fin (contents.length + 1)) Position where
  place := other.placeOf
  passed := 0
  errors := []
  asks := asks ∘ lexed.placeOf

namespace Lexed.QueriesFor

theorem map_numbered
    (queries : QueriesFor asks lexed other)
    (same : lexed.significant.map Lexeme.content = contents) :
    (numbered contents).map (Copying.ofNumbers asks lexed other).lexeme = other.significant := by
  have content (lexeme : Lexeme (Fin (contents.length + 1))) :
      ((Copying.ofNumbers asks lexed other).lexeme lexeme).content
        = (lexeme.map lexed.placeOf).queriedContent asks := by
    cases asked : asks (lexed.placeOf lexeme.pos) <;>
      simp [Copying.lexeme, Copying.ofNumbers, Lexeme.queriedContent, Lexeme.content, Lexeme.map, asked]
  have place (lexeme : Lexeme (Fin (contents.length + 1))) :
      ((Copying.ofNumbers asks lexed other).lexeme lexeme).pos = other.placeOf lexeme.pos := by
    cases asked : asks (lexed.placeOf lexeme.pos) <;>
      simp [Copying.lexeme, Copying.ofNumbers, Lexeme.map, asked]
  have lengths : contents.length = other.significant.length := by
    simpa [← same] using (congrArg List.length queries.contents).symm
  refine Lexeme.eq_of_contents ?_ ?_
  · rw [queries.contents, ← Lexed.map_numbered same, List.map_map, List.map_map]
    exact List.map_congr_left fun lexeme _ => content lexeme
  · rw [List.map_map]
    refine (List.map_congr_left fun lexeme _ => place lexeme).trans ?_
    apply List.ext_getElem
    · simp [numbered, lengths]
    · intro number _ there
      have inside : number < other.significant.length := by simpa using there
      simp [numbered, placeOf, inside]

theorem onlyAsserted_numbered
    (queries : QueriesFor asks lexed other)
    (same : lexed.significant.map Lexeme.content = contents) :
    OnlyAsserted (asks ∘ lexed.placeOf) (numbered contents) := by
  refine .of_map lexed.placeOf ?_
  rw [Lexed.map_numbered same]
  exact queries.onlyAsserted

/-- What is read without errors of a text is read, as a copy, of a text with queries. -/
theorem readFrom
    {α β : Type}
    {source : Production (Fin (contents.length + 1)) α}
    {production : Production Position β}
    {copy : α -> β}
    {value : α}
    {final : ReadState (Fin (contents.length + 1))}
    (queries : QueriesFor asks lexed other)
    (same : lexed.significant.map Lexeme.content = contents)
    (copies : ∀ {allowance : Nat} {head : Token},
      Copies (.ofRules (.ofNumbers asks lexed other) limit (Nat.le_refl allowance)) head copy
        source production)
    (run : source.readFrom limit (numbered contents) (Fin.last _) = .done value final)
    (clean : final.errors = []) :
    ∃ last, production.readFrom limit other.significant other.stop = .done (copy value) last
      ∧ last.errors = [] := by
  have lengths : (numbered contents).length = other.significant.length := by
    rw [← queries.map_numbered same, List.length_map]
  have otherSame : other.significant.length = contents.length := by
    rw [← lengths]
    simp [numbered]
  have stopEq : other.placeOf (Fin.last contents.length) = other.stop := by
    simp [placeOf, otherSame]
  have start : (Copying.ofNumbers asks lexed other).state (.start (numbered contents) (Fin.last _))
      = .start other.significant other.stop := by
    rw [← queries.map_numbered same, ← stopEq]
    rfl
  have copied := @copies (Production.allowance (numbered contents).length) _
    (.start (numbered contents) (Fin.last _)) rfl (queries.onlyAsserted_numbered same)
  change Outcome.Copied (Copying.ofNumbers asks lexed other) copy _
    (source.readFrom limit (numbered contents) _)
    ((ruleMachine limit (Production.allowance (numbered contents).length)).run production
      ((Copying.ofNumbers asks lexed other).state _)) at copied
  rw [run, start] at copied
  obtain ⟨-, ended⟩ := copied (.inr clean)
  refine ⟨(Copying.ofNumbers asks lexed other).state final, ?_, ?_⟩
  · rw [Production.readFrom_eq_run, ← lengths]
    exact ended
  · change final.errors.map _ ++ [] = []
    rw [clean]
    rfl

/-- What a text is accepted as is, with queries, what a text with queries is accepted as. -/
theorem exists_accepts
    {α β γ δ : Type}
    {source : Production (Fin (contents.length + 1)) α}
    {production : Production Position β}
    {move : (Fin (contents.length + 1) -> Position) -> α -> β}
    {finish finish' : β -> Option γ}
    {bare queried : γ -> δ}
    {tree : γ}
    (queries : QueriesFor asks lexed other)
    (copy : Copying (Fin (contents.length + 1)) Position -> α -> β)
    (same : lexed.significant.map Lexeme.content = contents)
    (mirrors : MirrorsNumbers limit move source production)
    (copies : ∀ {allowance : Nat} {head : Token},
      Copies (.ofRules (.ofNumbers asks lexed other) limit (Nat.le_refl allowance)) head
        (copy (.ofNumbers asks lexed other)) source production)
    (ends : source.readFrom limit (numbered contents) (Fin.last _) ≠ .exhausted)
    (sameBare : ∀ value, (finish' (copy (.ofNumbers asks lexed other) value)).map bare
      = (finish (move lexed.placeOf value)).map queried)
    (accepted : (Parsed.ofLexed limit production finish lexed).Accepts tree) :
    ∃ result, (Parsed.ofLexed limit production finish' other).Accepts result
      ∧ bare result = queried tree := by
  obtain ⟨value, final, run, clean, finished⟩ := accepted.exists_numbered same mirrors ends
  obtain ⟨last, otherRun, otherClean⟩ := queries.readFrom same copies run clean
  have isCopy := sameBare value
  rw [finished, Option.map_some] at isCopy
  obtain ⟨result, otherFinished, sameResult⟩ := Option.map_eq_some_iff.1 isCopy
  exact ⟨result, Parsed.accepts_ofLexed_iff.2
    ⟨queries.noErrors, _, last, otherRun, otherClean, otherFinished⟩, sameResult⟩

end Lexed.QueriesFor
end Numbers

/-- Type queries decide switches, but they are not confined to them. In every tree that is returned the
subject of a switch over types is a query, and neither the tag of a switch over values nor what is made or
allocated by a call is one. Wherever names can be asserted, in all the phrases of a text, queries can stand
in their place, unless the cases of a switch are opened right behind: what is accepted with the assertions
is accepted with the queries, and read as the same tree but for them. -/
theorem type_queries_decide_switches
    (limit : Nat)
    (source : String)
    (filename : Option String) :
    (∀ file, (parseFileWithin limit source filename).tree = some file ->
        ∀ (slot : Slot) (node : Tree Position slot), file.Has node -> node.QueriesPlaced)
      ∧ (∀ decl, (parseDeclWithin limit source filename).tree = some decl ->
        ∀ (slot : Slot) (node : Tree Position slot), Tree.Occurs node decl -> node.QueriesPlaced)
      ∧ ∀ (asks : Position -> Bool) (other : String) (otherName : Option String),
        (lex source filename).QueriesFor asks (lex other otherName) ->
          (∀ file, (parseFileWithin limit source filename).Accepts file ->
            ∃ queried, (parseFileWithin limit other otherName).Accepts queried
              ∧ queried.bare = file.queried asks)
          ∧ ∀ decl, (parseDeclWithin limit source filename).Accepts decl ->
            ∃ queried, (parseDeclWithin limit other otherName).Accepts queried
              ∧ queried.bare = decl.queried asks := by
  have regular := regular_of_mem_numbered rfl (regular_of_mem_significant source filename)
  refine ⟨?_, ?_, ?_⟩
  · intro file returned slot node has
    exact ((wellFormed_of_returned_file returned).sound_of_has has).fits.queriesPlaced
  · intro decl returned slot node occurs
    exact ((wellFormed_of_returned_decl returned).sound_of_occurs occurs).fits.queriesPlaced
  · intro asks other otherName queries
    constructor
    · intro file
      apply queries.exists_accepts (fun copying => .copy copying.asks copying.place) rfl
        MirrorsNumbers.file Copies.file
      · exact Production.readFrom_ne_exhausted (readsNonterminals limit _).file (by omega) regular
      · intro parts
        exact parts.file?_copy asks (lex source filename).placeOf _ _ _ _ _
    · intro decl
      apply queries.exists_accepts (fun copying => copying.tree) rfl
        MirrorsNumbers.singleDecl Copies.singleDecl
      · exact Production.readFrom_ne_exhausted (readsNonterminals limit _).singleDecl (by omega) regular
      · intro value
        exact congrArg some (Tree.bare_copy asks (lex source filename).placeOf _ value)

/-- A switch over types and one over values. Then a text with queries for the assertions of another one: as
the initial value of a variable, behind an operator in an argument of a call, and as the first statement of
a header. Then a declaration of which that is said, too. -/
theorem type_queries_decide_switches_both :
    (∃ file, (parseFileWithin 20
          "package p\nfunc f() \x7b switch v := x.(type) \x7b\x7d \x7d" none).tree = some file
        ∧ ∃ bound expr, file.Has (.guard bound expr) ∧ isTypeQuery expr = true)
      ∧ (∃ decl, (parseDeclWithin 20 "func f() \x7b switch x.(T) \x7b\x7d \x7d" none).tree = some decl
        ∧ ∃ keyword init tag lBrace clauses rBrace,
          Tree.Occurs (.exprSwitch keyword init (.present tag) lBrace clauses rBrace) decl
            ∧ isTypeQuery tag = false)
      ∧ (∃ file queried query, (parseFileWithin 20
            "package p\nvar a = x.(T)\nfunc f() \x7b g(-x.(T)); if x.(T); y \x7b\x7d \x7d"
            none).Accepts file
          ∧ (parseFileWithin 20
            "package p\nvar a = x.(type)\nfunc f() \x7b g(-x.(type)); if x.(type); y \x7b\x7d \x7d"
            none).Accepts queried
          ∧ queried.bare = file.queried (fun pos => pos.offset ∈ [21, 41, 52])
          ∧ isTypeQuery query = true
          ∧ queried.bare.Has (.varSpec [⟨"a", ()⟩] .absent (.present (.exprList (.cons query .nil))))
          ∧ queried.bare.Has (.unary ⟨.minus, ()⟩ query) ∧ queried.bare.Has (.exprStmt query))
      ∧ ∃ decl queried, (parseDeclWithin 20 "var a = x.(T)" none).Accepts decl
        ∧ (parseDeclWithin 20 "var a = x.(type)" none).Accepts queried
        ∧ queried.bare = decl.queried fun pos => pos.offset = 11 := by
  obtain ⟨file, returned, has⟩ : ∃ file, (parseFileWithin 20
      "package p\nfunc f() \x7b switch v := x.(type) \x7b\x7d \x7d" none).tree = some file
        ∧ file.Has (.guard (some ⟨⟨"v", ⟨28, 2, none⟩⟩, ⟨.define, ⟨30, 2, none⟩⟩⟩)
          (.typeQuery (.ident ⟨"x", ⟨33, 2, none⟩⟩) ⟨.dot, ⟨34, 2, none⟩⟩ ⟨.lParen, ⟨35, 2, none⟩⟩
            ⟨.kwType, ⟨36, 2, none⟩⟩ ⟨.rParen, ⟨40, 2, none⟩⟩)) :=
    ⟨_, rfl, .inr (.inside (.head _) (.inside (.tail _ (.tail _ (.head _))) (.inside (.head _)
      (.inside (.head _) (.inside (.head _) (.inside (.head _) (.inside (.tail _ (.head _))
        (.refl _))))))))⟩
  obtain ⟨decl, declReturned, occurs⟩ : ∃ decl, (parseDeclWithin 20
      "func f() \x7b switch x.(T) \x7b\x7d \x7d" none).tree = some decl
        ∧ Tree.Occurs (.exprSwitch ⟨.kwSwitch, ⟨11, 1, none⟩⟩ .absent
          (.present (.typeAssertion (.ident ⟨"x", ⟨18, 1, none⟩⟩) ⟨.dot, ⟨19, 1, none⟩⟩
            ⟨.lParen, ⟨20, 1, none⟩⟩ (.namedType (.typeName none ⟨"T", ⟨21, 1, none⟩⟩ .absent))
            ⟨.rParen, ⟨22, 1, none⟩⟩)) ⟨.lBrace, ⟨24, 1, none⟩⟩ .nil ⟨.rBrace, ⟨25, 1, none⟩⟩) decl :=
    ⟨_, rfl, .inside (.tail _ (.tail _ (.head _))) (.inside (.head _) (.inside (.head _)
      (.inside (.head _) (.inside (.head _) (.refl _)))))⟩
  have known := type_queries_decide_switches 20
  refine ⟨⟨file, returned, _, _, has, (known _ _).1 file returned _ _ has⟩,
    ⟨decl, declReturned, _, _, _, _, _, _, occurs, ?_⟩, ?_, ?_⟩
  · exact (known _ _).2.1 decl declReturned _ _ occurs _ rfl
  · obtain ⟨file, query, accepted, isQuery, value, operand, first⟩ : ∃ file query, (parseFileWithin 20
        "package p\nvar a = x.(T)\nfunc f() \x7b g(-x.(T)); if x.(T); y \x7b\x7d \x7d" none).Accepts file
          ∧ isTypeQuery query = true
          ∧ (file.queried fun pos => pos.offset ∈ [21, 41, 52]).Has
            (.varSpec [⟨"a", ()⟩] .absent (.present (.exprList (.cons query .nil))))
          ∧ (file.queried fun pos => pos.offset ∈ [21, 41, 52]).Has (.unary ⟨.minus, ()⟩ query)
          ∧ (file.queried fun pos => pos.offset ∈ [21, 41, 52]).Has (.exprStmt query) :=
      ⟨_, .typeQuery (.ident ⟨"x", ()⟩) ⟨.dot, ()⟩ ⟨.lParen, ()⟩ ⟨.kwType, ()⟩ ⟨.rParen, ()⟩,
        ⟨rfl, rfl⟩, rfl,
        .inr (.inside (.head _) (.inside (.head _) (.inside (.head _) (.inside (.head _) (.refl _))))),
        .inr (.inside (.tail _ (.head _)) (.inside (.head _) (.inside (.tail _ (.tail _ (.head _)))
          (.inside (.head _) (.inside (.head _) (.inside (.head _) (.inside (.head _) (.inside (.head _)
            (.inside (.head _) (.inside (.head _) (.inside (.tail _ (.head _)) (.inside (.head _)
              (.inside (.head _) (.refl _)))))))))))))),
        .inr (.inside (.tail _ (.head _)) (.inside (.head _) (.inside (.tail _ (.tail _ (.head _)))
          (.inside (.head _) (.inside (.head _) (.inside (.head _) (.inside (.tail _ (.head _))
            (.inside (.head _) (.inside (.head _) (.inside (.head _) (.inside (.head _)
              (.refl _))))))))))))⟩
    obtain ⟨queried, acceptedToo, same⟩ := ((known _ _).2.2 (fun pos => pos.offset ∈ [21, 41, 52])
      "package p\nvar a = x.(type)\nfunc f() \x7b g(-x.(type)); if x.(type); y \x7b\x7d \x7d"
      none ⟨by decide +kernel, by decide +kernel, by decide +kernel⟩).1 file accepted
    rw [← same] at value operand first
    exact ⟨file, queried, query, accepted, acceptedToo, same, isQuery, value, operand, first⟩
  · have isSome : (parseDeclWithin 20 "var a = x.(T)" none).tree.isSome := by decide +kernel
    have noDiagnostics : (parseDeclWithin 20 "var a = x.(T)" none).diagnostics = [] := by
      decide +kernel
    obtain ⟨decl, returned⟩ := Option.isSome_iff_exists.1 isSome
    have accepted : Parsed.Accepts _ decl := ⟨returned, noDiagnostics⟩
    obtain ⟨queried, acceptedToo, same⟩ := ((known _ _).2.2 (fun pos => pos.offset = 11)
      "var a = x.(type)" none ⟨by decide +kernel, by decide +kernel, by decide +kernel⟩).2 decl accepted
    exact ⟨decl, queried, accepted, acceptedToo, same⟩

/-- A query is the initial value of a variable. -/
theorem type_query_as_initial_value :
    ∃ file, (parseFileWithin 100 "package p\nvar x = y.(type)\n" none).Accepts file
      ∧ ∃ names value, isTypeQuery value = true
        ∧ file.Has (.varSpec names .absent (.present (.exprList (.cons value .nil)))) := by
  obtain ⟨file, accepted, has⟩ : ∃ file,
      (parseFileWithin 100 "package p\nvar x = y.(type)\n" none).Accepts file
        ∧ file.Has (.varSpec [⟨"x", ⟨14, 2, none⟩⟩] .absent (.present (.exprList (.cons
          (.typeQuery (.ident ⟨"y", ⟨18, 2, none⟩⟩) ⟨.dot, ⟨19, 2, none⟩⟩ ⟨.lParen, ⟨20, 2, none⟩⟩
            ⟨.kwType, ⟨21, 2, none⟩⟩ ⟨.rParen, ⟨25, 2, none⟩⟩) .nil)))) :=
    ⟨_, ⟨rfl, rfl⟩,
      .inr (.inside (.head _) (.inside (.head _) (.inside (.head _) (.inside (.head _) (.refl _)))))⟩
  exact ⟨file, accepted, _, _, rfl, has⟩

end GoFront
