import GoFront.Proofs.Reading.Parameters
import GoFront.Proofs.Thinning.Files
import Mathlib.Data.List.Chain

/-!
# Variadic parameters

Only the last entry of a parameter list can be variadic, and only among the parameters of a function. Lone
names in front of such an entry share its type, so that they become names of the same variadic parameter.
Where no lone name stands there, a variadic parameter has one name at most.
-/

namespace GoFront

variable {P : Type}

namespace Tree

/-- The names that a parameter declares. -/
def paramNames : Tree P (.one .param) -> List (Ident P)
  | param names .. => names.getD []

/-- A parameter declares one name at most if it is variadic. -/
def DotsAlone (entry : Tree P (.one .param)) : Prop :=
  entry.isVariadicParam = true -> entry.paramNames.length ≤ 1

end Tree

/-! ## Entries -/

namespace Production
namespace ParamEntry

/-- Whether an entry is a lone name. -/
def isBare : ParamEntry P -> Bool
  | bare _ => true
  | unnamed .. | named .. => false

/-- Whether an entry is variadic and has a name. -/
def isNamedVariadic : ParamEntry P -> Bool
  | named _ ellipsis _ => ellipsis.isSome
  | bare _ | unnamed .. => false

/-- No lone name stands directly in front of a variadic entry that has a name. -/
def Apart (entries : List (ParamEntry P)) : Prop :=
  entries.IsChain fun entry next => entry.isBare = true -> next.isNamedVariadic = false

/-- Names that are pending share no variadic type. -/
theorem dotsAlone_of_namedParams?
    {pending : List (Ident P)}
    {entries : List (ParamEntry P)}
    {params : List (Tree P (.one .param))}
    (found : namedParams? pending entries = some params)
    (apart : Apart entries)
    (first : pending = [] ∨ ∀ entry ∈ entries.head?, entry.isNamedVariadic = false) :
    ∀ param ∈ params, param.DotsAlone := by
  induction entries generalizing pending params with
  | nil =>
      cases pending with
      | nil =>
          obtain rfl := Option.some.inj found
          exact List.forall_mem_nil _
      | cons name pending => cases found
  | cons entry entries inductionHypothesis =>
      obtain ⟨next, rest⟩ := List.isChain_cons.1 apart
      cases entry with
      | unnamed => cases pending <;> cases found
      | bare name =>
          have found : namedParams? (pending ++ [name]) entries = some params := by
            cases pending <;> exact found
          exact inductionHypothesis found rest (.inr fun entry isNext => next entry isNext rfl)
      | named name ellipsis type =>
          have found : (namedParams? [] entries).map (.param (some (pending ++ [name])) ellipsis type :: ·)
              = some params := by
            cases pending <;> exact found
          obtain ⟨others, isOthers, rfl⟩ := Option.map_eq_some_iff.1 found
          refine List.forall_mem_cons.2 ⟨fun isVariadic => ?_, inductionHypothesis isOthers rest (.inl rfl)⟩
          rcases first with rfl | notVariadic
          · exact Nat.le_refl 1
          · exact absurd isVariadic (Bool.eq_false_iff.1 (notVariadic _ rfl))

/-- Without lone names in front of variadic entries, entries resolve to variadic parameters that declare one
name at most. -/
theorem dotsAlone_of_resolve
    {variadic : Bool}
    {entries : List (ParamEntry P)}
    {params : List (Tree P (.one .param))}
    (resolved : resolve variadic entries = .ok params)
    (apart : Apart entries) :
    ∀ param ∈ params, param.DotsAlone := by
  obtain ⟨-, found | ⟨-, rfl⟩⟩ := of_resolve_ok resolved
  · exact dotsAlone_of_namedParams? found apart (.inl rfl)
  · refine List.forall_mem_map.2 fun entry _ _ => ?_
    cases entry <;> exact Nat.zero_le 1

end ParamEntry

/-! ## Entries in a text -/

theorem tokens_ahead
    {cursor : Cursor P}
    (notAtEnd : cursor.token ≠ .eof) :
    cursor.ahead.map Lexeme.token = cursor.token :: cursor.advance.ahead.map Lexeme.token := by
  obtain ⟨lexeme, rest, ahead, isToken⟩ := Cursor.exists_of_token_ne_eof notAtEnd
  rw [Cursor.ahead_advance, ahead, ← isToken]
  rfl

section

variable {limit : Nat} {state : ReadState P} {entry : ParamEntry P} {middle final : Cursor P}

theorem token_of_type
    {type : TypeExpr P}
    (parses : Parses limit Production.type state type middle) :
    state.cursor.token ∉ [Token.comma, .rParen, .eof] := by
  obtain ⟨-, production, found, -⟩ := parses_type?.1 (parses_type.1 parses)
  revert found
  cases state.cursor.token <;> simp [typeFrom]

/-- A lone name is read of one lexeme, and a variadic entry with a name of that name, an ellipsis and what
begins a type. -/
theorem tokens_of_paramEntry (parses : Parses limit paramEntry state entry middle) :
    (entry.isBare = true -> state.cursor.token = .ident ∧ middle = state.cursor.advance)
      ∧ (entry.isNamedVariadic = true -> state.cursor.token = .ident
        ∧ state.cursor.advance.token = .ellipsis
        ∧ state.cursor.advance.advance.token ∉ [Token.comma, .rParen, .eof]) := by
  rw [paramEntry_eq, parses_bind_look] at parses
  split at parses
  · obtain ⟨name, _, isName, done⟩ := parses_bind.1 parses
    obtain ⟨atName, -, rfl⟩ := parses_ident.1 isName
    obtain ⟨rfl, rfl⟩ := parses_pure.1 done
    exact ⟨fun _ => ⟨atName, rfl⟩, nofun⟩
  · split at parses
    · obtain ⟨name, _, isName, parses⟩ := parses_bind.1 parses
      obtain ⟨ellipsis, _, areDots, parses⟩ := parses_bind.1 parses
      obtain ⟨type, _, isType, done⟩ := parses_bind.1 parses
      obtain ⟨atName, -, rfl⟩ := parses_ident.1 isName
      obtain ⟨rfl, -⟩ := parses_pure.1 done
      refine ⟨nofun, fun isVariadic => ?_⟩
      rw [parses_mark?] at areDots
      split at areDots
      · next atDots =>
        obtain ⟨-, rfl⟩ := areDots
        exact ⟨atName, atDots, token_of_type isType⟩
      · obtain ⟨rfl, -⟩ := areDots
        cases isVariadic
    · obtain ⟨ellipsis, _, -, parses⟩ := parses_bind.1 parses
      obtain ⟨type, _, -, done⟩ := parses_bind.1 parses
      obtain ⟨rfl, -⟩ := parses_pure.1 done
      exact ⟨nofun, nofun⟩

end
end Production

/-! ## Lists in a text -/

/-- In some list of a text a lone name stands directly in front of a name and an ellipsis. Behind the
ellipsis a type begins; it is not that of an argument, where a comma or a parenthesis follows. -/
def SharesDots (text : List (Lexeme P)) : Prop :=
  ∃ opener next : Token, (opener = .lParen ∨ opener = .comma) ∧ next ≠ .comma ∧ next ≠ .rParen
    ∧ [opener, .ident, .comma, .ident, .ellipsis, next] <:+: text.map Lexeme.token

namespace Production

variable {limit : Nat} {text : List (Lexeme P)} {state : ReadState P} {entry : ParamEntry P}
  {collected result : List (ParamEntry P)} {more last : Bool} {final : Cursor P}

/-- Behind some tokens in a text come the lexemes ahead of a cursor. -/
def Behind
    (text : List (Lexeme P))
    (tokens : List Token)
    (cursor : Cursor P) : Prop :=
  tokens ++ cursor.ahead.map Lexeme.token <:+ text.map Lexeme.token

/-- What is known behind some entries of a list, of which the last one comes first. -/
structure BehindEntries
    (text : List (Lexeme P))
    (collected : List (ParamEntry P))
    (cursor : Cursor P) : Prop where
  opener : ∃ opener, (opener = Token.lParen ∨ opener = .comma) ∧ Behind text [opener] cursor
  bare : ∀ entry ∈ collected.head?, entry.isBare = true ->
    ∃ opener, (opener = Token.lParen ∨ opener = .comma) ∧ Behind text [opener, .ident, .comma] cursor

theorem Behind.advance
    {tokens : List Token}
    {cursor : Cursor P}
    (behind : Behind text tokens cursor)
    (notAtEnd : cursor.token ≠ .eof) :
    Behind text (tokens ++ [cursor.token]) cursor.advance := by
  rw [Behind, tokens_ahead notAtEnd] at behind
  rwa [Behind, List.append_assoc]

/-- What has been passed is left behind. -/
theorem Behind.pass
    {tokens : List Token}
    {middle : Cursor P}
    {α : Type}
    {production : Production P α}
    {value : α}
    (behind : Behind text tokens state.cursor)
    (parses : Parses limit production state value middle) :
    Behind text [] middle := by
  obtain ⟨_, run⟩ := parses
  obtain ⟨taken, reaches⟩ := Machine.reaches_of_done run
  have passed : middle.ahead <:+ state.cursor.ahead := ⟨taken, reaches.ahead.symm⟩
  exact (passed.map _).trans ((List.suffix_append tokens _).trans behind)

namespace BehindEntries

/-- Behind a comma another entry may follow. -/
theorem step
    {middle : Cursor P}
    (behind : BehindEntries text collected state.cursor)
    (parses : Parses limit paramEntry state entry middle)
    (atComma : middle.token = .comma) :
    BehindEntries text (entry :: collected) middle.advance := by
  obtain ⟨opener, opens, behindOpener⟩ := behind.opener
  have notAtEnd : middle.token ≠ .eof := atComma.trans_ne (by decide)
  refine ⟨⟨.comma, .inr rfl, ?_⟩, fun entry isEntry isBare => ?_⟩
  · have passed := (behindOpener.pass parses).advance notAtEnd
    rwa [atComma] at passed
  · obtain rfl := Option.some.inj isEntry
    obtain ⟨atName, rfl⟩ := (tokens_of_paramEntry parses).1 isBare
    have behindName := behindOpener.advance (atName.trans_ne (by decide))
    have behindComma := behindName.advance notAtEnd
    rw [atName, atComma] at behindComma
    exact ⟨opener, opens, behindComma⟩

/-- A lone name stands in front of no variadic entry with a name. -/
theorem apart
    {middle : Cursor P}
    (behind : BehindEntries text collected state.cursor)
    (noneShares : ¬SharesDots text)
    (parses : Parses limit paramEntry state entry middle) :
    ∀ before ∈ collected.head?, before.isBare = true -> entry.isNamedVariadic = false := by
  intro before isBefore isBare
  by_contra isVariadic
  obtain ⟨atName, atDots, atType⟩ := (tokens_of_paramEntry parses).2 (Bool.not_eq_false _ ▸ isVariadic)
  simp only [List.mem_cons, List.not_mem_nil, or_false, not_or] at atType
  obtain ⟨notComma, notParen, notAtEnd⟩ := atType
  obtain ⟨opener, opens, behindComma⟩ := behind.bare before isBefore isBare
  have behindName := behindComma.advance (atName.trans_ne (by decide))
  have behindDots := behindName.advance (atDots.trans_ne (by decide))
  have behindType := behindDots.advance notAtEnd
  rw [atName, atDots] at behindType
  exact noneShares ⟨opener, _, opens, notComma, notParen,
    (List.prefix_append _ _).isInfix.trans behindType.isInfix⟩

end BehindEntries

/-- What is taken for another item is read in front of a comma or at the end of a list. -/
theorem exists_of_itemsStep
    {α : Type}
    {closer : Token}
    {item : Production P α}
    {values : List α}
    {next : List α × Bool}
    (parses : Parses limit (itemsStep closer item (values, more)) state (some next) final) :
    more = true ∧ ∃ value middle, Parses limit item state value middle ∧ next.1 = value :: values
      ∧ (next.2 = true -> middle.token = .comma ∧ final = middle.advance) := by
  rw [itemsStep, parses_bind_look] at parses
  split at parses
  · next goesOn =>
    obtain ⟨_, _, isItem, done⟩ := parses_bind.1 parses
    obtain ⟨value, middle, isValue, isNext⟩ := parses_bind.1 isItem
    obtain ⟨comma, _, isComma, paired⟩ := parses_bind.1 isNext
    obtain ⟨rfl, rfl⟩ := parses_pure.1 paired
    obtain ⟨isSome, rfl⟩ := parses_pure.1 done
    obtain rfl := Option.some.inj isSome
    refine ⟨?_, value, middle, isValue, rfl, fun isMore => ?_⟩
    · exact (Bool.and_eq_true_iff.1 goesOn).1
    · rw [parses_eat?] at isComma
      split at isComma
      · next atComma => exact ⟨atComma, isComma.2⟩
      · rw [isComma.1] at isMore
        cases isMore
  · exact nomatch (parses_pure.1 parses).1

/-- Entries that are read of a text in which no names share a variadic type. -/
theorem apart_of_repeats
    (noneShares : ¬SharesDots text)
    (repeats : Repeats limit (itemsStep .rParen paramEntry) state (collected, more) (result, last) final)
    (behind : more = true -> BehindEntries text collected state.cursor)
    (apart : ParamEntry.Apart collected.reverse) :
    ParamEntry.Apart result.reverse := by
  generalize startEq : (collected, more) = start at repeats
  generalize resultEq : (result, last) = reached at repeats
  induction repeats generalizing collected more with
  | stop =>
      obtain ⟨rfl, rfl⟩ := Prod.mk.inj (startEq.trans resultEq.symm)
      exact apart
  | more first _ inductionHypothesis =>
      subst startEq
      obtain ⟨isMore, entry, middle, parses, isNext, goesOn⟩ := exists_of_itemsStep first
      have behindHere := behind isMore
      refine inductionHypothesis (fun isMore => ?_) ?_ (Prod.ext isNext.symm rfl) resultEq
      · obtain ⟨atComma, rfl⟩ := goesOn isMore
        exact behindHere.step parses atComma
      · rw [ParamEntry.Apart, List.isChain_reverse] at apart ⊢
        exact apart.cons (behindHere.apart noneShares parses)

end Production

namespace Tree

/-- In a parameter list each variadic parameter declares one name at most. -/
def dotsAlone : PhraseProperty P where
  holds
    | _, params _ entries _ => ∀ entry ∈ entries.toList, entry.DotsAlone
    | _, _ => True
  ordinary := by
    intro slot tree ordinary
    cases tree with
    | params _ _ _ => cases ordinary
    | _ => trivial

theorem dotsAlone_of_unwitnessed
    {slot : Slot}
    (tree : Tree P slot)
    (unwitnessed : tree.isWitnessed = false) :
    dotsAlone.holds tree := by
  cases tree with
  | params => cases unwitnessed
  | _ => trivial

/-- The variadic parameters of a list that is read of a text declare one name at most if no names share a
variadic type there. -/
theorem dotsAlone_of_params
    {limit : Nat}
    {text : List (Lexeme P)}
    {state : ReadState P}
    {variadic : Bool}
    {tree : Tree P (.one .params)}
    {final : Cursor P}
    (noneShares : ¬SharesDots text)
    (isSuffix : state.cursor.ahead <:+ text)
    (parses : Production.Parses limit (Production.params variadic) state tree final) :
    dotsAlone.holds tree := by
  rw [Production.params_eq, Production.parses_inHeader] at parses
  obtain ⟨lParen, _, opens, parses⟩ := Production.parses_bind.1 parses
  obtain ⟨entries, middle, items, parses⟩ := Production.parses_bind.1 parses
  obtain ⟨atParen, -, rfl⟩ := Production.parses_mark.1 opens
  obtain ⟨more, repeats⟩ := Production.parses_itemsUntil.1 items
  have behind : Production.Behind text [Token.lParen] state.cursor.advance := by
    have behind : Production.Behind text [] (state.place false).cursor := isSuffix.map _
    have advanced := behind.advance (atParen.trans_ne (by decide))
    rwa [atParen] at advanced
  have behindEntries : Production.BehindEntries text [] state.cursor.advance :=
    ⟨⟨.lParen, .inl rfl, behind⟩, by rintro _ ⟨⟩⟩
  have apart := Production.apart_of_repeats noneShares repeats (fun _ => behindEntries) .nil
  rw [List.reverse_reverse] at apart
  cases resolved : Production.ParamEntry.resolve variadic entries with
  | error cause =>
      rw [resolved] at parses
      exact absurd parses Production.not_parses_refuse
  | ok params =>
      rw [resolved] at parses
      obtain ⟨rParen, _, -, done⟩ := Production.parses_bind.1 parses
      obtain ⟨rfl, -⟩ := Production.parses_pure.1 done
      change ∀ entry ∈ (ofList params).toList, entry.DotsAlone
      rw [toList_ofList]
      exact Production.ParamEntry.dotsAlone_of_resolve resolved apart

/-- Only the last parameter of a list is variadic, and none in a receiver or among results. -/
def DotsLast : {slot : Slot} -> Tree P slot -> Prop
  | _, params _ entries _ => ∀ entry ∈ entries.toList.dropLast, entry.isVariadicParam = false
  | _, resultParams results => ∀ entry ∈ results.entries, entry.isVariadicParam = false
  | _, methodDecl _ receiver .. => ∀ entry ∈ receiver.entries, entry.isVariadicParam = false
  | _, _ => True

theorem Fits.dotsLast
    {slot : Slot}
    {tree : Tree P slot}
    (fits : tree.Fits) :
    tree.DotsLast := by
  cases tree with
  | params => exact fits.2
  | resultParams | methodDecl => exact fits
  | _ => trivial

end Tree

/-! ## Whole texts -/

/-- Parameter lists are witnessed to keep dots alone where no names share a variadic type. -/
def Thinning.dotsAlone
    (limit : Nat)
    {text : List (Lexeme P)}
    (regular : ∀ lexeme ∈ text, lexeme.Regular)
    (noneShares : ¬SharesDots text) : Thinning P :=
  .witnessing limit regular Tree.dotsAlone Tree.dotsAlone_of_unwitnessed
    (Tree.dotsAlone_of_params noneShares) fun _ _ => trivial

/-- Only the last parameter is variadic. In every text that is read without complaints at most one parameter
of each list is declared with an ellipsis; it is the last one, and the list is neither a receiver nor a list
of results. It declares one name at most, unless a lone name stands directly in front of a name and an
ellipsis in the text and so becomes another name of a variadic parameter. -/
theorem only_last_param_is_variadic
    (limit : Nat)
    (source : String)
    (filename : Option String) :
    (∀ file, (parseFileWithin limit source filename).Accepts file ->
        ∀ (slot : Slot) (node : Tree Position slot), file.Has node ->
          node.DotsLast
            ∧ (¬SharesDots (lex source filename).significant -> Tree.dotsAlone.holds node))
      ∧ ∀ decl, (parseDeclWithin limit source filename).Accepts decl ->
        ∀ (slot : Slot) (node : Tree Position slot), Tree.Occurs node decl ->
          node.DotsLast
            ∧ (¬SharesDots (lex source filename).significant -> Tree.dotsAlone.holds node) := by
  have regular := regular_of_mem_significant source filename
  constructor
  · intro file accepted slot node has
    have wellFormed := wellFormed_of_returned_file accepted.returned
    refine ⟨(wellFormed.sound_of_has has).fits.dotsLast, fun noneShares => ?_⟩
    exact (Thinning.dotsAlone limit regular noneShares).holds_of_file rfl accepted has
  · intro decl accepted slot node occurs
    have wellFormed := wellFormed_of_returned_decl accepted.returned
    refine ⟨(wellFormed.sound_of_occurs occurs).fits.dotsLast, fun noneShares => ?_⟩
    exact (Thinning.dotsAlone limit regular noneShares).holds_of_decl rfl accepted occurs

/-- A function with a variadic parameter of one name that passes it on. -/
theorem only_last_param_is_variadic_passed_on :
    (∃ file, (parseFileWithin 9 "package p\nfunc f(a, b int, c ...int) \x7b g(a, c...) \x7d" none).Accepts file
        ∧ ∀ (slot : Slot) (node : Tree Position slot), file.Has node ->
          node.DotsLast ∧ Tree.dotsAlone.holds node)
      ∧ ∃ decl, (parseDeclWithin 9 "func f(a, b int, c ...int) \x7b g(a, c...) \x7d" none).Accepts decl
        ∧ ∀ (slot : Slot) (node : Tree Position slot), Tree.Occurs node decl ->
          node.DotsLast ∧ Tree.dotsAlone.holds node := by
  have declTokens : (lex "func f(a, b int, c ...int) \x7b g(a, c...) \x7d" none).significant.map Lexeme.token
      = [.kwFunc, .ident, .lParen, .ident, .comma, .ident, .ident, .comma, .ident, .ellipsis, .ident, .rParen,
        .lBrace, .ident, .lParen, .ident, .comma, .ident, .ellipsis, .rParen, .rBrace, .semi] := by
    decide +kernel
  have fileTokens : (lex "package p\nfunc f(a, b int, c ...int) \x7b g(a, c...) \x7d"
      none).significant.map Lexeme.token = .kwPackage :: .ident :: .semi
        :: (lex "func f(a, b int, c ...int) \x7b g(a, c...) \x7d" none).significant.map Lexeme.token := by
    decide +kernel
  have noneShares :
      ¬SharesDots (lex "func f(a, b int, c ...int) \x7b g(a, c...) \x7d" none).significant := by
    rintro ⟨opener, next, rfl | rfl, notComma, notParen, inText⟩ <;>
      simp [declTokens, List.infix_cons_iff, notParen] at inText
  have noneSharesFile : ¬SharesDots
      (lex "package p\nfunc f(a, b int, c ...int) \x7b g(a, c...) \x7d" none).significant := by
    rintro ⟨opener, next, rfl | rfl, notComma, notParen, inText⟩ <;>
      simp [fileTokens, declTokens, List.infix_cons_iff, notParen] at inText
  obtain ⟨file, accepted⟩ : ∃ file, (parseFileWithin 9
      "package p\nfunc f(a, b int, c ...int) \x7b g(a, c...) \x7d" none).Accepts file := ⟨_, rfl, rfl⟩
  obtain ⟨decl, declAccepted⟩ : ∃ decl, (parseDeclWithin 9
      "func f(a, b int, c ...int) \x7b g(a, c...) \x7d" none).Accepts decl := ⟨_, rfl, rfl⟩
  refine ⟨⟨file, accepted, fun slot node has => ?_⟩, decl, declAccepted, fun slot node occurs => ?_⟩
  · have known := (only_last_param_is_variadic 9 _ none).1 file accepted slot node has
    exact ⟨known.1, known.2 noneSharesFile⟩
  · have known := (only_last_param_is_variadic 9 _ none).2 decl declAccepted slot node occurs
    exact ⟨known.1, known.2 noneShares⟩

/-- Two names share a variadic type. -/
theorem names_share_dots :
    ∃ file, (parseFileWithin 100 "package p\nfunc f(a, b ...int) \x7b\x7d\n" none).Accepts file
      ∧ ∃ lParen entry rParen, file.Has (.params lParen (.cons entry .nil) rParen)
        ∧ entry.isVariadicParam = true ∧ entry.paramNames.length = 2 := by
  obtain ⟨file, accepted, has⟩ : ∃ file,
      (parseFileWithin 100 "package p\nfunc f(a, b ...int) \x7b\x7d\n" none).Accepts file
        ∧ file.Has (.params ⟨.lParen, ⟨16, 2, none⟩⟩ (.cons (.param
          (some [⟨"a", ⟨17, 2, none⟩⟩, ⟨"b", ⟨20, 2, none⟩⟩]) (some ⟨.ellipsis, ⟨22, 2, none⟩⟩)
            (.namedType (.typeName none ⟨"int", ⟨25, 2, none⟩⟩ .absent))) .nil) ⟨.rParen, ⟨28, 2, none⟩⟩) :=
    ⟨_, ⟨rfl, rfl⟩,
      .inr (.inside (.head _) (.inside (.tail _ (.head _)) (.inside (.head _) (.refl _))))⟩
  exact ⟨file, accepted, _, _, _, has, rfl, rfl⟩

end GoFront
