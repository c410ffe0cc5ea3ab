import GoFront.Proofs.Lexing.Munch

/-!
# Between quotes

What stands between the quotes of a literal does not close it: a raw string holds no quote of its own, and
in an interpreted string or a rune there is no line break, and every quote stands behind a backslash. The
quote that closes the literal is not escaped.
-/

namespace GoFront

open Text

/-! ## Escaped characters -/

/-- The characters of a text that are not escaped. A backslash escapes the character behind it, and both
are left out. -/
def unescaped : List Char -> List Char
  | [] => []
  | [last] => [last]
  | first :: second :: rest =>
      if first = '\\' then unescaped rest else first :: unescaped (second :: rest)

theorem unescaped_cons
    {first : Char}
    (notBackslash : first ≠ '\\')
    (rest : List Char) :
    unescaped (first :: rest) = first :: unescaped rest := by
  cases rest with
  | nil => rfl
  | cons second rest => rw [unescaped, if_neg notBackslash]

theorem unescaped_escape
    (escaped : Char)
    (rest : List Char) :
    unescaped ('\\' :: escaped :: rest) = unescaped rest := by
  rw [unescaped, if_pos rfl]

theorem unescaped_append
    {front : List Char}
    (noBackslash : '\\' ∉ front)
    (rest : List Char) :
    unescaped (front ++ rest) = front ++ unescaped rest := by
  induction front with
  | nil => rfl
  | cons first front inductionHypothesis =>
      rw [List.mem_cons, not_or] at noBackslash
      rw [List.cons_append, unescaped_cons (Ne.symm noBackslash.1), inductionHypothesis noBackslash.2,
        List.cons_append]

section

variable {quote : Char} {text : List Char}

/-- No digit has a meaning of its own between quotes. -/
theorem plain_of_isDigitOf
    {base : Base}
    {digit : Char}
    (isQuote : IsQuote quote)
    (isDigit : isDigitOf base digit = true) :
    digit ∉ ['\n', '\\', quote] := by
  have noDigit : ['\n', '\\', quote].all (!isDigitOf base ·) = true := by
    rcases isQuote with rfl | rfl <;> cases base <;> decide
  intro member
  have differs := List.all_eq_true.1 noDigit digit member
  rw [isDigit] at differs
  cases differs

/-- Behind its first character an escape has digits at most. -/
theorem EscapeLit.exists_cons
    (isQuote : IsQuote quote)
    (isEscape : EscapeLit quote text) :
    ∃ first rest, text = first :: rest
      ∧ first ≠ '\n'
      ∧ ∀ digit ∈ rest, digit ∉ ['\n', '\\', quote] := by
  have plain {base : Base} {digits : List Char}
      (areDigits : ∀ digit ∈ digits, isDigitOf base digit = true) :
      ∀ digit ∈ digits, digit ∉ ['\n', '\\', quote] :=
    fun digit member => plain_of_isDigitOf isQuote (areDigits digit member)
  cases isEscape with
  | letter isLetter =>
      refine ⟨_, [], rfl, ?_, nofun⟩
      rintro rfl
      exact absurd isLetter (by decide)
  | quote =>
      refine ⟨_, [], rfl, ?_, nofun⟩
      rcases isQuote with rfl | rfl <;> decide
  | octal isLength areDigits =>
      obtain ⟨first, rest, rfl⟩ := List.exists_cons_of_length_eq_add_one isLength
      obtain ⟨isFirst, areRest⟩ := List.forall_mem_cons.1 (plain areDigits)
      exact ⟨first, rest, rfl, fun isBreak => isFirst (by simp [isBreak]), areRest⟩
  | byte _ areDigits | short _ areDigits _ | long _ areDigits _ =>
      exact ⟨_, _, rfl, by decide, plain areDigits⟩

/-! ## Bodies of literals -/

/-- What stands between two of the given quotes without ending there: no line break, and no quote that is
not escaped. The second quote is not escaped either. -/
structure Enclosed (quote : Char) (body : List Char) : Prop where
  noBreak : '\n' ∉ body
  quotesEscaped : quote ∉ unescaped body
  closes : unescaped (body ++ [quote]) = unescaped body ++ [quote]

/-- Of each unit some characters are not escaped, and none of them is the quote. -/
theorem QuotedUnit.exists_unescaped
    (isQuote : IsQuote quote)
    (isUnit : QuotedUnit quote text) :
    '\n' ∉ text ∧ ∃ kept, quote ∉ kept ∧ ∀ rest, unescaped (text ++ rest) = kept ++ unescaped rest := by
  cases isUnit with
  | @plain character isPlain =>
      simp only [List.mem_cons, List.not_mem_nil, or_false, not_or] at isPlain
      obtain ⟨noBreak, noBackslash, noQuote⟩ := isPlain
      exact ⟨by simpa using Ne.symm noBreak, [character], by simpa using Ne.symm noQuote,
        unescaped_cons noBackslash⟩
  | escape isEscape =>
      obtain ⟨first, digits, rfl, noBreak, arePlain⟩ := isEscape.exists_cons isQuote
      have noneOf {other : Char} (special : other ∈ ['\n', '\\', quote]) : other ∉ digits :=
        fun member => arePlain other member special
      refine ⟨?_, digits, noneOf (by simp), fun rest => ?_⟩
      · simp only [List.mem_cons, not_or]
        exact ⟨by decide, Ne.symm noBreak, noneOf (by simp)⟩
      · rw [List.cons_append, List.cons_append, unescaped_escape, unescaped_append (noneOf (by simp))]

/-- What the grammar allows between quotes is enclosed by them. -/
theorem QuotedUnits.enclosed
    {count : Nat}
    (isQuote : IsQuote quote)
    (units : QuotedUnits quote count text) :
    Enclosed quote text := by
  have isUnescaped : '\n' ∉ text
      ∧ ∃ kept, quote ∉ kept ∧ ∀ rest, unescaped (text ++ rest) = kept ++ unescaped rest := by
    induction units with
    | none => exact ⟨nofun, [], nofun, fun _ => rfl⟩
    | next isUnit _ inductionHypothesis =>
        obtain ⟨noBreak, kept, noQuote, keptEq⟩ := isUnit.exists_unescaped isQuote
        obtain ⟨restBreak, restKept, restQuote, restEq⟩ := inductionHypothesis
        refine ⟨by simp [noBreak, restBreak], kept ++ restKept, by simp [noQuote, restQuote], ?_⟩
        intro rest
        rw [List.append_assoc, keptEq, restEq, List.append_assoc]
  obtain ⟨noBreak, kept, noQuote, keptEq⟩ := isUnescaped
  have bodyEq : unescaped text = kept := by simpa [unescaped] using keptEq []
  exact ⟨noBreak, bodyEq ▸ noQuote, by rw [keptEq, bodyEq]; rfl⟩

end

/-! ## Literals of a text -/

namespace Piece

/-- The tokens of literals that stand in quotes. -/
def quotedTokens : List Token := [.stringLit, .runeLit, .rawStringLit]

/-- A piece is told by the rules of literals: if its token is that of a literal in quotes, its text is such
a literal. -/
def ToldByQuotes (piece : Piece) : Prop :=
  ∀ token ∈ quotedTokens, piece.kind = .token token -> QuotedLit token piece.text

theorem ToldByQuotes.of_token
    {piece : Piece}
    {token : Token}
    (kindEq : piece.kind = .token token)
    (isOther : token ∉ quotedTokens) :
    piece.ToldByQuotes := by
  intro quoted isQuoted quotedEq
  obtain rfl : token = quoted := PieceKind.token.inj (kindEq.symm.trans quotedEq)
  exact absurd isQuoted isOther

theorem ToldByQuotes.of_noToken
    {piece : Piece}
    (noToken : ∀ token, piece.kind ≠ .token token) :
    piece.ToldByQuotes :=
  fun token _ kindEq => absurd kindEq (noToken token)

theorem ToldByQuotes.ofFault
    {token : Token}
    {text : List Char}
    {fault : Option LexCause}
    (isLiteral : fault = none -> token ∈ quotedTokens -> QuotedLit token text) :
    (ofFault? token text fault).ToldByQuotes := by
  cases fault with
  | none =>
      intro quoted isQuoted quotedEq
      obtain rfl : token = quoted := PieceKind.token.inj quotedEq
      exact isLiteral rfl isQuoted
  | some cause => exact .of_noToken fun _ kindEq => by cases kindEq

/-- A literal in quotes is cut as one. -/
theorem toldByQuotes_cut (first : Char) (rest : List Char) : (cut first rest).ToldByQuotes := by
  refine cut_cases (motive := fun _ _ piece => piece.ToldByQuotes)
    ?mark ?newline ?blank ?line ?block ?word ?number ?raw ?string ?rune ?operator first rest
  case mark | newline => exact fun _ => .of_noToken fun _ kindEq => by cases kindEq
  case blank => exact fun _ _ _ => .of_noToken fun _ kindEq => by cases kindEq
  case line => exact fun _ => .of_token rfl (by decide)
  case block =>
    intro rest
    unfold blockComment
    split
    · exact .of_token rfl (by decide)
    · exact .of_noToken fun _ kindEq => by cases kindEq
  case word =>
    intro first rest isWord token isQuoted kindEq
    have apart : ∀ word ∈ Token.ident :: Token.keywords, word ∉ quotedTokens := by decide
    exact absurd isQuoted (apart token (mem_of_word kindEq))
  case number =>
    intro first rest starts
    refine .ofFault fun _ isQuoted => absurd isQuoted ?_
    unfold Number.token
    split_ifs <;> decide
  case raw =>
    intro rest
    simp only [rawString]
    split
    · intro token isQuoted kindEq
      obtain rfl := PieceKind.token.inj kindEq
      refine .raw fun member => ?_
      simpa using List.mem_takeWhile_imp member
    · exact .of_noToken fun _ kindEq => by cases kindEq
  case string =>
    intro rest
    refine .ofFault fun faultless _ => ?_
    obtain ⟨body, textEq, units⟩ := exists_units_of_fault? (.inl rfl) faultless
    rw [textEq]
    exact .interpreted units
  case rune =>
    intro rest
    refine .ofFault fun faultless _ => ?_
    obtain ⟨noFault, single⟩ := (Quoted.runeFault?_eq_none_iff _).1 faultless
    obtain ⟨body, textEq, units⟩ := exists_units_of_fault? (.inr rfl) noFault
    rw [textEq]
    exact .rune (single ▸ units)
  case operator =>
    intro first rest token isQuoted kindEq
    have apart : ∀ operator ∈ Token.operators, operator ∉ quotedTokens := by decide
    exact absurd isQuoted (apart token (List.mem_of_find?_eq_some (operator_eq_of_token kindEq).1))

/-- The pieces of a text that are literals in quotes are literals of the grammar. -/
theorem quotedLit_of_mem_all
    {text : List Char}
    {piece : Piece}
    {token : Token}
    (member : piece ∈ all text)
    (isQuoted : token ∈ quotedTokens)
    (kindEq : piece.kind = .token token) :
    QuotedLit token piece.text := by
  induction text using all_induction with
  | nil => cases member
  | cons first rest tail after cutEq restEq inductionHypothesis =>
      rw [all_cons first rest tail after cutEq restEq] at member
      rcases List.mem_cons.1 member with rfl | member
      · exact toldByQuotes_cut first rest token isQuoted kindEq
      · exact inductionHypothesis member

end Piece

/-- The lexemes of a source that are literals in quotes have literals of the grammar for their texts. -/
theorem quotedLit_of_mem_lexemes
    {source : String}
    {filename : Option String}
    {lexeme : Lexeme Position}
    (member : lexeme ∈ (lex source filename).lexemes)
    (isQuoted : lexeme.token ∈ Piece.quotedTokens) :
    ∃ literal, lexeme.literal = some literal ∧ QuotedLit lexeme.token literal.toList := by
  rw [lex_lexemes] at member
  obtain ⟨entry, inEntries, rfl⟩ := List.mem_map.1 member
  rcases Piece.cases_of_mem_entryStream inEntries with
    ⟨pos, rfl⟩ | ⟨piece, isPiece, token, pos, kindEq, rfl⟩
  · exact absurd isQuoted (show Token.semi ∉ Piece.quotedTokens by decide)
  · have isQuoted : token ∈ Piece.quotedTokens := isQuoted
    have keepsText : token.isLiteral = true :=
      (by decide : ∀ token ∈ Piece.quotedTokens, token.isLiteral = true) token isQuoted
    refine ⟨String.ofList piece.text, ?_, ?_⟩
    · simp [Entry.ofToken, Piece.lexeme, Lexeme.map, keepsText]
    · rw [String.toList_ofList]
      exact Piece.quotedLit_of_mem_all isPiece isQuoted kindEq

end GoFront
