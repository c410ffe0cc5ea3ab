import GoFront.Proofs.Forms.Closers
import GoFront.Proofs.Forms.Files
import GoFront.Proofs.Lexing.Delimiters
import GoFront.Proofs.Lexing.Spans

/-!
# Literals in trees

Whatever literal a tree holds, as an operand, as the path of an import or as the tag of a field, it is
there as it was written, its quotes included. Without its quotes it is what stands between them, and that
is cut out between characters.
-/

namespace GoFront

variable {P : Type}

/-! ## The literals of a tree -/

namespace Tree

/-- The literals that are leaves of a phrase itself. -/
def literals : {slot : Slot} -> Tree P slot -> List (BasicLit P)
  | _, basicLit literal => [literal]
  | _, namedField _ _ tag | _, embeddedField _ _ tag => tag.toList
  | _, importSpec _ path => [path]
  | _, _ => []

variable {slot inner : Slot}

theorem lexeme_mem_leaves
    {literals : List (BasicLit P)}
    {literal : BasicLit P}
    (before : List (Mention P))
    (member : literal ∈ literals) :
    literal.lexeme ∈ Mention.leaves (before ++ literals.map BasicLit.mention) := by
  rw [Mention.leaves_append]
  exact List.mem_append_right _ (List.mem_filterMap.2 ⟨_, List.mem_map_of_mem member, rfl⟩)

/-- A literal is one of the leaves of its phrase. -/
theorem mem_leaves_of_literals
    {tree : Tree P slot}
    {literal : BasicLit P}
    (member : literal ∈ tree.literals) :
    literal.lexeme ∈ tree.leaves := by
  cases tree with
  | basicLit other => exact lexeme_mem_leaves [] member
  | importSpec name path => exact lexeme_mem_leaves (name.map ImportName.mention).toList member
  | namedField names type tag =>
      have isTag : literal ∈ tag.toList := member
      have isLeaf := lexeme_mem_leaves (names.map Ident.mention ++ type.outline) isTag
      rwa [List.append_assoc, ← Option.toList_map] at isLeaf
  | embeddedField star type tag =>
      have isTag : literal ∈ tag.toList := member
      have isLeaf := lexeme_mem_leaves ((star.map Mark.mention).toList ++ type.outline) isTag
      rwa [List.append_assoc, ← Option.toList_map] at isLeaf
  | _ => cases member

/-- The leaves of a part of a tree are leaves of the tree. -/
theorem leaves_subset_of_occurs
    {tree : Tree P slot}
    {node : Tree P inner}
    (occurs : Occurs node tree) :
    node.leaves ⊆ tree.leaves := by
  induction occurs with
  | refl => exact List.Subset.refl _
  | inside isChild _ inductionHypothesis =>
      intro lexeme member
      refine List.Sublist.subset (told _) (List.mem_append_left _ ?_)
      exact List.mem_flatMap_of_mem isChild (inductionHypothesis member)

end Tree

/-- The leaves of a phrase of a file are leaves of the file. -/
theorem File.leaves_subset_of_has
    {slot : Slot}
    {file : File P}
    {node : Tree P slot}
    (has : file.Has node) :
    node.leaves ⊆ Mention.leaves file.outline := by
  intro lexeme member
  rw [File.outline, Mention.leaves_append, Mention.leaves_append]
  refine List.mem_append_right _ (List.mem_append.2 ?_)
  exact has.imp (Tree.leaves_subset_of_occurs · member) (Tree.leaves_subset_of_occurs · member)

/-! ## Quotes -/

namespace LitKind

/-- The quote of a kind of literal, if it has quotes. -/
def quote? : LitKind -> Option Char
  | string => some '"'
  | rune => some '\''
  | rawString => some '\x60'
  | int | float | imag => none

/-- Whether a stretch can stand between the quotes of a kind of literal. -/
def Encloses : LitKind -> List Char -> Prop
  | string, body => Enclosed '"' body
  | rune, body => Enclosed '\'' body
  | rawString, body => '\x60' ∉ body
  | int, _ | float, _ | imag, _ => False

theorem token_mem_quotedTokens
    {kind : LitKind}
    {quote : Char}
    (isQuoted : kind.quote? = some quote) :
    kind.token ∈ Piece.quotedTokens := by
  cases kind with
  | int | float | imag => cases isQuoted
  | string | rune | rawString => decide

/-- A literal of the grammar stands between two quotes of its kind. -/
theorem exists_body
    {kind : LitKind}
    {quote : Char}
    {text : List Char}
    (isQuoted : kind.quote? = some quote)
    (isLiteral : QuotedLit kind.token text) :
    ∃ body, text = quote :: body ++ [quote] ∧ kind.Encloses body := by
  cases kind with
  | int | float | imag => cases isQuoted
  | string =>
      obtain rfl := Option.some.inj isQuoted
      cases isLiteral with
      | interpreted units => exact ⟨_, rfl, units.enclosed (.inl rfl)⟩
  | rune =>
      obtain rfl := Option.some.inj isQuoted
      cases isLiteral with
      | rune unit => exact ⟨_, rfl, unit.enclosed (.inr rfl)⟩
  | rawString =>
      obtain rfl := Option.some.inj isQuoted
      cases isLiteral with
      | raw noQuote => exact ⟨_, rfl, noQuote⟩

end LitKind

namespace BasicLit

/-- A literal stands between the quotes of its kind, and without its quotes it is what stands between them:
the bytes of its text but for the first and the last. A literal of another kind has no quotes to leave
out. -/
structure Delimited (literal : BasicLit P) : Prop where
  quoted : ∀ quote ∈ literal.kind.quote?, ∃ body : List Char,
    literal.raw = String.ofList (quote :: body ++ [quote])
      ∧ literal.unquoted = String.ofList body
      ∧ 2 ≤ literal.raw.utf8ByteSize
      ∧ ((sourceBytes literal.raw).take (literal.raw.utf8ByteSize - 1)).drop 1
        = sourceBytes literal.unquoted
      ∧ literal.kind.Encloses body
  unquoted_of_noQuote : literal.kind.quote? = none -> literal.unquoted = literal.raw

theorem isQuoted_eq (kind : LitKind) : kind.isQuoted = kind.quote?.isSome := by
  cases kind <;> rfl

/-- A quote is a single byte. -/
theorem byteCount_quote
    {kind : LitKind}
    {quote : Char}
    (isQuoted : kind.quote? = some quote) :
    byteCount [quote] = 1 := by
  cases kind <;> cases isQuoted <;> rfl

/-- A literal of the grammar keeps its delimiters. -/
theorem delimited_of_quotedLit
    {literal : BasicLit P}
    (isLiteral : literal.kind.quote?.isSome -> QuotedLit literal.kind.token literal.raw.toList) :
    literal.Delimited := by
  refine ⟨fun quote isQuote => ?_, fun noQuote => ?_⟩
  · have isQuoted : literal.kind.quote?.isSome := Option.isSome_of_mem isQuote
    obtain ⟨body, textEq, encloses⟩ := LitKind.exists_body isQuote (isLiteral isQuoted)
    have rawEq : literal.raw = String.ofList (quote :: body ++ [quote]) := by
      rw [← textEq, String.ofList_toList]
    have sizeEq : literal.raw.utf8ByteSize = byteCount body + 2 := by
      have single := byteCount_quote isQuote
      rw [utf8ByteSize_eq_byteCount, textEq, ← List.singleton_append, byteCount_append,
        byteCount_append, single]
      omega
    have unquotedEq : literal.unquoted = String.ofList body := by
      rw [unquoted, isQuoted_eq, isQuoted, textEq, if_pos (by simp [sizeEq])]
      simp
    refine ⟨body, rawEq, unquotedEq, by omega, ?_, encloses⟩
    have bytesEq : sourceBytes literal.raw = bytesOf [quote] ++ (bytesOf body ++ bytesOf [quote]) := by
      rw [sourceBytes_eq_bytesOf, textEq, ← List.singleton_append, bytesOf_append, bytesOf_append,
        List.append_assoc]
    have openLength : (bytesOf [quote]).length = 1 := by rw [length_bytesOf, byteCount_quote isQuote]
    rw [bytesEq, unquotedEq, sourceBytes_eq_bytesOf, String.toList_ofList, sizeEq, ← List.append_assoc,
      List.take_left' (by rw [List.length_append, openLength, length_bytesOf]; omega),
      List.drop_left' openLength]
  · rw [unquoted, isQuoted_eq, noQuote]
    rfl

end BasicLit

/-- A literal that is a lexeme of a text keeps its delimiters. -/
theorem BasicLit.delimited_of_mem_significant
    {source : String}
    {filename : Option String}
    {literal : BasicLit Position}
    (member : literal.lexeme ∈ (lex source filename).significant) :
    literal.Delimited := by
  refine delimited_of_quotedLit fun isQuoted => ?_
  obtain ⟨quote, isQuote⟩ := Option.isSome_iff_exists.1 isQuoted
  obtain ⟨text, textEq, isLiteral⟩ := quotedLit_of_mem_lexemes (List.mem_filter.1 member).1
    (LitKind.token_mem_quotedTokens isQuote)
  obtain rfl : literal.raw = text := Option.some.inj textEq
  exact isLiteral

/-- Literals keep their delimiters. Every literal of a tree that is returned, with or without diagnostics,
stands between the quotes of its kind and holds nothing that would have ended it before, and without its
quotes it is what stands between them. -/
theorem literals_keep_delimiters
    (limit : Nat)
    (source : String)
    (filename : Option String) :
    (∀ file, (parseFileWithin limit source filename).tree = some file ->
        ∀ (slot : Slot) (node : Tree Position slot), file.Has node ->
          ∀ literal ∈ node.literals, literal.Delimited)
      ∧ ∀ decl, (parseDeclWithin limit source filename).tree = some decl ->
        ∀ (slot : Slot) (node : Tree Position slot), Tree.Occurs node decl ->
          ∀ literal ∈ node.literals, literal.Delimited := by
  refine ⟨fun file returned slot node has literal member => ?_,
    fun decl returned slot node occurs literal member => ?_⟩
  · refine BasicLit.delimited_of_mem_significant ((outline_of_returned_file returned).1.subset ?_)
    exact File.leaves_subset_of_has has (Tree.mem_leaves_of_literals member)
  · refine BasicLit.delimited_of_mem_significant ((outline_of_returned_decl returned).1.subset ?_)
    exact Tree.leaves_subset_of_occurs occurs (Tree.mem_leaves_of_literals member)

/-- The path of an import, with a letter of two bytes between its quotes. -/
theorem literals_keep_delimiters_path :
    ∃ file, (parseFileWithin 9 "package p\nimport \"é\"" none).tree = some file
      ∧ ∃ path : BasicLit Position, path.raw = "\"é\""
        ∧ file.Has (Tree.importSpec none path)
        ∧ path.Delimited := by
  have importsEq : (parseFileWithin 9 "package p\nimport \"é\"" none).tree.map File.imports
      = some (.cons (.specDecl .imports ⟨.kwImport, ⟨10, 2, none⟩⟩
          (.importSpec none ⟨.string, "\"é\"", ⟨17, 2, none⟩⟩)) .nil) := by
    rfl
  obtain ⟨file, returned, fileEq⟩ := Option.map_eq_some_iff.1 importsEq
  have has : file.Has (Tree.importSpec none ⟨.string, "\"é\"", ⟨17, 2, none⟩⟩) := by
    refine .inl ?_
    rw [fileEq]
    exact .inside (.head _) (.inside (.head _) (.refl _))
  have keeps := (literals_keep_delimiters 9 "package p\nimport \"é\"" none).1
  exact ⟨file, returned, _, rfl, has, keeps file returned _ _ has _ (.head _)⟩

end GoFront
