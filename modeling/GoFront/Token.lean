/-!
# Tokens

The terminal symbols of the language. Identifiers, literals and comments keep their text beside the
token; every other token has one fixed spelling. The constructors stand in groups: identifiers and
literals, keywords, operators and punctuation, comments, end of input. Several classes of tokens are
intervals of that order.
-/

namespace GoFront

/-- The kinds of lexeme. -/
inductive Token
  -- identifiers and basic literals
  | ident | intLit | floatLit | imagLit | runeLit | stringLit | rawStringLit
  -- keywords
  | kwBreak | kwCase | kwChan | kwConst | kwContinue | kwDefault
  | kwDefer | kwElse | kwFallthrough | kwFor | kwFunc | kwGo
  | kwGoto | kwIf | kwImport | kwInterface | kwMap | kwPackage
  | kwRange | kwReturn | kwSelect | kwStruct | kwSwitch | kwType
  | kwVar
  -- arithmetic and bitwise operators
  | plus | minus | star | slash | percent | amp
  | pipe | caret | shl | shr | andNot
  -- assignment operators
  | addAssign | subAssign | mulAssign | divAssign | modAssign | andAssign
  | orAssign | xorAssign | shlAssign | shrAssign | andNotAssign
  -- logical operators and comparisons
  | lAnd | lOr | bang | eqEq | notEq | lt
  | le | gt | ge
  -- other operators
  | assign | define | inc | dec | arrow | ellipsis | tilde
  -- punctuation
  | lParen | rParen | lBrack | rBrack | lBrace | rBrace
  | semi | colon | comma | dot
  -- comments
  | lineComment | blockComment
  -- end of input
  | eof
  deriving DecidableEq, Repr

/-- How tightly a binary operator binds, loosest first. `none` marks a token that is no binary
operator. -/
inductive Precedence
  | none | or | and | equality | term | factor | unary
  deriving DecidableEq, Repr

namespace Precedence

/-- The place of a level among all levels, loosest first. -/
def rank (precedence : Precedence) : Nat := precedence.ctorIdx

/-- The next tighter level; the tightest is its own successor. -/
def next : Precedence -> Precedence
  | .none => .or
  | .or => .and
  | .and => .equality
  | .equality => .term
  | .term => .factor
  | .factor | .unary => .unary

/-- The name of a level. -/
def name : Precedence -> String
  | .none => "None"
  | .or => "Or"
  | .and => "And"
  | .equality => "Equality"
  | .term => "Term"
  | .factor => "Factor"
  | .unary => "Unary"

end Precedence

namespace Token

/-- The keywords in alphabetical order. -/
def keywords : List Token :=
  [ .kwBreak, .kwCase, .kwChan, .kwConst, .kwContinue, .kwDefault, .kwDefer,
    .kwElse, .kwFallthrough, .kwFor, .kwFunc, .kwGo, .kwGoto, .kwIf,
    .kwImport, .kwInterface, .kwMap, .kwPackage, .kwRange, .kwReturn, .kwSelect,
    .kwStruct, .kwSwitch, .kwType, .kwVar ]

/-- Operators and punctuation, longer spellings before shorter ones, so that the first spelling
which starts a text is also the longest. -/
def operators : List Token :=
  [ .shlAssign, .shrAssign, .andNotAssign, .ellipsis, .shl, .shr, .andNot, .addAssign,
    .subAssign, .mulAssign, .divAssign, .modAssign, .andAssign, .orAssign, .xorAssign, .lAnd,
    .lOr, .eqEq, .notEq, .le, .ge, .define, .inc, .dec,
    .arrow, .plus, .minus, .star, .slash, .percent, .amp, .pipe,
    .caret, .bang, .lt, .gt, .assign, .tilde, .lParen, .rParen,
    .lBrack, .rBrack, .lBrace, .rBrace, .semi, .colon, .comma, .dot ]

/-- Every token, in order. -/
def all : List Token :=
  [ .ident, .intLit, .floatLit, .imagLit, .runeLit, .stringLit, .rawStringLit, .kwBreak,
    .kwCase, .kwChan, .kwConst, .kwContinue, .kwDefault, .kwDefer, .kwElse, .kwFallthrough,
    .kwFor, .kwFunc, .kwGo, .kwGoto, .kwIf, .kwImport, .kwInterface, .kwMap,
    .kwPackage, .kwRange, .kwReturn, .kwSelect, .kwStruct, .kwSwitch, .kwType, .kwVar,
    .plus, .minus, .star, .slash, .percent, .amp, .pipe, .caret,
    .shl, .shr, .andNot, .addAssign, .subAssign, .mulAssign, .divAssign, .modAssign,
    .andAssign, .orAssign, .xorAssign, .shlAssign, .shrAssign, .andNotAssign, .lAnd, .lOr,
    .bang, .eqEq, .notEq, .lt, .le, .gt, .ge, .assign,
    .define, .inc, .dec, .arrow, .ellipsis, .tilde, .lParen, .rParen,
    .lBrack, .rBrack, .lBrace, .rBrace, .semi, .colon, .comma, .dot,
    .lineComment, .blockComment, .eof ]

/-- The place of a token among all tokens, from zero. -/
def index (token : Token) : Nat := token.ctorIdx

/-- Whether a token is a reserved word. -/
def isKeyword (token : Token) : Bool :=
  kwBreak.index ≤ token.index && token.index ≤ kwVar.index

/-- Whether a token is an operator or punctuation. -/
def isOperator (token : Token) : Bool :=
  plus.index ≤ token.index && token.index ≤ dot.index

/-- Whether a token is an identifier or a basic literal. -/
def isLiteral (token : Token) : Bool :=
  token.index ≤ rawStringLit.index

/-- Whether a token is a comment. -/
def isComment : Token -> Bool
  | lineComment | blockComment => true
  | _ => false

/-- Whether a line break after the token ends the statement. -/
def endsStatement : Token -> Bool
  | ident | intLit | floatLit | imagLit | runeLit | stringLit | rawStringLit
  | kwBreak | kwContinue | kwFallthrough | kwReturn
  | inc | dec | rParen | rBrack | rBrace => true
  | _ => false

/-- Whether a token assigns: plain assignment or assignment combined with an operator. -/
def isAssignOp : Token -> Bool
  | assign | addAssign | subAssign | mulAssign | divAssign | modAssign
  | andAssign | orAssign | xorAssign | shlAssign | shrAssign | andNotAssign => true
  | _ => false

/-- Whether a token can stand before its only operand. -/
def isUnaryOp : Token -> Bool
  | plus | minus | bang | caret | star | amp | arrow => true
  | _ => false

/-- Whether a token starts a declaration for the purpose of resuming after an error. -/
def startsDecl : Token -> Bool
  | kwStruct | kwFunc | kwVar | kwConst | kwType => true
  | _ => false

/-- Whether a token starts a statement for the purpose of resuming after an error. -/
def startsStmt : Token -> Bool
  | kwIf | kwFor | kwReturn | kwSwitch | kwSelect | kwGo | kwDefer => true
  | _ => false

/-- How tightly a token binds as a binary operator. -/
def precedence : Token -> Precedence
  | lOr => .or
  | lAnd => .and
  | eqEq | notEq | lt | le | gt | ge => .equality
  | plus | minus | pipe | caret => .term
  | star | slash | percent | shl | shr | amp | andNot => .factor
  | _ => .none

/-- The spelling of a fixed token, and a description of every other. -/
def spelling : Token -> String
  | ident => "identifier"
  | intLit => "integer literal"
  | floatLit => "float literal"
  | imagLit => "imaginary literal"
  | runeLit => "rune literal"
  | stringLit => "string literal"
  | rawStringLit => "string literal"
  | kwBreak => "break"
  | kwCase => "case"
  | kwChan => "chan"
  | kwConst => "const"
  | kwContinue => "continue"
  | kwDefault => "default"
  | kwDefer => "defer"
  | kwElse => "else"
  | kwFallthrough => "fallthrough"
  | kwFor => "for"
  | kwFunc => "func"
  | kwGo => "go"
  | kwGoto => "goto"
  | kwIf => "if"
  | kwImport => "import"
  | kwInterface => "interface"
  | kwMap => "map"
  | kwPackage => "package"
  | kwRange => "range"
  | kwReturn => "return"
  | kwSelect => "select"
  | kwStruct => "struct"
  | kwSwitch => "switch"
  | kwType => "type"
  | kwVar => "var"
  | plus => "+"
  | minus => "-"
  | star => "*"
  | slash => "/"
  | percent => "%"
  | amp => "&"
  | pipe => "|"
  | caret => "^"
  | shl => "<<"
  | shr => ">>"
  | andNot => "&^"
  | addAssign => "+="
  | subAssign => "-="
  | mulAssign => "*="
  | divAssign => "/="
  | modAssign => "%="
  | andAssign => "&="
  | orAssign => "|="
  | xorAssign => "^="
  | shlAssign => "<<="
  | shrAssign => ">>="
  | andNotAssign => "&^="
  | lAnd => "&&"
  | lOr => "||"
  | bang => "!"
  | eqEq => "=="
  | notEq => "!="
  | lt => "<"
  | le => "<="
  | gt => ">"
  | ge => ">="
  | assign => "="
  | define => ":="
  | inc => "++"
  | dec => "--"
  | arrow => "<-"
  | ellipsis => "..."
  | tilde => "~"
  | lParen => "("
  | rParen => ")"
  | lBrack => "["
  | rBrack => "]"
  | lBrace => "\x7b"
  | rBrace => "\x7d"
  | semi => ";"
  | colon => ":"
  | comma => ","
  | dot => "."
  | lineComment | blockComment => "comment"
  | eof => "EOF"

/-- The name of a token kind. -/
def name : Token -> String
  | ident => "Ident"
  | intLit => "IntLit"
  | floatLit => "FloatLit"
  | imagLit => "ImagLit"
  | runeLit => "RuneLit"
  | stringLit => "StringLit"
  | rawStringLit => "RawStringLit"
  | kwBreak => "KwBreak"
  | kwCase => "KwCase"
  | kwChan => "KwChan"
  | kwConst => "KwConst"
  | kwContinue => "KwContinue"
  | kwDefault => "KwDefault"
  | kwDefer => "KwDefer"
  | kwElse => "KwElse"
  | kwFallthrough => "KwFallthrough"
  | kwFor => "KwFor"
  | kwFunc => "KwFunc"
  | kwGo => "KwGo"
  | kwGoto => "KwGoto"
  | kwIf => "KwIf"
  | kwImport => "KwImport"
  | kwInterface => "KwInterface"
  | kwMap => "KwMap"
  | kwPackage => "KwPackage"
  | kwRange => "KwRange"
  | kwReturn => "KwReturn"
  | kwSelect => "KwSelect"
  | kwStruct => "KwStruct"
  | kwSwitch => "KwSwitch"
  | kwType => "KwType"
  | kwVar => "KwVar"
  | plus => "Plus"
  | minus => "Minus"
  | star => "Star"
  | slash => "Slash"
  | percent => "Percent"
  | amp => "Amp"
  | pipe => "Pipe"
  | caret => "Caret"
  | shl => "Shl"
  | shr => "Shr"
  | andNot => "AndNot"
  | addAssign => "AddAssign"
  | subAssign => "SubAssign"
  | mulAssign => "MulAssign"
  | divAssign => "DivAssign"
  | modAssign => "ModAssign"
  | andAssign => "AndAssign"
  | orAssign => "OrAssign"
  | xorAssign => "XorAssign"
  | shlAssign => "ShlAssign"
  | shrAssign => "ShrAssign"
  | andNotAssign => "AndNotAssign"
  | lAnd => "LAnd"
  | lOr => "LOr"
  | bang => "Bang"
  | eqEq => "EqEq"
  | notEq => "NotEq"
  | lt => "Lt"
  | le => "Le"
  | gt => "Gt"
  | ge => "Ge"
  | assign => "Assign"
  | define => "Define"
  | inc => "Inc"
  | dec => "Dec"
  | arrow => "Arrow"
  | ellipsis => "Ellipsis"
  | tilde => "Tilde"
  | lParen => "LParen"
  | rParen => "RParen"
  | lBrack => "LBrack"
  | rBrack => "RBrack"
  | lBrace => "LBrace"
  | rBrace => "RBrace"
  | semi => "Semi"
  | colon => "Colon"
  | comma => "Comma"
  | dot => "Dot"
  | lineComment => "LineComment"
  | blockComment => "BlockComment"
  | eof => "Eof"

/-- How a token is shown in a message: keywords and operators between quotes, all others by their
description. -/
def display (token : Token) : String :=
  if token.isKeyword || token.isOperator then s!"\"{token.spelling}\"" else token.spelling

/-- The keyword with a given spelling. -/
def keyword? (word : String) : Option Token :=
  keywords.find? fun token => token.spelling == word

/-- The token with a given name. -/
def ofName? (name : String) : Option Token :=
  all.find? fun token => token.name == name

end Token
end GoFront
