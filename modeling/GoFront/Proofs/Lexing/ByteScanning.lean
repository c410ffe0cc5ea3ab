import GoFront.Lexer.Piece

/-!
# Scanning bytes

A lexer that holds its text as bytes in UTF-8 finds the ends of literals and comments byte by byte. Every
step that could stop it is checked here: an offset or a stretch beyond the text, a number beyond its 32
bits, an end in front of what has been matched, a stop in the middle of a character.
-/

namespace GoFront

open Text

/-- What would stop a lexer that works on bytes. -/
inductive ByteFault
  | outOfRange
  | overflow
  | endBeforeStart
  | insideCharacter
  deriving DecidableEq, Repr

/-- A computation of which every step is checked. -/
abbrev Checked := Except ByteFault

/-- What succeeded is passed on. -/
@[simp] theorem Checked.ok_bind
    {α β : Type}
    (value : α)
    (next : α -> Checked β) :
    ((.ok value : Checked α) >>= next) = next value := rfl

namespace Bytes

/-! ## Checked steps -/

/-- Whether a byte continues a character that another one has begun. -/
def continues (byte : UInt8) : Bool :=
  byte &&& 0xC0 == 0x80

/-- Whether an offset lies between characters. -/
def isBoundary (bytes : List UInt8) (offset : Nat) : Bool :=
  match bytes[offset]? with
  | some byte => offset == 0 || !continues byte
  | none => offset == bytes.length

/-- The bytes from an offset on. -/
def tailFrom (bytes : List UInt8) (start : Nat) : Checked (List UInt8) :=
  if start ≤ bytes.length then .ok (bytes.drop start) else .error .outOfRange

/-- The bytes between two offsets. -/
def slice (bytes : List UInt8) (start stop : Nat) : Checked (List UInt8) :=
  if start ≤ stop && stop ≤ bytes.length then .ok ((bytes.take stop).drop start)
  else .error .outOfRange

/-- Moves a stop on by a number of bytes. -/
def bump (bytes : List UInt8) (stop count : Nat) : Checked Nat :=
  if bytes.length < stop + count then .error .outOfRange
  else if isBoundary bytes (stop + count) then .ok (stop + count)
  else .error .insideCharacter

/-- A number that is kept in 32 bits. -/
def within32 (value : Nat) : Checked Nat :=
  if value < UInt32.size then .ok value else .error .overflow

/-- How far a byte is above another one. -/
def above (byte least : UInt8) : Checked Nat :=
  if least ≤ byte then .ok (byte.toNat - least.toNat) else .error .overflow

/-- The byte of an ASCII character. -/
def ofChar (character : Char) : UInt8 :=
  character.toUInt8

/-- The character with the number of a byte. -/
def toChar (byte : UInt8) : Char :=
  Char.ofUInt8 byte

/-- The byte at an offset, and zero behind the text. -/
def byteAt (bytes : List UInt8) (offset : Nat) : UInt8 :=
  (bytes[offset]?).getD 0

/-! ## Literals between quotes -/

/-- Reads the digits of an escape from `done` on into their value. If a digit is missing, the bytes in
front of it are skipped. -/
def escapeDigits
    (rest : List UInt8)
    (base : Base)
    (start : Nat) : (left done value : Nat) -> Checked (Except Nat Nat)
  | 0, _, value => .ok (.ok value)
  | left + 1, done, value =>
      match (rest[start + done]?).bind fun byte => digitValue? base (toChar byte) with
      | some digit => do
          let product ← within32 (value * base.radix)
          let value ← within32 (product + digit)
          escapeDigits rest base start left (done + 1) value
      | none => .ok (.error (start + done))

/-- An escape of `count` digits behind `start` bytes that announce it. -/
def numericEscape
    (rest : List UInt8)
    (base : Base)
    (start count : Nat)
    (allowed : Nat -> Bool) : Checked (Except Nat Nat) := do
  match ← escapeDigits rest base start count 0 0 with
  | .ok value => .ok (if allowed value then .ok (start + count) else .error (start + count))
  | .error skipped => .ok (.error skipped)

/-- The number of bytes of the escape behind a backslash, or else of what is skipped of it. -/
def escapeLength (rest : List UInt8) (quote : UInt8) : Checked (Except Nat Nat) :=
  match rest.head? with
  | none => .ok (.error 0)
  | some first =>
      if (EscapeSequence.letters.map ofChar).contains first || first = quote then .ok (.ok 1)
      else if ofChar '0' ≤ first && first ≤ ofChar '7' then
        numericEscape rest .octal 0 3 (fun value => value ≤ 0xFF)
      else if first = ofChar 'x' then numericEscape rest .hexadecimal 1 2 (fun _ => true)
      else if first = ofChar 'u' then numericEscape rest .hexadecimal 1 4 EscapeSequence.isScalar
      else if first = ofChar 'U' then numericEscape rest .hexadecimal 1 8 EscapeSequence.isScalar
      else if first = ofChar '\n' then .ok (.error 0)
      else .ok (.error 1)

/-- Reads a literal on from an offset: how many bytes it has, and the number of its units or what is
wrong with it. -/
def quotedFrom
    (ahead : List UInt8)
    (quote : UInt8)
    (offset units : Nat)
    (badEscape : Bool) : Checked (Nat × Except LexCause Nat) :=
  match found : ahead[offset]? with
  | none => .ok (offset, .error .unterminatedString)
  | some byte =>
      if byte = quote then .ok (offset + 1, if badEscape then .error .invalidEscape else .ok units)
      else if byte = ofChar '\n' then .ok (offset, .error .unterminatedString)
      else if byte = ofChar '\\' then do
        let rest ← tailFrom ahead (offset + 1)
        match ← escapeLength rest quote with
        | .ok length => quotedFrom ahead quote (offset + (1 + length)) (units + 1) badEscape
        | .error skipped => quotedFrom ahead quote (offset + (1 + skipped)) (units + 1) true
      else quotedFrom ahead quote (offset + 1) (if continues byte then units else units + 1) badEscape
termination_by ahead.length - offset
decreasing_by
  all_goals
    have inRange := (List.getElem?_eq_some_iff.1 found).1
    omega

/-- Reads a literal whose opening quote has been matched. -/
def quoted
    (source : List UInt8)
    (quote : UInt8)
    (stop : Nat) : Checked (Nat × Except LexCause Nat) := do
  let ahead ← tailFrom source stop
  let (length, outcome) ← quotedFrom ahead quote 0 0 false
  let stop ← bump source stop length
  .ok (stop, outcome)

/-! ## Numbers -/

/-- A run of digits: where it stops, how many digits it has, and the first that the base lacks. -/
structure DigitRun where
  stop : Nat
  count : Nat
  stray? : Option UInt8
  deriving DecidableEq, Repr

/-- The first fault is kept. -/
def note (fault? : Option LexCause) (cause : LexCause) : Option LexCause :=
  fault? <|> some cause

/-- Notes a separator in the wrong place. -/
def noteSeparator (misplaced : Bool) (fault? : Option LexCause) : Option LexCause :=
  if misplaced then note fault? .misplacedSeparator else fault?

/-- Notes the first digit that a small base lacks. -/
def noteStray
    (base : Base)
    (digit : UInt8)
    (stray? : Option UInt8) : Checked (Option UInt8) :=
  if base.radix < 10 && stray?.isNone then do
    let worth ← above digit (ofChar '0')
    .ok (if base.radix ≤ worth then some digit else none)
  else .ok stray?

/-- Reads a run of digits on from an offset. -/
def digitRun
    (source : List UInt8)
    (base : Base)
    (offset count : Nat)
    (stray? : Option UInt8)
    (behindSeparator : Bool)
    (fault? : Option LexCause) : Checked (DigitRun × Option LexCause) :=
  match found : source[offset]? with
  | none => .ok (⟨offset, count, stray?⟩, noteSeparator behindSeparator fault?)
  | some byte =>
      if byte = ofChar '_' then
        digitRun source base (offset + 1) count stray? true (noteSeparator behindSeparator fault?)
      else if isDigitOf (if base = .hexadecimal then .hexadecimal else .decimal) (toChar byte) then do
        let stray? ← noteStray base byte stray?
        digitRun source base (offset + 1) (count + 1) stray? false fault?
      else .ok (⟨offset, count, stray?⟩, noteSeparator behindSeparator fault?)
termination_by source.length - offset
decreasing_by
  all_goals
    have inRange := (List.getElem?_eq_some_iff.1 found).1
    omega

/-- Reads a run of digits that no separator may begin. -/
def innerRun
    (source : List UInt8)
    (base : Base)
    (offset : Nat)
    (fault? : Option LexCause) : Checked (DigitRun × Option LexCause) :=
  digitRun source base offset 0 none false (noteSeparator (byteAt source offset = ofChar '_') fault?)

/-- What has been read of a number: where it stops, its token, and its first fault. -/
structure NumberScan where
  stop : Nat
  token : Token
  fault? : Option LexCause
  deriving DecidableEq, Repr

/-- Reads the exponent at an offset, from its letter on. -/
def exponent
    (source : List UInt8)
    (offset : Nat)
    (fault? : Option LexCause) : Checked NumberScan := do
  let signed := byteAt source (offset + 1) = ofChar '+' || byteAt source (offset + 1) = ofChar '-'
  let (run, fault?) ← innerRun source .decimal (if signed then offset + 2 else offset + 1) fault?
  .ok ⟨run.stop, .floatLit, if run.count = 0 then note fault? .missingExponent else fault?⟩

/-- Reads an exponent if one of its letters stands there. -/
def optionalExponent
    (source : List UInt8)
    (lower upper : Char)
    (scan : NumberScan) : Checked NumberScan :=
  if byteAt source scan.stop = ofChar lower || byteAt source scan.stop = ofChar upper then
    exponent source scan.stop scan.fault?
  else .ok scan

/-- Reads a number that begins with a point. -/
def pointNumber (source : List UInt8) (start : Nat) : Checked NumberScan := do
  let (run, fault?) ← innerRun source .decimal (start + 1) none
  optionalExponent source 'e' 'E' ⟨run.stop, .floatLit, fault?⟩

/-- The base that a letter announces, whether it is upper case or not. -/
def baseOf (letter : UInt8) : Base :=
  if letter ||| 0x20 = ofChar 'x' then .hexadecimal
  else if letter ||| 0x20 = ofChar 'b' then .binary
  else .octal

/-- Reads the fraction of a hexadecimal number if there is one, and counts its digits. -/
def hexadecimalFraction
    (source : List UInt8)
    (scan : NumberScan) : Checked (NumberScan × Nat) := do
  if byteAt source scan.stop = ofChar '.' then
    let (run, fault?) ← innerRun source .hexadecimal (scan.stop + 1) scan.fault?
    .ok (⟨run.stop, .floatLit, fault?⟩, run.count)
  else .ok (scan, 0)

/-- Reads the rest of a hexadecimal number behind its whole digits, and counts the digits of its
fraction. -/
def hexadecimalRest
    (source : List UInt8)
    (scan : NumberScan) : Checked (NumberScan × Nat) := do
  let pointed := byteAt source scan.stop = ofChar '.'
  let (fraction, count) ← hexadecimalFraction source scan
  let scaled := byteAt source fraction.stop = ofChar 'p' || byteAt source fraction.stop = ofChar 'P'
  let scan ← optionalExponent source 'p' 'P' fraction
  .ok ({ scan with fault? :=
    if pointed && !scaled then note scan.fault? .missingHexExponent else scan.fault? }, count)

/-- Reads a number whose base is announced. -/
def prefixedNumber (source : List UInt8) (start : Nat) : Checked NumberScan := do
  let base := baseOf (byteAt source (start + 1))
  let (run, fault?) ← digitRun source base (start + 2) 0 none false none
  let fault? := (run.stray?.map fun stray =>
    note fault? (.invalidDigit (toChar stray) base)).getD fault?
  let (scan, fractionCount) ←
    if base = .hexadecimal then hexadecimalRest source ⟨run.stop, .intLit, fault?⟩
    else .ok (⟨run.stop, .intLit, fault?⟩, 0)
  .ok { scan with fault? :=
    if run.count + fractionCount = 0 then note scan.fault? (.missingDigits base) else scan.fault? }

/-- Reads the fraction of a decimal number if there is one. Behind two points there is none. -/
def optionalFraction
    (source : List UInt8)
    (scan : NumberScan) : Checked NumberScan := do
  if byteAt source scan.stop = ofChar '.' && byteAt source (scan.stop + 1) ≠ ofChar '.' then
    let (run, fault?) ← innerRun source .decimal (scan.stop + 1) scan.fault?
    .ok ⟨run.stop, .floatLit, fault?⟩
  else .ok scan

/-- Judges the whole digits of a decimal number. An integer with a leading zero is octal. -/
def judgeWhole
    (source : List UInt8)
    (start wholeStop : Nat)
    (scan : NumberScan) : Checked NumberScan := do
  if byteAt source start = ofChar '0' && scan.token = .intLit && byteAt source scan.stop ≠ ofChar 'i' then
    let digits ← slice source start wholeStop
    let stray? := digits.find? fun byte => byte = ofChar '8' || byte = ofChar '9'
    .ok { scan with fault? := (stray?.map fun stray =>
      note scan.fault? (.invalidDigit (toChar stray) .octal)).getD scan.fault? }
  else .ok scan

/-- Reads a number whose base is not announced. -/
def plainNumber (source : List UInt8) (start : Nat) : Checked NumberScan := do
  let (run, fault?) ← digitRun source .decimal start 0 none false none
  let scan ← optionalFraction source ⟨run.stop, .intLit, fault?⟩
  let scan ← optionalExponent source 'e' 'E' scan
  judgeWhole source start run.stop scan

/-- Whether a base is announced at an offset. -/
def announcesBase (source : List UInt8) (offset : Nat) : Bool :=
  let letter := byteAt source (offset + 1) ||| 0x20
  byteAt source offset = ofChar '0'
    && (letter = ofChar 'x' || letter = ofChar 'b' || letter = ofChar 'o')

/-- Reads the number at an offset up to the mark of an imaginary number. -/
def numberBody (source : List UInt8) (start : Nat) : Checked NumberScan :=
  if byteAt source start = ofChar '.' then pointNumber source start
  else if announcesBase source start then prefixedNumber source start
  else plainNumber source start

/-- Reads the number at an offset. -/
def number (source : List UInt8) (start : Nat) : Checked NumberScan := do
  let scan ← numberBody source start
  .ok (if byteAt source scan.stop = ofChar 'i' then ⟨scan.stop + 1, .imagLit, scan.fault?⟩ else scan)

/-! ## Raw strings and comments -/

/-- The number of bytes of a comment up to its closing mark, which is searched from an offset on. -/
def commentLength?
    (ahead : List UInt8)
    (start : Nat) : Checked (Option Nat) :=
  if _inRange : start ≤ ahead.length then
    match found : (ahead.drop start).findIdx? (· == ofChar '*') with
    | none => .ok none
    | some distance =>
        if ahead[start + distance + 1]? = some (ofChar '/') then .ok (some (start + distance + 2))
        else commentLength? ahead (start + distance + 1)
  else .error .outOfRange
termination_by ahead.length - start
decreasing_by
  obtain ⟨before, -⟩ := List.findIdx?_eq_some_iff_getElem.1 found
  rw [List.length_drop] at before
  omega

/-! ## Scanners -/

/-- What a scanner found: where it stopped, the token, and what is wrong with it. -/
structure Scanned where
  stop : Nat
  token : Token
  fault? : Option LexCause
  deriving DecidableEq, Repr

/-- The kind of piece that was found. -/
def Scanned.kind (scanned : Scanned) : PieceKind :=
  (Piece.ofFault? scanned.token [] scanned.fault?).kind

/-- Scans a comment between marks from behind its opening. -/
def scanComment (source : List UInt8) (stop : Nat) : Checked Scanned := do
  let ahead ← tailFrom source stop
  match ← commentLength? ahead 0 with
  | some length =>
      let stop ← bump source stop length
      .ok ⟨stop, .blockComment, none⟩
  | none =>
      let stop ← bump source stop ahead.length
      .ok ⟨stop, .blockComment, some .unclosedComment⟩

/-- Scans a raw string from behind its opening quote. -/
def scanRaw (source : List UInt8) (stop : Nat) : Checked Scanned := do
  let ahead ← tailFrom source stop
  match ahead.findIdx? (· == ofChar '\x60') with
  | some distance =>
      let stop ← bump source stop (distance + 1)
      .ok ⟨stop, .rawStringLit, none⟩
  | none =>
      let stop ← bump source stop ahead.length
      .ok ⟨stop, .rawStringLit, some .unterminatedString⟩

/-- Scans an interpreted string from behind its opening quote. -/
def scanString (source : List UInt8) (stop : Nat) : Checked Scanned := do
  let (stop, outcome) ← quoted source (ofChar '"') stop
  match outcome with
  | .ok _ => .ok ⟨stop, .stringLit, none⟩
  | .error cause => .ok ⟨stop, .stringLit, some cause⟩

/-- Scans a rune from behind its opening quote. -/
def scanRune (source : List UInt8) (stop : Nat) : Checked Scanned := do
  let (stop, outcome) ← quoted source (ofChar '\'') stop
  match outcome with
  | .ok 1 => .ok ⟨stop, .runeLit, none⟩
  | .ok _ => .ok ⟨stop, .runeLit, some .invalidRune⟩
  | .error cause => .ok ⟨stop, .runeLit, some cause⟩

/-- Scans a number of which the bytes between two offsets have been matched. -/
def scanNumber (source : List UInt8) (start stop : Nat) : Checked Scanned := do
  let scan ← number source start
  if scan.stop < stop then .error .endBeforeStart
  else
    let stop ← bump source stop (scan.stop - stop)
    .ok ⟨stop, scan.token, scan.fault?⟩

end Bytes
end GoFront
