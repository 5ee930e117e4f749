import SpartanLauncher.Lib.Alternation
import SpartanLauncher.Lib.CString

/-!
# `ReadLine`

The Java class delivers the lines of a `Reader` out of one `CharBuffer`. A line is found by a
`Matcher` on the part of the text that the buffer holds; when it finds none, the buffer is
cleared, compacted or doubled, and refilled.

* `CharBuffer`, `Reader`, `Matcher`: the library classes, with the exceptions they throw.
* `ReadLine.fillBuffer`, `ReadLine.iteration`, `ReadLine.readLine`: the methods of the class.
* `ReadLine.runOps`: a sequence of calls on one object.

A call that throws has the value `.error`. Positions are numbers from zero on; the size of the
buffer is a Java `int`, which overflows.
-/

namespace Spartan

open CString

inductive JavaError where
  | illegalArgument
  | indexOutOfBounds
  | bufferOverflow
  /-- The loop of `readLineImpl` was cut off. -/
  | outOfFuel
  deriving DecidableEq

/-! ## `java.nio.CharBuffer` -/

structure CharBuffer where
  cells : List Char
  position : ℕ
  limit : ℕ
  position_le : position ≤ limit
  limit_le : limit ≤ cells.length

namespace CharBuffer

def capacity (b : CharBuffer) : ℕ := b.cells.length

def remaining (b : CharBuffer) : ℕ := b.limit - b.position

/-- The characters between the position and the limit. -/
def text (b : CharBuffer) : List Char := (b.cells.take b.limit).drop b.position

def allocate (capacity : ℤ) : Except JavaError CharBuffer :=
  if capacity < 0 then .error .illegalArgument
  else .ok ⟨List.replicate capacity.toNat '\x00', 0, capacity.toNat, Nat.zero_le _, by simp⟩

def setPosition (b : CharBuffer) (newPosition : ℕ) : Except JavaError CharBuffer :=
  if h : newPosition ≤ b.limit then .ok ⟨b.cells, newPosition, b.limit, h, b.limit_le⟩
  else .error .illegalArgument

def setLimit (b : CharBuffer) (newLimit : ℕ) : Except JavaError CharBuffer :=
  if h : newLimit ≤ b.cells.length then
    .ok ⟨b.cells, min b.position newLimit, newLimit, Nat.min_le_right _ _, h⟩
  else .error .illegalArgument

def clear (b : CharBuffer) : CharBuffer :=
  ⟨b.cells, 0, b.cells.length, Nat.zero_le _, le_rfl⟩

def flip (b : CharBuffer) : CharBuffer :=
  ⟨b.cells, 0, b.position, Nat.zero_le _, b.position_le.trans b.limit_le⟩

/-- The remaining characters move to the front, and the position behind them. -/
def compact (b : CharBuffer) : CharBuffer :=
  ⟨b.text ++ b.cells.drop b.remaining, b.remaining, b.cells.length, by
    have := b.position_le
    have := b.limit_le
    unfold remaining
    omega, by
    have := b.position_le
    have := b.limit_le
    simp only [text, remaining, List.length_append, List.length_drop, List.length_take]
    omega⟩

/-- Write the characters at the position. -/
def put (b : CharBuffer) (src : List Char) : Except JavaError CharBuffer :=
  if h : src.length ≤ b.remaining then
    .ok ⟨b.cells.take b.position ++ src ++ b.cells.drop (b.position + src.length),
      b.position + src.length, b.limit, by
        have := b.position_le
        unfold remaining at h
        omega, by
        have := b.position_le
        have := b.limit_le
        unfold remaining at h
        simp only [List.length_append, List.length_drop, List.length_take]
        omega⟩
  else .error .bufferOverflow

end CharBuffer

/-! ## `java.io.Reader` -/

/-- The text that is still to be read, and how the reader cuts it: read number `i` returns at
most `cut i + 1` characters. -/
structure Reader where
  rest : List Char
  cut : ℕ → ℕ
  reads : ℕ := 0

/-- `read` into a buffer with the given room; `none` stands for -1. -/
def Reader.read (rdr : Reader) (room : ℕ) : Option (List Char) × Reader :=
  if rdr.rest = [] then (none, rdr)
  else
    let n := min (rdr.cut rdr.reads + 1) room
    (some (rdr.rest.take n), ⟨rdr.rest.drop n, rdr.cut, rdr.reads + 1⟩)

/-! ## `java.util.regex.Matcher` -/

/-- The text is that of the buffer at the time of `reset`; the buffer does not change between a
reset and the calls of `find` after it. -/
structure Matcher where
  text : List Char := []
  regionStart : ℕ := 0
  regionEnd : ℕ := 0
  start : ℕ := 0
  «end» : ℕ := 0
  hitEnd : Bool := false

namespace Matcher

def reset (b : CharBuffer) : Matcher := { text := b.text, regionEnd := b.text.length }

def region (m : Matcher) (start «end» : ℕ) : Except JavaError Matcher :=
  if start ≤ «end» ∧ «end» ≤ m.text.length then
    .ok { text := m.text, regionStart := start, regionEnd := «end» }
  else .error .indexOutOfBounds

/-- The next match, from the end of the last one on. -/
def find (eol : List (List Char)) (m : Matcher) : Matcher × Bool :=
  let fromIndex := max m.end m.regionStart
  match Alternation.search eol ((m.text.take m.regionEnd).drop fromIndex) with
  | (some (skip, len), hitEnd) =>
    ({ m with start := fromIndex + skip, «end» := fromIndex + skip + len, hitEnd := hitEnd }, true)
  | (none, hitEnd) => ({ m with hitEnd := hitEnd }, false)

end Matcher

/-! ## The class -/

/-- `"\r?\n"`, which tries the carriage return first. -/
def defaultEolRegEx : List (List Char) := [['\r', '\n'], ['\n']]

structure ReadLine where
  eol : List (List Char)
  rdr : Reader
  buffer : CharBuffer
  internalBufferSize : ℤ
  matcher : Matcher := {}
  eof : Bool := false
  eolFound : Bool := false
  lineLookAhead : Bool := false
  /-- Whether `lastLine` is `this` object, and not null. -/
  lastLine : Bool := false
  lineNbr : ℕ := 0
  nextStartPos : ℕ := 0
  startIndex : ℕ := 0
  endIndex : ℕ := 0

namespace ReadLine

def fillBuffer (rl : ReadLine) : Except JavaError (ReadLine × Bool) := do
  let hadRemaining := decide (rl.buffer.remaining > 0)
  let (nbr, rdr) := rl.rdr.read rl.buffer.remaining
  let buffer ← match nbr with
    | some cs => rl.buffer.put cs
    | none => pure rl.buffer
  let savePos := buffer.position - rl.buffer.position
  let buffer := if savePos ≠ 0 then buffer.flip else buffer
  let buffer ← if nbr = none then
      (buffer.setLimit buffer.position).bind fun b => b.setPosition 0
    else pure buffer
  return ({ rl with rdr := rdr, buffer := buffer, eof := decide (nbr = none) },
    decide (buffer.remaining > 0) && (decide (savePos ≠ 0) || hadRemaining))

def resetMatcherOnBuffer (rl : ReadLine) : Except JavaError ReadLine := do
  let matcher ← (Matcher.reset rl.buffer).region rl.buffer.position rl.buffer.limit
  return { rl with matcher := matcher }

/-- What follows a successful `fillBuffer()`: search the buffer from its beginning. -/
def searchBuffer (rl : ReadLine) : Except JavaError ReadLine := do
  let rl ← rl.resetMatcherOnBuffer
  let (matcher, found) := rl.matcher.find rl.eol
  return { rl with nextStartPos := rl.matcher.regionStart, matcher := matcher, eolFound := found }

/-- The constructor, with `initialize`. -/
def new (eol : List (List Char)) (rdr : Reader) (internalBufferSize : ℤ) :
    Except JavaError ReadLine := do
  let buffer ← CharBuffer.allocate internalBufferSize
  let (rl, filled) ← fillBuffer
    { eol := eol, rdr := rdr, buffer := buffer, internalBufferSize := internalBufferSize }
  if filled then rl.searchBuffer else return rl

/-- The end of `readLineImpl`, when there is no line any more. -/
def noLine (rl : ReadLine) : Except JavaError ReadLine := do
  let buffer ← rl.buffer.setPosition rl.buffer.limit
  return { rl with
    nextStartPos := rl.buffer.limit
    buffer := buffer
    startIndex := 0
    endIndex := 0 }

/-- The line in front of the match, and the search for the next one. -/
def takeMatch (rl : ReadLine) : ReadLine :=
  let nextStartPos := rl.matcher.end
  let (matcher, found) :=
    if rl.matcher.hitEnd then (rl.matcher, false)
    else if nextStartPos < rl.matcher.regionEnd then rl.matcher.find rl.eol
    else (rl.matcher, false)
  { rl with
    startIndex := rl.nextStartPos
    endIndex := rl.matcher.start
    nextStartPos := nextStartPos
    matcher := matcher
    eolFound := found
    lineNbr := rl.lineNbr + 1 }

/-- Make room in the buffer, whose position is where the next line starts. -/
def makeRoom (rl : ReadLine) : Except JavaError ReadLine :=
  if rl.buffer.remaining = 0 then .ok { rl with buffer := rl.buffer.clear }
  else if rl.buffer.remaining < rl.buffer.capacity then
    .ok { rl with buffer := rl.buffer.compact }
  else do
    -- double the buffer size
    let internalBufferSize := toInt32 (rl.internalBufferSize * 2)
    let buffer ← CharBuffer.allocate internalBufferSize
    let buffer ← buffer.put rl.buffer.text
    return { rl with buffer := buffer, internalBufferSize := internalBufferSize }

/-- One round of the loop in `readLineImpl`: `none` means another one, `some true` that the line
is `this` object, and `some false` that it is null. -/
def iteration (rl : ReadLine) : Except JavaError (ReadLine × Option Bool) :=
  if rl.eolFound then .ok (rl.takeMatch, some true)
  else do
    let buffer ← rl.buffer.setPosition rl.nextStartPos
    let rl := { rl with buffer := buffer }
    if rl.eof then
      if buffer.remaining > 0 then
        return ({ rl with
          nextStartPos := buffer.limit
          startIndex := buffer.position
          endIndex := buffer.limit
          lineNbr := rl.lineNbr + 1 }, some true)
      else return (← rl.noLine, some false)
    else
      let rl ← rl.makeRoom
      let (rl, filled) ← rl.fillBuffer
      if filled then return (← rl.searchBuffer, none)
      else return (← rl.noLine, some false)

def readLineLoop : ℕ → ReadLine → Except JavaError (ReadLine × Bool)
  | 0, _ => .error .outOfFuel
  | fuel + 1, rl => do
    match ← rl.iteration with
    | (rl, some line) => return (rl, line)
    | (rl, none) => readLineLoop fuel rl

/-- Each round reads at least one character, or the end of the text. -/
def readLineImpl (rl : ReadLine) : Except JavaError (ReadLine × Bool) :=
  readLineLoop (rl.rdr.rest.length + 3) rl

/-- The characters of `this` object as a `CharSequence`, read one by one out of the buffer. -/
def charSequence (rl : ReadLine) : Except JavaError (List Char) :=
  if rl.startIndex ≤ rl.endIndex ∧ rl.endIndex ≤ rl.buffer.limit then
    .ok ((rl.buffer.cells.take rl.endIndex).drop rl.startIndex)
  else .error .indexOutOfBounds

/-- `readLine()`, with the characters of the line that it returns. -/
def readLine (rl : ReadLine) : Except JavaError (ReadLine × Option (List Char)) := do
  let rl ← if rl.lineLookAhead then pure { rl with lineLookAhead := false }
    else do
      let (rl, line) ← rl.readLineImpl
      pure { rl with lastLine := line }
  if rl.lastLine then return (rl, some (← rl.charSequence)) else return (rl, none)

def wasLineLookAhead (rl : ReadLine) : ReadLine := { rl with lineLookAhead := true }

def getLineNumber (rl : ReadLine) : ℕ := rl.lineNbr

end ReadLine

/-! ## Sequences of calls -/

inductive ReadLineOp where
  | readLine
  | wasLineLookAhead
  deriving DecidableEq

/-- The calls one after the other, with what the calls of `readLine()` return. -/
def ReadLine.runOps : List ReadLineOp → ReadLine →
    Except JavaError (ReadLine × List (Option (List Char)))
  | [], rl => .ok (rl, [])
  | .readLine :: ops, rl => do
    let (rl, line) ← rl.readLine
    let (rl, lines) ← runOps ops rl
    return (rl, line :: lines)
  | .wasLineLookAhead :: ops, rl => runOps ops rl.wasLineLookAhead

end Spartan
