import Oveo.Lib.Text

/-! # Lines of an event stream

`_sse_lines`: a line ends at CR, LF or CRLF, wherever the chunks are cut. -/

namespace Oveo.Provider

open Oveo.Lib

def carriageReturn : CodePoint := 0x0D

def lineFeed : CodePoint := 0x0A

/-- `_SSE_LINE_BREAK.split(text)`. -/
def splitLineBreaks : Str → List Str
  | [] => [[]]
  | c :: rest =>
    if c = carriageReturn then
      match rest with
      | [] => [[], []]
      | next :: after => if next = lineFeed then [] :: splitLineBreaks after else [] :: splitLineBreaks (next :: after)
    else if c = lineFeed then [] :: splitLineBreaks rest
    else
      match splitLineBreaks rest with
      | line :: lines => (c :: line) :: lines
      | [] => [[c]]

/-- The lines a chunk completes, and the tail after it. -/
def sseChunk (tail chunk : Str) : List Str × Str :=
  if chunk.isEmpty then ([], tail)
  else
    let text := tail ++ chunk
    -- A trailing CR may be the first half of a CRLF split across two chunks.
    let held := if text.getLast? = some carriageReturn then [carriageReturn] else []
    let lines := splitLineBreaks (text.take (text.length - held.length))
    (lines.dropLast, lines.getLast?.getD [] ++ held)

/-- `_sse_lines`; `ended` says whether the chunks end, or break off. -/
def sseLines (tail : Str) (ended : Bool) : List Str → List Str
  | [] => if ended && tail.getLast? == some carriageReturn then [tail.dropLast] else []
  | chunk :: chunks =>
    let (lines, tail) := sseChunk tail chunk
    lines ++ sseLines tail ended chunks

end Oveo.Provider
