/-
  The part of the generated response scanner that reads a response.

  The scanner follows a header beside the special headers that begin alike, so it has many states
  for one place: a place stands for all of them.  They differ in flags of the scanner, and in what
  an empty value may be followed by, since the blanks that the special headers skip include line
  ends; the line behind an empty value is therefore a place of its own.
-/
import Muhui.Http.ResponceParser
import Muhui.Http.Tokens

namespace Muhui.Http

open Scanner

inductive ResponcePlace
  /-- Behind `n` characters of the version. -/
  | version (n : ℕ)
  | statusStart | status | reasonStart | reason
  | cr | lineStart | name | colon | value | emptyCr | afterEmpty | lastCr | finished
  deriving DecidableEq

/-- `isspace` without the line ends. -/
def isSpaceInLine (b : UInt8) : Bool := b == 32 || b == 9 || b == 11 || b == 12

/-- A character of a reason or of a value. -/
def isTextChar (b : UInt8) : Bool := b != 10 && b != 13

/-- The moves of the fragment, each with the action lists that the states of a place have. -/
def responceStep : ResponcePlace → UInt8 → Option (ResponcePlace × List (List ResponceAction))
  | .version n, b =>
    if n = 0 then if b = 72 then some (.version 1, [[.mark]]) else none
    else if n < 7 then
      if versionPrefix[n]? = some b then some (.version (n + 1), [[]]) else none
    else if n = 7 then if b = 48 || b = 49 then some (.version 8, [[]]) else none
    else if b = 32 then some (.statusStart, [[.httpVersion]]) else none
  | .statusStart, b => if isDigit b then some (.status, [[.mark]]) else none
  | .status, b =>
    if isDigit b then some (.status, [[]])
    else if b = 32 then some (.reasonStart, [[.statusCode]]) else none
  | .reasonStart, b => if isTextChar b then some (.reason, [[.mark]]) else none
  | .reason, b =>
    if isTextChar b then some (.reason, [[]])
    else if b = 13 then some (.cr, [[.reasonPhrase]]) else none
  | .cr, b => if b = 10 then some (.lineStart, [[]]) else none
  | .lineStart, b =>
    if isTokenChar b then some (.name, [[.startField], [.startValue, .startField]])
    else if b = 13 then some (.lastCr, [[]]) else none
  | .afterEmpty, b =>
    if isTokenChar b then some (.name, [[.startField], [.startValue, .startField]]) else none
  | .name, b =>
    if isTokenChar b then some (.name, [[]])
    else if b = 58 then some (.colon, [[.writeField]]) else none
  | .colon, b =>
    if isSpaceInLine b then some (.colon, [[.startValue]])
    else if isTextChar b then some (.value, [[.startValue]])
    else if b = 13 then some (.emptyCr, [[.startValue, .writeValue]]) else none
  | .value, b =>
    if isTextChar b then some (.value, [[]])
    else if b = 13 then some (.cr, [[.writeValue]]) else none
  | .emptyCr, b => if b = 10 then some (.afterEmpty, [[]]) else none
  | .lastCr, b => if b = 10 then some (.finished, [[.done]]) else none
  | .finished, _ => none

@[reducible] def responceFragment : Fragment ResponceAction where
  Place := ResponcePlace
  start := .version 0
  final := .finished
  step := responceStep

instance : DecidableEq responceFragment.Place := inferInstanceAs (DecidableEq ResponcePlace)

/-- Actions that only write to the scanner's record of the framing. -/
def ResponceAction.isFlag : ResponceAction → Bool
  | .writeContentLen | .writeConnectionClose | .chunkSize | .transChunked => true
  | _ => false

/-- The table in which every other byte is an error. -/
@[reducible] def responceFragmentTable : ResponceTable := responceFragment.complete

theorem follows_responceFragmentTable :
    Follows responceFragmentTable responceFragment ResponceAction.isFlag fun f q => q = some f := by
  refine Fragment.follows_complete fun f b g opts h => ?_
  cases f <;> grind [responceStep, ResponceAction.isFlag]

end Muhui.Http
