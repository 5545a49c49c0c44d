/-
  The request scanner that is generated from `http11_parser.rl` (`http11_parser.rl.cc`), as rows.

  A row stands for what the code does in one state: the comparisons of the byte, which is a signed
  character there, lead to a label, and behind the label are the actions and the next state.
  Nothing sets `uri_relaxed`, which lets three more characters into a URI, so it is a parameter.
-/
import Muhui.Http.RequestParser
import Muhui.Scanner.Table

namespace Muhui.Http

open Scanner

/-- `"^"`, `"\x7b"` and `"\x7d"`, where `uri_relaxed` is set. -/
def moreDelims (uri_relaxed : Bool) : List (ℕ × ℕ) :=
  if uri_relaxed then [(94, 94), (123, 123), (125, 125)] else []

def httpParserRows (uri_relaxed : Bool) : List (List (Entry RequestAction)) :=
  [
    -- the states from 0 on
    [],
    [⟨[(48, 57), (65, 90)], 2, [.mark]⟩, ⟨[(60, 60)], 194, [.mark]⟩, ⟨[(64, 64)], 198, [.mark]⟩],
    [⟨[(32, 32)], 3, [.requestMethod]⟩, ⟨[(48, 57), (65, 90)], 175, []⟩],
    [⟨[(32, 32)], 4, [.mark, .requestPath, .requestUri]⟩,
     ⟨[(33, 33), (36, 36), (38, 46), (48, 57), (59, 59), (61, 61), (64, 64), (95, 95), (126, 126)],
         19, [.mark]⟩, ⟨[(35, 35)], 20, [.mark, .requestPath, .requestUri]⟩,
     ⟨[(37, 37)], 24, [.mark]⟩, ⟨[(47, 47)], 33, [.mark]⟩, ⟨[(63, 63)], 29, [.mark, .requestPath]⟩,
     ⟨[(65, 90), (97, 122)], 173, [.mark]⟩, ⟨moreDelims uri_relaxed, 19, [.mark]⟩],
    [⟨[(72, 72)], 5, [.mark]⟩],
    [⟨[(84, 84)], 6, []⟩],
    [⟨[(84, 84)], 7, []⟩],
    [⟨[(80, 80)], 8, []⟩],
    [⟨[(47, 47)], 9, []⟩],
    [⟨[(49, 49)], 10, []⟩],
    [⟨[(46, 46)], 11, []⟩],
    [⟨[(48, 49)], 12, []⟩],
    [⟨[(10, 10)], 13, [.httpVersion]⟩, ⟨[(13, 13)], 17, [.httpVersion]⟩],
    [⟨[(1, 8), (11, 12), (14, 31), (33, 33), (35, 39), (42, 43), (45, 46), (48, 57), (65, 90),
         (94, 122), (124, 124), (126, 126)], 14, [.startField]⟩,
     ⟨[(10, 10)], 348, [.startField, .done]⟩, ⟨[(13, 13)], 18, [.startField]⟩],
    [⟨[(1, 8), (10, 31), (33, 33), (35, 39), (42, 43), (45, 46), (48, 57), (65, 90), (94, 122),
         (124, 124), (126, 126)], 14, []⟩, ⟨[(58, 58)], 15, [.writeField]⟩],
    [⟨[(1, 8), (11, 12), (14, 31), (33, 126), (128, 255)], 16, [.startValue]⟩,
     ⟨[(9, 9), (32, 32)], 15, [.startValue]⟩, ⟨[(10, 10)], 13, [.startValue, .writeValue]⟩,
     ⟨[(13, 13)], 17, [.startValue, .writeValue]⟩],
    [⟨[(1, 9), (11, 12), (14, 126), (128, 255)], 16, []⟩, ⟨[(10, 10)], 13, [.writeValue]⟩,
     ⟨[(13, 13)], 17, [.writeValue]⟩],
    [⟨[(10, 10)], 13, []⟩],
    [⟨[(1, 8), (11, 31), (33, 33), (35, 39), (42, 43), (45, 46), (48, 57), (65, 90), (94, 122),
         (124, 124), (126, 126)], 14, []⟩, ⟨[(10, 10)], 348, [.done]⟩,
     ⟨[(58, 58)], 15, [.writeField]⟩],
    [⟨[(32, 32)], 4, [.requestPath, .requestUri]⟩,
     ⟨[(33, 33), (36, 36), (38, 46), (48, 57), (59, 59), (61, 61), (64, 90), (95, 95), (97, 122),
         (126, 126)], 19, []⟩, ⟨[(35, 35)], 20, [.requestPath, .requestUri]⟩, ⟨[(37, 37)], 24, []⟩,
     ⟨[(47, 47)], 26, []⟩, ⟨[(63, 63)], 29, [.requestPath]⟩, ⟨moreDelims uri_relaxed, 19, []⟩],
    [⟨[(32, 32)], 4, [.mark, .fragment]⟩,
     ⟨[(33, 33), (36, 36), (38, 59), (61, 61), (63, 90), (95, 95), (97, 122), (126, 126),
         (128, 255)], 21, [.mark]⟩, ⟨[(37, 37)], 22, [.mark]⟩,
     ⟨moreDelims uri_relaxed, 21, [.mark]⟩],
    [⟨[(32, 32)], 4, [.fragment]⟩,
     ⟨[(33, 33), (36, 36), (38, 59), (61, 61), (63, 90), (95, 95), (97, 122), (126, 126),
         (128, 255)], 21, []⟩, ⟨[(37, 37)], 22, []⟩, ⟨moreDelims uri_relaxed, 21, []⟩],
    [⟨[(48, 57), (65, 70), (97, 102)], 23, []⟩],
    [⟨[(48, 57), (65, 70), (97, 102)], 21, []⟩],
    [⟨[(48, 57), (65, 70), (97, 102)], 25, []⟩],
    -- the states from 25 on
    [⟨[(48, 57), (65, 70), (97, 102)], 19, []⟩],
    [⟨[(32, 32)], 4, [.requestPath, .requestUri]⟩,
     ⟨[(33, 33), (36, 36), (38, 59), (61, 61), (64, 90), (95, 95), (97, 122), (126, 126),
         (128, 255)], 26, []⟩, ⟨[(35, 35)], 20, [.requestPath, .requestUri]⟩, ⟨[(37, 37)], 27, []⟩,
     ⟨[(63, 63)], 29, [.requestPath]⟩, ⟨moreDelims uri_relaxed, 26, []⟩],
    [⟨[(48, 57), (65, 70), (97, 102)], 28, []⟩],
    [⟨[(48, 57), (65, 70), (97, 102)], 26, []⟩],
    [⟨[(32, 32)], 4, [.startQuery, .queryString, .requestUri]⟩,
     ⟨[(33, 33), (36, 36), (38, 59), (61, 61), (63, 90), (95, 95), (97, 122), (126, 126),
         (128, 255)], 30, [.startQuery]⟩,
     ⟨[(35, 35)], 20, [.startQuery, .queryString, .requestUri]⟩, ⟨[(37, 37)], 31, [.startQuery]⟩,
     ⟨moreDelims uri_relaxed, 30, [.startQuery]⟩],
    [⟨[(32, 32)], 4, [.queryString, .requestUri]⟩,
     ⟨[(33, 33), (36, 36), (38, 59), (61, 61), (63, 90), (95, 95), (97, 122), (126, 126),
         (128, 255)], 30, []⟩, ⟨[(35, 35)], 20, [.queryString, .requestUri]⟩, ⟨[(37, 37)], 31, []⟩,
     ⟨moreDelims uri_relaxed, 30, []⟩],
    [⟨[(48, 57), (65, 70), (97, 102)], 32, []⟩],
    [⟨[(48, 57), (65, 70), (97, 102)], 30, []⟩],
    [⟨[(32, 32)], 4, [.requestPath, .requestUri]⟩,
     ⟨[(33, 33), (36, 36), (38, 46), (48, 59), (61, 61), (64, 90), (95, 95), (97, 122), (126, 126),
         (128, 255)], 26, []⟩, ⟨[(35, 35)], 20, [.requestPath, .requestUri]⟩, ⟨[(37, 37)], 27, []⟩,
     ⟨[(47, 47)], 34, []⟩, ⟨[(63, 63)], 29, [.requestPath]⟩, ⟨moreDelims uri_relaxed, 26, []⟩],
    [⟨[(32, 32)], 4, [.requestPath, .requestUri]⟩,
     ⟨[(33, 33), (36, 36), (38, 46), (48, 57), (59, 59), (61, 61), (65, 90), (95, 95), (97, 122),
         (126, 126)], 35, []⟩, ⟨[(35, 35)], 20, [.requestPath, .requestUri]⟩, ⟨[(37, 37)], 36, []⟩,
     ⟨[(47, 47)], 26, []⟩, ⟨[(58, 58)], 38, []⟩, ⟨[(63, 63)], 29, [.requestPath]⟩,
     ⟨[(64, 64)], 42, []⟩, ⟨[(91, 91)], 47, []⟩, ⟨moreDelims uri_relaxed, 35, []⟩],
    [⟨[(32, 32)], 4, [.requestPath, .requestUri]⟩,
     ⟨[(33, 33), (36, 36), (38, 46), (48, 57), (59, 59), (61, 61), (65, 90), (95, 95), (97, 122),
         (126, 126)], 35, []⟩, ⟨[(35, 35)], 20, [.requestPath, .requestUri]⟩, ⟨[(37, 37)], 36, []⟩,
     ⟨[(47, 47)], 26, []⟩, ⟨[(58, 58)], 38, []⟩, ⟨[(63, 63)], 29, [.requestPath]⟩,
     ⟨[(64, 64)], 42, []⟩, ⟨moreDelims uri_relaxed, 35, []⟩],
    [⟨[(48, 57), (65, 70), (97, 102)], 37, []⟩],
    [⟨[(48, 57), (65, 70), (97, 102)], 35, []⟩],
    [⟨[(32, 32)], 4, [.requestPath, .requestUri]⟩,
     ⟨[(33, 33), (36, 36), (38, 46), (58, 59), (61, 61), (65, 90), (95, 95), (97, 122), (126, 126)],
         39, []⟩, ⟨[(35, 35)], 20, [.requestPath, .requestUri]⟩, ⟨[(37, 37)], 40, []⟩,
     ⟨[(47, 47)], 26, []⟩, ⟨[(48, 57)], 38, []⟩, ⟨[(63, 63)], 29, [.requestPath]⟩,
     ⟨[(64, 64)], 42, []⟩, ⟨moreDelims uri_relaxed, 39, []⟩],
    [⟨[(33, 33), (36, 36), (38, 46), (48, 59), (61, 61), (65, 90), (95, 95), (97, 122), (126, 126)],
         39, []⟩, ⟨[(37, 37)], 40, []⟩, ⟨[(64, 64)], 42, []⟩, ⟨moreDelims uri_relaxed, 39, []⟩],
    [⟨[(48, 57), (65, 70), (97, 102)], 41, []⟩],
    [⟨[(48, 57), (65, 70), (97, 102)], 39, []⟩],
    [⟨[(32, 32)], 4, [.requestPath, .requestUri]⟩,
     ⟨[(33, 33), (36, 36), (38, 46), (48, 57), (59, 59), (61, 61), (65, 90), (95, 95), (97, 122),
         (126, 126)], 43, []⟩, ⟨[(35, 35)], 20, [.requestPath, .requestUri]⟩, ⟨[(37, 37)], 44, []⟩,
     ⟨[(47, 47)], 26, []⟩, ⟨[(58, 58)], 46, []⟩, ⟨[(63, 63)], 29, [.requestPath]⟩,
     ⟨[(91, 91)], 47, []⟩, ⟨moreDelims uri_relaxed, 43, []⟩],
    [⟨[(32, 32)], 4, [.requestPath, .requestUri]⟩,
     ⟨[(33, 33), (36, 36), (38, 46), (48, 57), (59, 59), (61, 61), (65, 90), (95, 95), (97, 122),
         (126, 126)], 43, []⟩, ⟨[(35, 35)], 20, [.requestPath, .requestUri]⟩, ⟨[(37, 37)], 44, []⟩,
     ⟨[(47, 47)], 26, []⟩, ⟨[(58, 58)], 46, []⟩, ⟨[(63, 63)], 29, [.requestPath]⟩,
     ⟨moreDelims uri_relaxed, 43, []⟩],
    [⟨[(48, 57), (65, 70), (97, 102)], 45, []⟩],
    [⟨[(48, 57), (65, 70), (97, 102)], 43, []⟩],
    [⟨[(32, 32)], 4, [.requestPath, .requestUri]⟩, ⟨[(35, 35)], 20, [.requestPath, .requestUri]⟩,
     ⟨[(47, 47)], 26, []⟩, ⟨[(48, 57)], 46, []⟩, ⟨[(63, 63)], 29, [.requestPath]⟩],
    [⟨[(6, 6)], 48, []⟩, ⟨[(48, 57), (65, 70), (97, 102)], 91, []⟩, ⟨[(58, 58)], 167, []⟩,
     ⟨[(118, 118)], 169, []⟩],
    [⟨[(48, 57), (65, 70), (97, 102)], 49, []⟩],
    [⟨[(48, 57), (65, 70), (97, 102)], 50, []⟩, ⟨[(58, 58)], 53, []⟩],
    -- the states from 50 on
    [⟨[(48, 57), (65, 70), (97, 102)], 51, []⟩, ⟨[(58, 58)], 53, []⟩],
    [⟨[(48, 57), (65, 70), (97, 102)], 52, []⟩, ⟨[(58, 58)], 53, []⟩],
    [⟨[(58, 58)], 53, []⟩],
    [⟨[(48, 48), (51, 57)], 54, []⟩, ⟨[(49, 49)], 84, []⟩, ⟨[(50, 50)], 87, []⟩,
     ⟨[(65, 70), (97, 102)], 90, []⟩],
    [⟨[(46, 46)], 55, []⟩, ⟨[(48, 57), (65, 70), (97, 102)], 77, []⟩, ⟨[(58, 58)], 80, []⟩],
    [⟨[(48, 48), (51, 57)], 56, []⟩, ⟨[(49, 49)], 72, []⟩, ⟨[(50, 50)], 74, []⟩],
    [⟨[(46, 46)], 57, []⟩],
    [⟨[(48, 48), (51, 57)], 58, []⟩, ⟨[(49, 49)], 67, []⟩, ⟨[(50, 50)], 69, []⟩],
    [⟨[(46, 46)], 59, []⟩],
    [⟨[(48, 48), (51, 57)], 60, []⟩, ⟨[(49, 49)], 62, []⟩, ⟨[(50, 50)], 64, []⟩],
    [⟨[(93, 93)], 61, []⟩],
    [⟨[(32, 32)], 4, [.requestPath, .requestUri]⟩, ⟨[(35, 35)], 20, [.requestPath, .requestUri]⟩,
     ⟨[(47, 47)], 26, []⟩, ⟨[(58, 58)], 46, []⟩, ⟨[(63, 63)], 29, [.requestPath]⟩],
    [⟨[(48, 57)], 63, []⟩, ⟨[(93, 93)], 61, []⟩],
    [⟨[(48, 57)], 60, []⟩, ⟨[(93, 93)], 61, []⟩],
    [⟨[(48, 48)], 65, []⟩, ⟨[(53, 53)], 66, []⟩, ⟨[(93, 93)], 61, []⟩],
    [⟨[(48, 57)], 60, []⟩],
    [⟨[(48, 48)], 60, []⟩],
    [⟨[(46, 46)], 59, []⟩, ⟨[(48, 57)], 68, []⟩],
    [⟨[(46, 46)], 59, []⟩, ⟨[(48, 57)], 58, []⟩],
    [⟨[(46, 46)], 59, []⟩, ⟨[(48, 48)], 70, []⟩, ⟨[(53, 53)], 71, []⟩],
    [⟨[(48, 57)], 58, []⟩],
    [⟨[(48, 48)], 58, []⟩],
    [⟨[(46, 46)], 57, []⟩, ⟨[(48, 57)], 73, []⟩],
    [⟨[(46, 46)], 57, []⟩, ⟨[(48, 57)], 56, []⟩],
    [⟨[(46, 46)], 57, []⟩, ⟨[(48, 48)], 75, []⟩, ⟨[(53, 53)], 76, []⟩],
    -- the states from 75 on
    [⟨[(48, 57)], 56, []⟩],
    [⟨[(48, 48)], 56, []⟩],
    [⟨[(48, 57), (65, 70), (97, 102)], 78, []⟩, ⟨[(58, 58)], 80, []⟩],
    [⟨[(48, 57), (65, 70), (97, 102)], 79, []⟩, ⟨[(58, 58)], 80, []⟩],
    [⟨[(58, 58)], 80, []⟩],
    [⟨[(48, 57), (65, 70), (97, 102)], 81, []⟩],
    [⟨[(48, 57), (65, 70), (97, 102)], 82, []⟩, ⟨[(93, 93)], 61, []⟩],
    [⟨[(48, 57), (65, 70), (97, 102)], 83, []⟩, ⟨[(93, 93)], 61, []⟩],
    [⟨[(48, 57), (65, 70), (97, 102)], 60, []⟩, ⟨[(93, 93)], 61, []⟩],
    [⟨[(46, 46)], 55, []⟩, ⟨[(48, 57)], 85, []⟩, ⟨[(58, 58)], 80, []⟩,
     ⟨[(65, 70), (97, 102)], 77, []⟩],
    [⟨[(46, 46)], 55, []⟩, ⟨[(48, 57)], 86, []⟩, ⟨[(58, 58)], 80, []⟩,
     ⟨[(65, 70), (97, 102)], 78, []⟩],
    [⟨[(46, 46)], 55, []⟩, ⟨[(48, 57), (65, 70), (97, 102)], 79, []⟩, ⟨[(58, 58)], 80, []⟩],
    [⟨[(46, 46)], 55, []⟩, ⟨[(48, 48)], 88, []⟩,
     ⟨[(49, 52), (54, 57), (65, 70), (97, 102)], 77, []⟩, ⟨[(53, 53)], 89, []⟩,
     ⟨[(58, 58)], 80, []⟩],
    [⟨[(48, 57)], 86, []⟩, ⟨[(58, 58)], 80, []⟩, ⟨[(65, 70), (97, 102)], 78, []⟩],
    [⟨[(48, 48)], 86, []⟩, ⟨[(49, 57), (65, 70), (97, 102)], 78, []⟩, ⟨[(58, 58)], 80, []⟩],
    [⟨[(48, 57), (65, 70), (97, 102)], 77, []⟩, ⟨[(58, 58)], 80, []⟩],
    [⟨[(48, 57), (65, 70), (97, 102)], 92, []⟩, ⟨[(58, 58)], 95, []⟩],
    [⟨[(48, 57), (65, 70), (97, 102)], 93, []⟩, ⟨[(58, 58)], 95, []⟩],
    [⟨[(48, 57), (65, 70), (97, 102)], 94, []⟩, ⟨[(58, 58)], 95, []⟩],
    [⟨[(58, 58)], 95, []⟩],
    [⟨[(48, 57), (65, 70), (97, 102)], 96, []⟩, ⟨[(58, 58)], 166, []⟩],
    [⟨[(48, 57), (65, 70), (97, 102)], 97, []⟩, ⟨[(58, 58)], 100, []⟩],
    [⟨[(48, 57), (65, 70), (97, 102)], 98, []⟩, ⟨[(58, 58)], 100, []⟩],
    [⟨[(48, 57), (65, 70), (97, 102)], 99, []⟩, ⟨[(58, 58)], 100, []⟩],
    [⟨[(58, 58)], 100, []⟩],
    -- the states from 100 on
    [⟨[(48, 57), (65, 70), (97, 102)], 101, []⟩, ⟨[(58, 58)], 165, []⟩],
    [⟨[(48, 57), (65, 70), (97, 102)], 102, []⟩, ⟨[(58, 58)], 105, []⟩],
    [⟨[(48, 57), (65, 70), (97, 102)], 103, []⟩, ⟨[(58, 58)], 105, []⟩],
    [⟨[(48, 57), (65, 70), (97, 102)], 104, []⟩, ⟨[(58, 58)], 105, []⟩],
    [⟨[(58, 58)], 105, []⟩],
    [⟨[(48, 57), (65, 70), (97, 102)], 106, []⟩, ⟨[(58, 58)], 164, []⟩],
    [⟨[(48, 57), (65, 70), (97, 102)], 107, []⟩, ⟨[(58, 58)], 110, []⟩],
    [⟨[(48, 57), (65, 70), (97, 102)], 108, []⟩, ⟨[(58, 58)], 110, []⟩],
    [⟨[(48, 57), (65, 70), (97, 102)], 109, []⟩, ⟨[(58, 58)], 110, []⟩],
    [⟨[(58, 58)], 110, []⟩],
    [⟨[(48, 57), (65, 70), (97, 102)], 111, []⟩, ⟨[(58, 58)], 163, []⟩],
    [⟨[(48, 57), (65, 70), (97, 102)], 112, []⟩, ⟨[(58, 58)], 115, []⟩],
    [⟨[(48, 57), (65, 70), (97, 102)], 113, []⟩, ⟨[(58, 58)], 115, []⟩],
    [⟨[(48, 57), (65, 70), (97, 102)], 114, []⟩, ⟨[(58, 58)], 115, []⟩],
    [⟨[(58, 58)], 115, []⟩],
    [⟨[(48, 57), (65, 70), (97, 102)], 116, []⟩, ⟨[(58, 58)], 151, []⟩],
    [⟨[(48, 57), (65, 70), (97, 102)], 117, []⟩, ⟨[(58, 58)], 120, []⟩],
    [⟨[(48, 57), (65, 70), (97, 102)], 118, []⟩, ⟨[(58, 58)], 120, []⟩],
    [⟨[(48, 57), (65, 70), (97, 102)], 119, []⟩, ⟨[(58, 58)], 120, []⟩],
    [⟨[(58, 58)], 120, []⟩],
    [⟨[(48, 57), (65, 70), (97, 102)], 121, []⟩, ⟨[(58, 58)], 150, []⟩],
    [⟨[(48, 57), (65, 70), (97, 102)], 122, []⟩, ⟨[(58, 58)], 125, []⟩],
    [⟨[(48, 57), (65, 70), (97, 102)], 123, []⟩, ⟨[(58, 58)], 125, []⟩],
    [⟨[(48, 57), (65, 70), (97, 102)], 124, []⟩, ⟨[(58, 58)], 125, []⟩],
    [⟨[(58, 58)], 125, []⟩],
    -- the states from 125 on
    [⟨[(48, 57), (65, 70), (97, 102)], 121, []⟩, ⟨[(58, 58)], 126, []⟩],
    [⟨[(2, 3)], 48, []⟩, ⟨[(48, 48), (51, 57)], 127, []⟩, ⟨[(49, 49)], 143, []⟩,
     ⟨[(50, 50)], 146, []⟩, ⟨[(65, 70), (97, 102)], 149, []⟩, ⟨[(93, 93)], 61, []⟩],
    [⟨[(46, 46)], 55, []⟩, ⟨[(48, 57), (65, 70), (97, 102)], 128, []⟩, ⟨[(58, 58)], 131, []⟩,
     ⟨[(93, 93)], 61, []⟩],
    [⟨[(48, 57), (65, 70), (97, 102)], 129, []⟩, ⟨[(58, 58)], 131, []⟩, ⟨[(93, 93)], 61, []⟩],
    [⟨[(48, 57), (65, 70), (97, 102)], 130, []⟩, ⟨[(58, 58)], 131, []⟩, ⟨[(93, 93)], 61, []⟩],
    [⟨[(58, 58)], 131, []⟩, ⟨[(93, 93)], 61, []⟩],
    [⟨[(48, 48), (51, 57)], 132, []⟩, ⟨[(49, 49)], 136, []⟩, ⟨[(50, 50)], 139, []⟩,
     ⟨[(65, 70), (97, 102)], 142, []⟩],
    [⟨[(46, 46)], 55, []⟩, ⟨[(48, 57), (65, 70), (97, 102)], 133, []⟩, ⟨[(58, 58)], 80, []⟩,
     ⟨[(93, 93)], 61, []⟩],
    [⟨[(48, 57), (65, 70), (97, 102)], 134, []⟩, ⟨[(58, 58)], 80, []⟩, ⟨[(93, 93)], 61, []⟩],
    [⟨[(48, 57), (65, 70), (97, 102)], 135, []⟩, ⟨[(58, 58)], 80, []⟩, ⟨[(93, 93)], 61, []⟩],
    [⟨[(58, 58)], 80, []⟩, ⟨[(93, 93)], 61, []⟩],
    [⟨[(46, 46)], 55, []⟩, ⟨[(48, 57)], 137, []⟩, ⟨[(58, 58)], 80, []⟩,
     ⟨[(65, 70), (97, 102)], 133, []⟩, ⟨[(93, 93)], 61, []⟩],
    [⟨[(46, 46)], 55, []⟩, ⟨[(48, 57)], 138, []⟩, ⟨[(58, 58)], 80, []⟩,
     ⟨[(65, 70), (97, 102)], 134, []⟩, ⟨[(93, 93)], 61, []⟩],
    [⟨[(46, 46)], 55, []⟩, ⟨[(48, 57), (65, 70), (97, 102)], 135, []⟩, ⟨[(58, 58)], 80, []⟩,
     ⟨[(93, 93)], 61, []⟩],
    [⟨[(46, 46)], 55, []⟩, ⟨[(48, 48)], 140, []⟩,
     ⟨[(49, 52), (54, 57), (65, 70), (97, 102)], 133, []⟩, ⟨[(53, 53)], 141, []⟩,
     ⟨[(58, 58)], 80, []⟩, ⟨[(93, 93)], 61, []⟩],
    [⟨[(48, 57)], 138, []⟩, ⟨[(58, 58)], 80, []⟩, ⟨[(65, 70), (97, 102)], 134, []⟩,
     ⟨[(93, 93)], 61, []⟩],
    [⟨[(48, 48)], 138, []⟩, ⟨[(49, 57), (65, 70), (97, 102)], 134, []⟩, ⟨[(58, 58)], 80, []⟩,
     ⟨[(93, 93)], 61, []⟩],
    [⟨[(48, 57), (65, 70), (97, 102)], 133, []⟩, ⟨[(58, 58)], 80, []⟩, ⟨[(93, 93)], 61, []⟩],
    [⟨[(46, 46)], 55, []⟩, ⟨[(48, 57)], 144, []⟩, ⟨[(58, 58)], 131, []⟩,
     ⟨[(65, 70), (97, 102)], 128, []⟩, ⟨[(93, 93)], 61, []⟩],
    [⟨[(46, 46)], 55, []⟩, ⟨[(48, 57)], 145, []⟩, ⟨[(58, 58)], 131, []⟩,
     ⟨[(65, 70), (97, 102)], 129, []⟩, ⟨[(93, 93)], 61, []⟩],
    [⟨[(46, 46)], 55, []⟩, ⟨[(48, 57), (65, 70), (97, 102)], 130, []⟩, ⟨[(58, 58)], 131, []⟩,
     ⟨[(93, 93)], 61, []⟩],
    [⟨[(46, 46)], 55, []⟩, ⟨[(48, 48)], 147, []⟩,
     ⟨[(49, 52), (54, 57), (65, 70), (97, 102)], 128, []⟩, ⟨[(53, 53)], 148, []⟩,
     ⟨[(58, 58)], 131, []⟩, ⟨[(93, 93)], 61, []⟩],
    [⟨[(48, 57)], 145, []⟩, ⟨[(58, 58)], 131, []⟩, ⟨[(65, 70), (97, 102)], 129, []⟩,
     ⟨[(93, 93)], 61, []⟩],
    [⟨[(48, 48)], 145, []⟩, ⟨[(49, 57), (65, 70), (97, 102)], 129, []⟩, ⟨[(58, 58)], 131, []⟩,
     ⟨[(93, 93)], 61, []⟩],
    [⟨[(48, 57), (65, 70), (97, 102)], 128, []⟩, ⟨[(58, 58)], 131, []⟩, ⟨[(93, 93)], 61, []⟩],
    -- the states from 150 on
    [⟨[(2, 3)], 48, []⟩, ⟨[(48, 48), (51, 57)], 127, []⟩, ⟨[(49, 49)], 143, []⟩,
     ⟨[(50, 50)], 146, []⟩, ⟨[(65, 70), (97, 102)], 149, []⟩],
    [⟨[(2, 3)], 48, []⟩, ⟨[(48, 48), (51, 57)], 152, []⟩, ⟨[(49, 49)], 156, []⟩,
     ⟨[(50, 50)], 159, []⟩, ⟨[(65, 70), (97, 102)], 162, []⟩],
    [⟨[(46, 46)], 55, []⟩, ⟨[(48, 57), (65, 70), (97, 102)], 153, []⟩, ⟨[(58, 58)], 131, []⟩],
    [⟨[(48, 57), (65, 70), (97, 102)], 154, []⟩, ⟨[(58, 58)], 131, []⟩],
    [⟨[(48, 57), (65, 70), (97, 102)], 155, []⟩, ⟨[(58, 58)], 131, []⟩],
    [⟨[(58, 58)], 131, []⟩],
    [⟨[(46, 46)], 55, []⟩, ⟨[(48, 57)], 157, []⟩, ⟨[(58, 58)], 131, []⟩,
     ⟨[(65, 70), (97, 102)], 153, []⟩],
    [⟨[(46, 46)], 55, []⟩, ⟨[(48, 57)], 158, []⟩, ⟨[(58, 58)], 131, []⟩,
     ⟨[(65, 70), (97, 102)], 154, []⟩],
    [⟨[(46, 46)], 55, []⟩, ⟨[(48, 57), (65, 70), (97, 102)], 155, []⟩, ⟨[(58, 58)], 131, []⟩],
    [⟨[(46, 46)], 55, []⟩, ⟨[(48, 48)], 160, []⟩,
     ⟨[(49, 52), (54, 57), (65, 70), (97, 102)], 153, []⟩, ⟨[(53, 53)], 161, []⟩,
     ⟨[(58, 58)], 131, []⟩],
    [⟨[(48, 57)], 158, []⟩, ⟨[(58, 58)], 131, []⟩, ⟨[(65, 70), (97, 102)], 154, []⟩],
    [⟨[(48, 48)], 158, []⟩, ⟨[(49, 57), (65, 70), (97, 102)], 154, []⟩, ⟨[(58, 58)], 131, []⟩],
    [⟨[(48, 57), (65, 70), (97, 102)], 153, []⟩, ⟨[(58, 58)], 131, []⟩],
    [⟨[(2, 3)], 48, []⟩, ⟨[(48, 57), (65, 70), (97, 102)], 49, []⟩],
    [⟨[(2, 3)], 48, []⟩],
    [⟨[(3, 3)], 48, []⟩],
    [⟨[(4, 4)], 48, []⟩],
    [⟨[(58, 58)], 168, []⟩],
    [⟨[(2, 5)], 48, []⟩, ⟨[(48, 48), (51, 57)], 127, []⟩, ⟨[(49, 49)], 143, []⟩,
     ⟨[(50, 50)], 146, []⟩, ⟨[(65, 70), (97, 102)], 149, []⟩, ⟨[(93, 93)], 61, []⟩],
    [⟨[(48, 57), (65, 70), (97, 102)], 170, []⟩],
    [⟨[(46, 46)], 171, []⟩, ⟨[(48, 57), (65, 70), (97, 102)], 170, []⟩],
    [⟨[(33, 33), (36, 36), (38, 46), (48, 59), (61, 61), (65, 90), (95, 95), (97, 122), (126, 126)],
         172, []⟩, ⟨moreDelims uri_relaxed, 172, []⟩],
    [⟨[(33, 33), (36, 36), (38, 46), (48, 59), (61, 61), (65, 90), (95, 95), (97, 122), (126, 126)],
         172, []⟩, ⟨[(93, 93)], 61, []⟩, ⟨moreDelims uri_relaxed, 172, []⟩],
    [⟨[(32, 32)], 4, [.requestPath, .requestUri]⟩,
     ⟨[(33, 33), (36, 36), (38, 42), (44, 44), (59, 59), (61, 61), (64, 64), (95, 95), (126, 126)],
         19, []⟩, ⟨[(35, 35)], 20, [.requestPath, .requestUri]⟩, ⟨[(37, 37)], 24, []⟩,
     ⟨[(43, 43), (45, 46), (48, 57), (65, 90), (97, 122)], 173, []⟩, ⟨[(47, 47)], 26, []⟩,
     ⟨[(58, 58)], 174, []⟩, ⟨[(63, 63)], 29, [.requestPath]⟩, ⟨moreDelims uri_relaxed, 19, []⟩],
    [⟨[(32, 32)], 4, [.mark, .requestPath, .requestUri]⟩,
     ⟨[(33, 33), (36, 36), (38, 46), (48, 59), (61, 61), (64, 90), (95, 95), (97, 122), (126, 126),
         (128, 255)], 26, [.mark]⟩, ⟨[(35, 35)], 20, [.mark, .requestPath, .requestUri]⟩,
     ⟨[(37, 37)], 27, [.mark]⟩, ⟨[(47, 47)], 33, [.mark]⟩, ⟨[(63, 63)], 29, [.mark, .requestPath]⟩,
     ⟨moreDelims uri_relaxed, 26, [.mark]⟩],
    -- the states from 175 on
    [⟨[(32, 32)], 3, [.requestMethod]⟩, ⟨[(48, 57), (65, 90)], 176, []⟩],
    [⟨[(32, 32)], 3, [.requestMethod]⟩, ⟨[(48, 57), (65, 90)], 177, []⟩],
    [⟨[(32, 32)], 3, [.requestMethod]⟩, ⟨[(48, 57), (65, 90)], 178, []⟩],
    [⟨[(32, 32)], 3, [.requestMethod]⟩, ⟨[(48, 57), (65, 90)], 179, []⟩],
    [⟨[(32, 32)], 3, [.requestMethod]⟩, ⟨[(48, 57), (65, 90)], 180, []⟩],
    [⟨[(32, 32)], 3, [.requestMethod]⟩, ⟨[(48, 57), (65, 90)], 181, []⟩],
    [⟨[(32, 32)], 3, [.requestMethod]⟩, ⟨[(48, 57), (65, 90)], 182, []⟩],
    [⟨[(32, 32)], 3, [.requestMethod]⟩, ⟨[(48, 57), (65, 90)], 183, []⟩],
    [⟨[(32, 32)], 3, [.requestMethod]⟩, ⟨[(48, 57), (65, 90)], 184, []⟩],
    [⟨[(32, 32)], 3, [.requestMethod]⟩, ⟨[(48, 57), (65, 90)], 185, []⟩],
    [⟨[(32, 32)], 3, [.requestMethod]⟩, ⟨[(48, 57), (65, 90)], 186, []⟩],
    [⟨[(32, 32)], 3, [.requestMethod]⟩, ⟨[(48, 57), (65, 90)], 187, []⟩],
    [⟨[(32, 32)], 3, [.requestMethod]⟩, ⟨[(48, 57), (65, 90)], 188, []⟩],
    [⟨[(32, 32)], 3, [.requestMethod]⟩, ⟨[(48, 57), (65, 90)], 189, []⟩],
    [⟨[(32, 32)], 3, [.requestMethod]⟩, ⟨[(48, 57), (65, 90)], 190, []⟩],
    [⟨[(32, 32)], 3, [.requestMethod]⟩, ⟨[(48, 57), (65, 90)], 191, []⟩],
    [⟨[(32, 32)], 3, [.requestMethod]⟩, ⟨[(48, 57), (65, 90)], 192, []⟩],
    [⟨[(32, 32)], 3, [.requestMethod]⟩, ⟨[(48, 57), (65, 90)], 193, []⟩],
    [⟨[(32, 32)], 3, [.requestMethod]⟩],
    [⟨[(45, 46), (48, 57), (65, 90), (97, 122)], 195, []⟩],
    [⟨[(9, 13), (32, 32), (47, 47), (62, 62)], 196, [.requestPath]⟩,
     ⟨[(45, 46), (48, 57), (65, 90), (97, 122)], 195, []⟩],
    [⟨[(0, 61), (63, 255)], 196, []⟩, ⟨[(62, 62)], 197, []⟩],
    [⟨[(0, 0)], 349, [.xml, .done]⟩, ⟨[(1, 61), (63, 255)], 196, []⟩, ⟨[(62, 62)], 197, []⟩],
    [⟨[(32, 32)], 199, [.requestPath]⟩,
     ⟨[(33, 33), (36, 36), (38, 46), (48, 57), (59, 59), (61, 61), (64, 90), (95, 95), (97, 122),
         (126, 126)], 202, []⟩, ⟨[(37, 37)], 203, []⟩, ⟨[(47, 47)], 208, []⟩,
     ⟨moreDelims uri_relaxed, 202, []⟩],
    [⟨[(123, 123)], 200, [.mark]⟩],
    -- the states from 200 on
    [⟨[(0, 124), (126, 255)], 200, []⟩, ⟨[(125, 125)], 201, []⟩],
    [⟨[(0, 0)], 349, [.json, .done]⟩, ⟨[(1, 124), (126, 255)], 200, []⟩, ⟨[(125, 125)], 201, []⟩],
    [⟨[(32, 32)], 199, [.requestPath]⟩,
     ⟨[(33, 33), (36, 36), (38, 46), (48, 57), (59, 59), (61, 61), (64, 90), (95, 95), (97, 122),
         (126, 126)], 202, []⟩, ⟨[(37, 37)], 203, []⟩, ⟨[(47, 47)], 205, []⟩,
     ⟨moreDelims uri_relaxed, 202, []⟩],
    [⟨[(48, 57), (65, 70), (97, 102)], 204, []⟩],
    [⟨[(48, 57), (65, 70), (97, 102)], 202, []⟩],
    [⟨[(32, 32)], 199, [.requestPath]⟩,
     ⟨[(33, 33), (36, 36), (38, 59), (61, 61), (64, 90), (95, 95), (97, 122), (126, 126),
         (128, 255)], 205, []⟩, ⟨[(37, 37)], 206, []⟩, ⟨moreDelims uri_relaxed, 205, []⟩],
    [⟨[(48, 57), (65, 70), (97, 102)], 207, []⟩],
    [⟨[(48, 57), (65, 70), (97, 102)], 205, []⟩],
    [⟨[(32, 32)], 199, [.requestPath]⟩,
     ⟨[(33, 33), (36, 36), (38, 46), (48, 59), (61, 61), (64, 90), (95, 95), (97, 122), (126, 126),
         (128, 255)], 205, []⟩, ⟨[(37, 37)], 206, []⟩, ⟨[(47, 47)], 209, []⟩,
     ⟨moreDelims uri_relaxed, 205, []⟩],
    [⟨[(32, 32)], 199, [.requestPath]⟩,
     ⟨[(33, 33), (36, 36), (38, 46), (48, 57), (59, 59), (61, 61), (65, 90), (95, 95), (97, 122),
         (126, 126)], 210, []⟩, ⟨[(37, 37)], 211, []⟩, ⟨[(47, 47)], 205, []⟩, ⟨[(58, 58)], 213, []⟩,
     ⟨[(64, 64)], 217, []⟩, ⟨[(91, 91)], 222, []⟩, ⟨moreDelims uri_relaxed, 210, []⟩],
    [⟨[(32, 32)], 199, [.requestPath]⟩,
     ⟨[(33, 33), (36, 36), (38, 46), (48, 57), (59, 59), (61, 61), (65, 90), (95, 95), (97, 122),
         (126, 126)], 210, []⟩, ⟨[(37, 37)], 211, []⟩, ⟨[(47, 47)], 205, []⟩, ⟨[(58, 58)], 213, []⟩,
     ⟨[(64, 64)], 217, []⟩, ⟨moreDelims uri_relaxed, 210, []⟩],
    [⟨[(48, 57), (65, 70), (97, 102)], 212, []⟩],
    [⟨[(48, 57), (65, 70), (97, 102)], 210, []⟩],
    [⟨[(32, 32)], 199, [.requestPath]⟩,
     ⟨[(33, 33), (36, 36), (38, 46), (58, 59), (61, 61), (65, 90), (95, 95), (97, 122), (126, 126)],
         214, []⟩, ⟨[(37, 37)], 215, []⟩, ⟨[(47, 47)], 205, []⟩, ⟨[(48, 57)], 213, []⟩,
     ⟨[(64, 64)], 217, []⟩, ⟨moreDelims uri_relaxed, 214, []⟩],
    [⟨[(33, 33), (36, 36), (38, 46), (48, 59), (61, 61), (65, 90), (95, 95), (97, 122), (126, 126)],
         214, []⟩, ⟨[(37, 37)], 215, []⟩, ⟨[(64, 64)], 217, []⟩, ⟨moreDelims uri_relaxed, 214, []⟩],
    [⟨[(48, 57), (65, 70), (97, 102)], 216, []⟩],
    [⟨[(48, 57), (65, 70), (97, 102)], 214, []⟩],
    [⟨[(32, 32)], 199, [.requestPath]⟩,
     ⟨[(33, 33), (36, 36), (38, 46), (48, 57), (59, 59), (61, 61), (65, 90), (95, 95), (97, 122),
         (126, 126)], 218, []⟩, ⟨[(37, 37)], 219, []⟩, ⟨[(47, 47)], 205, []⟩, ⟨[(58, 58)], 221, []⟩,
     ⟨[(91, 91)], 222, []⟩, ⟨moreDelims uri_relaxed, 218, []⟩],
    [⟨[(32, 32)], 199, [.requestPath]⟩,
     ⟨[(33, 33), (36, 36), (38, 46), (48, 57), (59, 59), (61, 61), (65, 90), (95, 95), (97, 122),
         (126, 126)], 218, []⟩, ⟨[(37, 37)], 219, []⟩, ⟨[(47, 47)], 205, []⟩, ⟨[(58, 58)], 221, []⟩,
     ⟨moreDelims uri_relaxed, 218, []⟩],
    [⟨[(48, 57), (65, 70), (97, 102)], 220, []⟩],
    [⟨[(48, 57), (65, 70), (97, 102)], 218, []⟩],
    [⟨[(32, 32)], 199, [.requestPath]⟩, ⟨[(47, 47)], 205, []⟩, ⟨[(48, 57)], 221, []⟩],
    [⟨[(6, 6)], 223, []⟩, ⟨[(48, 57), (65, 70), (97, 102)], 266, []⟩, ⟨[(58, 58)], 342, []⟩,
     ⟨[(118, 118)], 344, []⟩],
    [⟨[(48, 57), (65, 70), (97, 102)], 224, []⟩],
    [⟨[(48, 57), (65, 70), (97, 102)], 225, []⟩, ⟨[(58, 58)], 228, []⟩],
    -- the states from 225 on
    [⟨[(48, 57), (65, 70), (97, 102)], 226, []⟩, ⟨[(58, 58)], 228, []⟩],
    [⟨[(48, 57), (65, 70), (97, 102)], 227, []⟩, ⟨[(58, 58)], 228, []⟩],
    [⟨[(58, 58)], 228, []⟩],
    [⟨[(48, 48), (51, 57)], 229, []⟩, ⟨[(49, 49)], 259, []⟩, ⟨[(50, 50)], 262, []⟩,
     ⟨[(65, 70), (97, 102)], 265, []⟩],
    [⟨[(46, 46)], 230, []⟩, ⟨[(48, 57), (65, 70), (97, 102)], 252, []⟩, ⟨[(58, 58)], 255, []⟩],
    [⟨[(48, 48), (51, 57)], 231, []⟩, ⟨[(49, 49)], 247, []⟩, ⟨[(50, 50)], 249, []⟩],
    [⟨[(46, 46)], 232, []⟩],
    [⟨[(48, 48), (51, 57)], 233, []⟩, ⟨[(49, 49)], 242, []⟩, ⟨[(50, 50)], 244, []⟩],
    [⟨[(46, 46)], 234, []⟩],
    [⟨[(48, 48), (51, 57)], 235, []⟩, ⟨[(49, 49)], 237, []⟩, ⟨[(50, 50)], 239, []⟩],
    [⟨[(93, 93)], 236, []⟩],
    [⟨[(32, 32)], 199, [.requestPath]⟩, ⟨[(47, 47)], 205, []⟩, ⟨[(58, 58)], 221, []⟩],
    [⟨[(48, 57)], 238, []⟩, ⟨[(93, 93)], 236, []⟩],
    [⟨[(48, 57)], 235, []⟩, ⟨[(93, 93)], 236, []⟩],
    [⟨[(48, 48)], 240, []⟩, ⟨[(53, 53)], 241, []⟩, ⟨[(93, 93)], 236, []⟩],
    [⟨[(48, 57)], 235, []⟩],
    [⟨[(48, 48)], 235, []⟩],
    [⟨[(46, 46)], 234, []⟩, ⟨[(48, 57)], 243, []⟩],
    [⟨[(46, 46)], 234, []⟩, ⟨[(48, 57)], 233, []⟩],
    [⟨[(46, 46)], 234, []⟩, ⟨[(48, 48)], 245, []⟩, ⟨[(53, 53)], 246, []⟩],
    [⟨[(48, 57)], 233, []⟩],
    [⟨[(48, 48)], 233, []⟩],
    [⟨[(46, 46)], 232, []⟩, ⟨[(48, 57)], 248, []⟩],
    [⟨[(46, 46)], 232, []⟩, ⟨[(48, 57)], 231, []⟩],
    [⟨[(46, 46)], 232, []⟩, ⟨[(48, 48)], 250, []⟩, ⟨[(53, 53)], 251, []⟩],
    -- the states from 250 on
    [⟨[(48, 57)], 231, []⟩],
    [⟨[(48, 48)], 231, []⟩],
    [⟨[(48, 57), (65, 70), (97, 102)], 253, []⟩, ⟨[(58, 58)], 255, []⟩],
    [⟨[(48, 57), (65, 70), (97, 102)], 254, []⟩, ⟨[(58, 58)], 255, []⟩],
    [⟨[(58, 58)], 255, []⟩],
    [⟨[(48, 57), (65, 70), (97, 102)], 256, []⟩],
    [⟨[(48, 57), (65, 70), (97, 102)], 257, []⟩, ⟨[(93, 93)], 236, []⟩],
    [⟨[(48, 57), (65, 70), (97, 102)], 258, []⟩, ⟨[(93, 93)], 236, []⟩],
    [⟨[(48, 57), (65, 70), (97, 102)], 235, []⟩, ⟨[(93, 93)], 236, []⟩],
    [⟨[(46, 46)], 230, []⟩, ⟨[(48, 57)], 260, []⟩, ⟨[(58, 58)], 255, []⟩,
     ⟨[(65, 70), (97, 102)], 252, []⟩],
    [⟨[(46, 46)], 230, []⟩, ⟨[(48, 57)], 261, []⟩, ⟨[(58, 58)], 255, []⟩,
     ⟨[(65, 70), (97, 102)], 253, []⟩],
    [⟨[(46, 46)], 230, []⟩, ⟨[(48, 57), (65, 70), (97, 102)], 254, []⟩, ⟨[(58, 58)], 255, []⟩],
    [⟨[(46, 46)], 230, []⟩, ⟨[(48, 48)], 263, []⟩,
     ⟨[(49, 52), (54, 57), (65, 70), (97, 102)], 252, []⟩, ⟨[(53, 53)], 264, []⟩,
     ⟨[(58, 58)], 255, []⟩],
    [⟨[(48, 57)], 261, []⟩, ⟨[(58, 58)], 255, []⟩, ⟨[(65, 70), (97, 102)], 253, []⟩],
    [⟨[(48, 48)], 261, []⟩, ⟨[(49, 57), (65, 70), (97, 102)], 253, []⟩, ⟨[(58, 58)], 255, []⟩],
    [⟨[(48, 57), (65, 70), (97, 102)], 252, []⟩, ⟨[(58, 58)], 255, []⟩],
    [⟨[(48, 57), (65, 70), (97, 102)], 267, []⟩, ⟨[(58, 58)], 270, []⟩],
    [⟨[(48, 57), (65, 70), (97, 102)], 268, []⟩, ⟨[(58, 58)], 270, []⟩],
    [⟨[(48, 57), (65, 70), (97, 102)], 269, []⟩, ⟨[(58, 58)], 270, []⟩],
    [⟨[(58, 58)], 270, []⟩],
    [⟨[(48, 57), (65, 70), (97, 102)], 271, []⟩, ⟨[(58, 58)], 341, []⟩],
    [⟨[(48, 57), (65, 70), (97, 102)], 272, []⟩, ⟨[(58, 58)], 275, []⟩],
    [⟨[(48, 57), (65, 70), (97, 102)], 273, []⟩, ⟨[(58, 58)], 275, []⟩],
    [⟨[(48, 57), (65, 70), (97, 102)], 274, []⟩, ⟨[(58, 58)], 275, []⟩],
    [⟨[(58, 58)], 275, []⟩],
    -- the states from 275 on
    [⟨[(48, 57), (65, 70), (97, 102)], 276, []⟩, ⟨[(58, 58)], 340, []⟩],
    [⟨[(48, 57), (65, 70), (97, 102)], 277, []⟩, ⟨[(58, 58)], 280, []⟩],
    [⟨[(48, 57), (65, 70), (97, 102)], 278, []⟩, ⟨[(58, 58)], 280, []⟩],
    [⟨[(48, 57), (65, 70), (97, 102)], 279, []⟩, ⟨[(58, 58)], 280, []⟩],
    [⟨[(58, 58)], 280, []⟩],
    [⟨[(48, 57), (65, 70), (97, 102)], 281, []⟩, ⟨[(58, 58)], 339, []⟩],
    [⟨[(48, 57), (65, 70), (97, 102)], 282, []⟩, ⟨[(58, 58)], 285, []⟩],
    [⟨[(48, 57), (65, 70), (97, 102)], 283, []⟩, ⟨[(58, 58)], 285, []⟩],
    [⟨[(48, 57), (65, 70), (97, 102)], 284, []⟩, ⟨[(58, 58)], 285, []⟩],
    [⟨[(58, 58)], 285, []⟩],
    [⟨[(48, 57), (65, 70), (97, 102)], 286, []⟩, ⟨[(58, 58)], 338, []⟩],
    [⟨[(48, 57), (65, 70), (97, 102)], 287, []⟩, ⟨[(58, 58)], 290, []⟩],
    [⟨[(48, 57), (65, 70), (97, 102)], 288, []⟩, ⟨[(58, 58)], 290, []⟩],
    [⟨[(48, 57), (65, 70), (97, 102)], 289, []⟩, ⟨[(58, 58)], 290, []⟩],
    [⟨[(58, 58)], 290, []⟩],
    [⟨[(48, 57), (65, 70), (97, 102)], 291, []⟩, ⟨[(58, 58)], 326, []⟩],
    [⟨[(48, 57), (65, 70), (97, 102)], 292, []⟩, ⟨[(58, 58)], 295, []⟩],
    [⟨[(48, 57), (65, 70), (97, 102)], 293, []⟩, ⟨[(58, 58)], 295, []⟩],
    [⟨[(48, 57), (65, 70), (97, 102)], 294, []⟩, ⟨[(58, 58)], 295, []⟩],
    [⟨[(58, 58)], 295, []⟩],
    [⟨[(48, 57), (65, 70), (97, 102)], 296, []⟩, ⟨[(58, 58)], 325, []⟩],
    [⟨[(48, 57), (65, 70), (97, 102)], 297, []⟩, ⟨[(58, 58)], 300, []⟩],
    [⟨[(48, 57), (65, 70), (97, 102)], 298, []⟩, ⟨[(58, 58)], 300, []⟩],
    [⟨[(48, 57), (65, 70), (97, 102)], 299, []⟩, ⟨[(58, 58)], 300, []⟩],
    [⟨[(58, 58)], 300, []⟩],
    -- the states from 300 on
    [⟨[(48, 57), (65, 70), (97, 102)], 296, []⟩, ⟨[(58, 58)], 301, []⟩],
    [⟨[(2, 3)], 223, []⟩, ⟨[(48, 48), (51, 57)], 302, []⟩, ⟨[(49, 49)], 318, []⟩,
     ⟨[(50, 50)], 321, []⟩, ⟨[(65, 70), (97, 102)], 324, []⟩, ⟨[(93, 93)], 236, []⟩],
    [⟨[(46, 46)], 230, []⟩, ⟨[(48, 57), (65, 70), (97, 102)], 303, []⟩, ⟨[(58, 58)], 306, []⟩,
     ⟨[(93, 93)], 236, []⟩],
    [⟨[(48, 57), (65, 70), (97, 102)], 304, []⟩, ⟨[(58, 58)], 306, []⟩, ⟨[(93, 93)], 236, []⟩],
    [⟨[(48, 57), (65, 70), (97, 102)], 305, []⟩, ⟨[(58, 58)], 306, []⟩, ⟨[(93, 93)], 236, []⟩],
    [⟨[(58, 58)], 306, []⟩, ⟨[(93, 93)], 236, []⟩],
    [⟨[(48, 48), (51, 57)], 307, []⟩, ⟨[(49, 49)], 311, []⟩, ⟨[(50, 50)], 314, []⟩,
     ⟨[(65, 70), (97, 102)], 317, []⟩],
    [⟨[(46, 46)], 230, []⟩, ⟨[(48, 57), (65, 70), (97, 102)], 308, []⟩, ⟨[(58, 58)], 255, []⟩,
     ⟨[(93, 93)], 236, []⟩],
    [⟨[(48, 57), (65, 70), (97, 102)], 309, []⟩, ⟨[(58, 58)], 255, []⟩, ⟨[(93, 93)], 236, []⟩],
    [⟨[(48, 57), (65, 70), (97, 102)], 310, []⟩, ⟨[(58, 58)], 255, []⟩, ⟨[(93, 93)], 236, []⟩],
    [⟨[(58, 58)], 255, []⟩, ⟨[(93, 93)], 236, []⟩],
    [⟨[(46, 46)], 230, []⟩, ⟨[(48, 57)], 312, []⟩, ⟨[(58, 58)], 255, []⟩,
     ⟨[(65, 70), (97, 102)], 308, []⟩, ⟨[(93, 93)], 236, []⟩],
    [⟨[(46, 46)], 230, []⟩, ⟨[(48, 57)], 313, []⟩, ⟨[(58, 58)], 255, []⟩,
     ⟨[(65, 70), (97, 102)], 309, []⟩, ⟨[(93, 93)], 236, []⟩],
    [⟨[(46, 46)], 230, []⟩, ⟨[(48, 57), (65, 70), (97, 102)], 310, []⟩, ⟨[(58, 58)], 255, []⟩,
     ⟨[(93, 93)], 236, []⟩],
    [⟨[(46, 46)], 230, []⟩, ⟨[(48, 48)], 315, []⟩,
     ⟨[(49, 52), (54, 57), (65, 70), (97, 102)], 308, []⟩, ⟨[(53, 53)], 316, []⟩,
     ⟨[(58, 58)], 255, []⟩, ⟨[(93, 93)], 236, []⟩],
    [⟨[(48, 57)], 313, []⟩, ⟨[(58, 58)], 255, []⟩, ⟨[(65, 70), (97, 102)], 309, []⟩,
     ⟨[(93, 93)], 236, []⟩],
    [⟨[(48, 48)], 313, []⟩, ⟨[(49, 57), (65, 70), (97, 102)], 309, []⟩, ⟨[(58, 58)], 255, []⟩,
     ⟨[(93, 93)], 236, []⟩],
    [⟨[(48, 57), (65, 70), (97, 102)], 308, []⟩, ⟨[(58, 58)], 255, []⟩, ⟨[(93, 93)], 236, []⟩],
    [⟨[(46, 46)], 230, []⟩, ⟨[(48, 57)], 319, []⟩, ⟨[(58, 58)], 306, []⟩,
     ⟨[(65, 70), (97, 102)], 303, []⟩, ⟨[(93, 93)], 236, []⟩],
    [⟨[(46, 46)], 230, []⟩, ⟨[(48, 57)], 320, []⟩, ⟨[(58, 58)], 306, []⟩,
     ⟨[(65, 70), (97, 102)], 304, []⟩, ⟨[(93, 93)], 236, []⟩],
    [⟨[(46, 46)], 230, []⟩, ⟨[(48, 57), (65, 70), (97, 102)], 305, []⟩, ⟨[(58, 58)], 306, []⟩,
     ⟨[(93, 93)], 236, []⟩],
    [⟨[(46, 46)], 230, []⟩, ⟨[(48, 48)], 322, []⟩,
     ⟨[(49, 52), (54, 57), (65, 70), (97, 102)], 303, []⟩, ⟨[(53, 53)], 323, []⟩,
     ⟨[(58, 58)], 306, []⟩, ⟨[(93, 93)], 236, []⟩],
    [⟨[(48, 57)], 320, []⟩, ⟨[(58, 58)], 306, []⟩, ⟨[(65, 70), (97, 102)], 304, []⟩,
     ⟨[(93, 93)], 236, []⟩],
    [⟨[(48, 48)], 320, []⟩, ⟨[(49, 57), (65, 70), (97, 102)], 304, []⟩, ⟨[(58, 58)], 306, []⟩,
     ⟨[(93, 93)], 236, []⟩],
    [⟨[(48, 57), (65, 70), (97, 102)], 303, []⟩, ⟨[(58, 58)], 306, []⟩, ⟨[(93, 93)], 236, []⟩],
    -- the states from 325 on
    [⟨[(2, 3)], 223, []⟩, ⟨[(48, 48), (51, 57)], 302, []⟩, ⟨[(49, 49)], 318, []⟩,
     ⟨[(50, 50)], 321, []⟩, ⟨[(65, 70), (97, 102)], 324, []⟩],
    [⟨[(2, 3)], 223, []⟩, ⟨[(48, 48), (51, 57)], 327, []⟩, ⟨[(49, 49)], 331, []⟩,
     ⟨[(50, 50)], 334, []⟩, ⟨[(65, 70), (97, 102)], 337, []⟩],
    [⟨[(46, 46)], 230, []⟩, ⟨[(48, 57), (65, 70), (97, 102)], 328, []⟩, ⟨[(58, 58)], 306, []⟩],
    [⟨[(48, 57), (65, 70), (97, 102)], 329, []⟩, ⟨[(58, 58)], 306, []⟩],
    [⟨[(48, 57), (65, 70), (97, 102)], 330, []⟩, ⟨[(58, 58)], 306, []⟩],
    [⟨[(58, 58)], 306, []⟩],
    [⟨[(46, 46)], 230, []⟩, ⟨[(48, 57)], 332, []⟩, ⟨[(58, 58)], 306, []⟩,
     ⟨[(65, 70), (97, 102)], 328, []⟩],
    [⟨[(46, 46)], 230, []⟩, ⟨[(48, 57)], 333, []⟩, ⟨[(58, 58)], 306, []⟩,
     ⟨[(65, 70), (97, 102)], 329, []⟩],
    [⟨[(46, 46)], 230, []⟩, ⟨[(48, 57), (65, 70), (97, 102)], 330, []⟩, ⟨[(58, 58)], 306, []⟩],
    [⟨[(46, 46)], 230, []⟩, ⟨[(48, 48)], 335, []⟩,
     ⟨[(49, 52), (54, 57), (65, 70), (97, 102)], 328, []⟩, ⟨[(53, 53)], 336, []⟩,
     ⟨[(58, 58)], 306, []⟩],
    [⟨[(48, 57)], 333, []⟩, ⟨[(58, 58)], 306, []⟩, ⟨[(65, 70), (97, 102)], 329, []⟩],
    [⟨[(48, 48)], 333, []⟩, ⟨[(49, 57), (65, 70), (97, 102)], 329, []⟩, ⟨[(58, 58)], 306, []⟩],
    [⟨[(48, 57), (65, 70), (97, 102)], 328, []⟩, ⟨[(58, 58)], 306, []⟩],
    [⟨[(2, 3)], 223, []⟩, ⟨[(48, 57), (65, 70), (97, 102)], 224, []⟩],
    [⟨[(2, 3)], 223, []⟩],
    [⟨[(3, 3)], 223, []⟩],
    [⟨[(4, 4)], 223, []⟩],
    [⟨[(58, 58)], 343, []⟩],
    [⟨[(2, 5)], 223, []⟩, ⟨[(48, 48), (51, 57)], 302, []⟩, ⟨[(49, 49)], 318, []⟩,
     ⟨[(50, 50)], 321, []⟩, ⟨[(65, 70), (97, 102)], 324, []⟩, ⟨[(93, 93)], 236, []⟩],
    [⟨[(48, 57), (65, 70), (97, 102)], 345, []⟩],
    [⟨[(46, 46)], 346, []⟩, ⟨[(48, 57), (65, 70), (97, 102)], 345, []⟩],
    [⟨[(33, 33), (36, 36), (38, 46), (48, 59), (61, 61), (65, 90), (95, 95), (97, 122), (126, 126)],
         347, []⟩, ⟨moreDelims uri_relaxed, 347, []⟩],
    [⟨[(33, 33), (36, 36), (38, 46), (48, 59), (61, 61), (65, 90), (95, 95), (97, 122), (126, 126)],
         347, []⟩, ⟨[(93, 93)], 236, []⟩, ⟨moreDelims uri_relaxed, 347, []⟩],
    [⟨[(1, 8), (10, 31), (33, 33), (35, 39), (42, 43), (45, 46), (48, 57), (65, 90), (94, 122),
         (124, 124), (126, 126)], 14, []⟩, ⟨[(58, 58)], 15, [.writeField]⟩],
    []
  ]

/-- The generated request scanner; the states from 348 on are final. -/
@[reducible] def httpParser (uri_relaxed : Bool) : RequestTable :=
  ofRows (httpParserRows uri_relaxed) 1 (Nat.ble 348)

end Muhui.Http
