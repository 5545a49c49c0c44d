/-
  The response scanner that is generated from `httpclient_parser.rl` (`httpclient_parser.rl.cc`), as
  rows, like the one for requests.
-/
import Muhui.Http.ResponceParser
import Muhui.Scanner.Table

namespace Muhui.Http

open Scanner

def httpclientParserRows : List (List (Entry ResponceAction)) :=
  [
    -- the states from 0 on
    [],
    [⟨[(48, 57), (65, 70), (97, 102)], 2, [.mark]⟩, ⟨[(72, 72)], 8, [.mark]⟩],
    [⟨[(10, 10)], 120, [.chunkSize, .done]⟩, ⟨[(13, 13)], 3, [.chunkSize]⟩,
     ⟨[(48, 57), (65, 70), (97, 102)], 2, []⟩, ⟨[(59, 59)], 4, [.chunkSize]⟩],
    [⟨[(10, 10)], 120, [.done]⟩],
    [⟨[(33, 33), (35, 39), (42, 43), (45, 46), (48, 57), (65, 90), (94, 122), (124, 124),
         (126, 126)], 5, [.startField]⟩],
    [⟨[(10, 10)], 120, [.writeField, .startValue, .writeValue, .done]⟩,
     ⟨[(13, 13)], 3, [.writeField, .startValue, .writeValue]⟩,
     ⟨[(33, 33), (35, 39), (42, 43), (45, 46), (48, 57), (65, 90), (94, 122), (124, 124),
         (126, 126)], 5, []⟩, ⟨[(59, 59)], 4, [.writeField, .startValue, .writeValue]⟩,
     ⟨[(61, 61)], 6, [.writeField, .startValue]⟩],
    [⟨[(33, 33), (35, 39), (42, 43), (45, 46), (48, 57), (65, 90), (94, 122), (124, 124),
         (126, 126)], 7, [.startValue]⟩],
    [⟨[(10, 10)], 120, [.writeValue, .done]⟩, ⟨[(13, 13)], 3, [.writeValue]⟩,
     ⟨[(33, 33), (35, 39), (42, 43), (45, 46), (48, 57), (65, 90), (94, 122), (124, 124),
         (126, 126)], 7, []⟩, ⟨[(59, 59)], 4, [.writeValue]⟩],
    [⟨[(84, 84)], 9, []⟩],
    [⟨[(84, 84)], 10, []⟩],
    [⟨[(80, 80)], 11, []⟩],
    [⟨[(47, 47)], 12, []⟩],
    [⟨[(48, 57)], 13, []⟩],
    [⟨[(46, 46)], 14, []⟩, ⟨[(48, 57)], 13, []⟩],
    [⟨[(48, 57)], 15, []⟩],
    [⟨[(32, 32)], 16, [.httpVersion]⟩, ⟨[(48, 57)], 15, []⟩],
    [⟨[(48, 57)], 17, [.mark]⟩],
    [⟨[(32, 32)], 18, [.statusCode]⟩, ⟨[(48, 57)], 17, []⟩],
    [⟨[(0, 9), (11, 255)], 19, [.mark]⟩],
    [⟨[(0, 9), (11, 12), (14, 255)], 19, []⟩, ⟨[(10, 10)], 20, [.reasonPhrase]⟩,
     ⟨[(13, 13)], 24, [.reasonPhrase]⟩],
    [⟨[(10, 10)], 120, [.done]⟩, ⟨[(13, 13)], 3, []⟩,
     ⟨[(33, 33), (35, 39), (42, 43), (45, 46), (48, 57), (65, 66), (68, 83), (85, 90), (94, 98),
         (100, 115), (117, 122), (124, 124), (126, 126)], 21, [.startField]⟩,
     ⟨[(67, 67), (99, 99)], 25, [.startField]⟩, ⟨[(84, 84), (116, 116)], 44, [.startField]⟩],
    [⟨[(33, 33), (35, 39), (42, 43), (45, 46), (48, 57), (65, 90), (94, 122), (124, 124),
         (126, 126)], 21, []⟩, ⟨[(58, 58)], 22, [.writeField]⟩],
    [⟨[(0, 8), (14, 31), (33, 255)], 23, [.startValue]⟩,
     ⟨[(9, 9), (11, 12), (32, 32)], 22, [.startValue]⟩,
     ⟨[(10, 10)], 20, [.startValue, .writeValue]⟩, ⟨[(13, 13)], 24, [.startValue, .writeValue]⟩],
    [⟨[(0, 9), (11, 12), (14, 255)], 23, []⟩, ⟨[(10, 10)], 20, [.writeValue]⟩,
     ⟨[(13, 13)], 24, [.writeValue]⟩],
    [⟨[(10, 10)], 20, []⟩],
    -- the states from 25 on
    [⟨[(33, 33), (35, 39), (42, 43), (45, 46), (48, 57), (65, 78), (80, 90), (94, 110), (112, 122),
         (124, 124), (126, 126)], 21, []⟩, ⟨[(58, 58)], 22, [.writeField]⟩,
     ⟨[(79, 79), (111, 111)], 26, []⟩],
    [⟨[(33, 33), (35, 39), (42, 43), (45, 46), (48, 57), (65, 77), (79, 90), (94, 109), (111, 122),
         (124, 124), (126, 126)], 21, []⟩, ⟨[(58, 58)], 22, [.writeField]⟩,
     ⟨[(78, 78), (110, 110)], 27, []⟩],
    [⟨[(33, 33), (35, 39), (42, 43), (45, 46), (48, 57), (65, 77), (79, 83), (85, 90), (94, 109),
         (111, 115), (117, 122), (124, 124), (126, 126)], 21, []⟩, ⟨[(58, 58)], 22, [.writeField]⟩,
     ⟨[(78, 78), (110, 110)], 28, []⟩, ⟨[(84, 84), (116, 116)], 101, []⟩],
    [⟨[(33, 33), (35, 39), (42, 43), (45, 46), (48, 57), (65, 68), (70, 90), (94, 100), (102, 122),
         (124, 124), (126, 126)], 21, []⟩, ⟨[(58, 58)], 22, [.writeField]⟩,
     ⟨[(69, 69), (101, 101)], 29, []⟩],
    [⟨[(33, 33), (35, 39), (42, 43), (45, 46), (48, 57), (65, 66), (68, 90), (94, 98), (100, 122),
         (124, 124), (126, 126)], 21, []⟩, ⟨[(58, 58)], 22, [.writeField]⟩,
     ⟨[(67, 67), (99, 99)], 30, []⟩],
    [⟨[(33, 33), (35, 39), (42, 43), (45, 46), (48, 57), (65, 83), (85, 90), (94, 115), (117, 122),
         (124, 124), (126, 126)], 21, []⟩, ⟨[(58, 58)], 22, [.writeField]⟩,
     ⟨[(84, 84), (116, 116)], 31, []⟩],
    [⟨[(33, 33), (35, 39), (42, 43), (45, 46), (48, 57), (65, 72), (74, 90), (94, 104), (106, 122),
         (124, 124), (126, 126)], 21, []⟩, ⟨[(58, 58)], 22, [.writeField]⟩,
     ⟨[(73, 73), (105, 105)], 32, []⟩],
    [⟨[(33, 33), (35, 39), (42, 43), (45, 46), (48, 57), (65, 78), (80, 90), (94, 110), (112, 122),
         (124, 124), (126, 126)], 21, []⟩, ⟨[(58, 58)], 22, [.writeField]⟩,
     ⟨[(79, 79), (111, 111)], 33, []⟩],
    [⟨[(33, 33), (35, 39), (42, 43), (45, 46), (48, 57), (65, 77), (79, 90), (94, 109), (111, 122),
         (124, 124), (126, 126)], 21, []⟩, ⟨[(58, 58)], 22, [.writeField]⟩,
     ⟨[(78, 78), (110, 110)], 34, []⟩],
    [⟨[(33, 33), (35, 39), (42, 43), (45, 46), (48, 57), (65, 90), (94, 122), (124, 124),
         (126, 126)], 21, []⟩, ⟨[(58, 58)], 35, [.writeField]⟩],
    [⟨[(0, 8), (14, 31), (33, 66), (68, 98), (100, 255)], 23, [.startValue]⟩,
     ⟨[(9, 9), (11, 12), (32, 32)], 35, [.startValue]⟩,
     ⟨[(10, 10)], 36, [.startValue, .writeValue]⟩, ⟨[(13, 13)], 95, [.startValue, .writeValue]⟩,
     ⟨[(67, 67), (99, 99)], 96, [.startValue]⟩],
    [⟨[(9, 9), (11, 12), (32, 32)], 37, []⟩, ⟨[(10, 10)], 122, [.done]⟩, ⟨[(13, 13)], 89, []⟩,
     ⟨[(33, 33), (35, 39), (42, 43), (45, 46), (48, 57), (65, 66), (68, 83), (85, 90), (94, 98),
         (100, 115), (117, 122), (124, 124), (126, 126)], 21, [.startField]⟩,
     ⟨[(67, 67), (99, 99)], 90, [.startField]⟩, ⟨[(84, 84), (116, 116)], 44, [.startField]⟩],
    [⟨[(9, 13), (32, 32)], 37, []⟩, ⟨[(67, 67), (99, 99)], 38, []⟩],
    [⟨[(76, 76), (108, 108)], 39, []⟩],
    [⟨[(79, 79), (111, 111)], 40, []⟩],
    [⟨[(83, 83), (115, 115)], 41, []⟩],
    [⟨[(69, 69), (101, 101)], 42, []⟩],
    [⟨[(10, 10)], 43, []⟩, ⟨[(13, 13)], 88, []⟩],
    [⟨[(10, 10)], 120, [.writeConnectionClose, .done]⟩, ⟨[(13, 13)], 3, [.writeConnectionClose]⟩,
     ⟨[(33, 33), (35, 39), (42, 43), (45, 46), (48, 57), (65, 66), (68, 83), (85, 90), (94, 98),
         (100, 115), (117, 122), (124, 124), (126, 126)], 21, [.writeConnectionClose, .startField]⟩,
     ⟨[(67, 67), (99, 99)], 25, [.writeConnectionClose, .startField]⟩,
     ⟨[(84, 84), (116, 116)], 44, [.writeConnectionClose, .startField]⟩],
    [⟨[(33, 33), (35, 39), (42, 43), (45, 46), (48, 57), (65, 81), (83, 90), (94, 113), (115, 122),
         (124, 124), (126, 126)], 21, []⟩, ⟨[(58, 58)], 22, [.writeField]⟩,
     ⟨[(82, 82), (114, 114)], 45, []⟩],
    [⟨[(33, 33), (35, 39), (42, 43), (45, 46), (48, 57), (66, 90), (94, 96), (98, 122), (124, 124),
         (126, 126)], 21, []⟩, ⟨[(58, 58)], 22, [.writeField]⟩, ⟨[(65, 65), (97, 97)], 46, []⟩],
    [⟨[(33, 33), (35, 39), (42, 43), (45, 46), (48, 57), (65, 77), (79, 90), (94, 109), (111, 122),
         (124, 124), (126, 126)], 21, []⟩, ⟨[(58, 58)], 22, [.writeField]⟩,
     ⟨[(78, 78), (110, 110)], 47, []⟩],
    [⟨[(33, 33), (35, 39), (42, 43), (45, 46), (48, 57), (65, 82), (84, 90), (94, 114), (116, 122),
         (124, 124), (126, 126)], 21, []⟩, ⟨[(58, 58)], 22, [.writeField]⟩,
     ⟨[(83, 83), (115, 115)], 48, []⟩],
    [⟨[(33, 33), (35, 39), (42, 43), (45, 46), (48, 57), (65, 69), (71, 90), (94, 101), (103, 122),
         (124, 124), (126, 126)], 21, []⟩, ⟨[(58, 58)], 22, [.writeField]⟩,
     ⟨[(70, 70), (102, 102)], 49, []⟩],
    [⟨[(33, 33), (35, 39), (42, 43), (45, 46), (48, 57), (65, 68), (70, 90), (94, 100), (102, 122),
         (124, 124), (126, 126)], 21, []⟩, ⟨[(58, 58)], 22, [.writeField]⟩,
     ⟨[(69, 69), (101, 101)], 50, []⟩],
    -- the states from 50 on
    [⟨[(33, 33), (35, 39), (42, 43), (45, 46), (48, 57), (65, 81), (83, 90), (94, 113), (115, 122),
         (124, 124), (126, 126)], 21, []⟩, ⟨[(58, 58)], 22, [.writeField]⟩,
     ⟨[(82, 82), (114, 114)], 51, []⟩],
    [⟨[(33, 33), (35, 39), (42, 43), (46, 46), (48, 57), (65, 90), (94, 122), (124, 124),
         (126, 126)], 21, []⟩, ⟨[(45, 45)], 52, []⟩, ⟨[(58, 58)], 22, [.writeField]⟩],
    [⟨[(33, 33), (35, 39), (42, 43), (45, 46), (48, 57), (65, 68), (70, 90), (94, 100), (102, 122),
         (124, 124), (126, 126)], 21, []⟩, ⟨[(58, 58)], 22, [.writeField]⟩,
     ⟨[(69, 69), (101, 101)], 53, []⟩],
    [⟨[(33, 33), (35, 39), (42, 43), (45, 46), (48, 57), (65, 77), (79, 90), (94, 109), (111, 122),
         (124, 124), (126, 126)], 21, []⟩, ⟨[(58, 58)], 22, [.writeField]⟩,
     ⟨[(78, 78), (110, 110)], 54, []⟩],
    [⟨[(33, 33), (35, 39), (42, 43), (45, 46), (48, 57), (65, 66), (68, 90), (94, 98), (100, 122),
         (124, 124), (126, 126)], 21, []⟩, ⟨[(58, 58)], 22, [.writeField]⟩,
     ⟨[(67, 67), (99, 99)], 55, []⟩],
    [⟨[(33, 33), (35, 39), (42, 43), (45, 46), (48, 57), (65, 78), (80, 90), (94, 110), (112, 122),
         (124, 124), (126, 126)], 21, []⟩, ⟨[(58, 58)], 22, [.writeField]⟩,
     ⟨[(79, 79), (111, 111)], 56, []⟩],
    [⟨[(33, 33), (35, 39), (42, 43), (45, 46), (48, 57), (65, 67), (69, 90), (94, 99), (101, 122),
         (124, 124), (126, 126)], 21, []⟩, ⟨[(58, 58)], 22, [.writeField]⟩,
     ⟨[(68, 68), (100, 100)], 57, []⟩],
    [⟨[(33, 33), (35, 39), (42, 43), (45, 46), (48, 57), (65, 72), (74, 90), (94, 104), (106, 122),
         (124, 124), (126, 126)], 21, []⟩, ⟨[(58, 58)], 22, [.writeField]⟩,
     ⟨[(73, 73), (105, 105)], 58, []⟩],
    [⟨[(33, 33), (35, 39), (42, 43), (45, 46), (48, 57), (65, 77), (79, 90), (94, 109), (111, 122),
         (124, 124), (126, 126)], 21, []⟩, ⟨[(58, 58)], 22, [.writeField]⟩,
     ⟨[(78, 78), (110, 110)], 59, []⟩],
    [⟨[(33, 33), (35, 39), (42, 43), (45, 46), (48, 57), (65, 70), (72, 90), (94, 102), (104, 122),
         (124, 124), (126, 126)], 21, []⟩, ⟨[(58, 58)], 22, [.writeField]⟩,
     ⟨[(71, 71), (103, 103)], 60, []⟩],
    [⟨[(33, 33), (35, 39), (42, 43), (45, 46), (48, 57), (65, 90), (94, 122), (124, 124),
         (126, 126)], 21, []⟩, ⟨[(58, 58)], 61, [.writeField]⟩],
    [⟨[(0, 8), (14, 31), (33, 66), (68, 98), (100, 255)], 23, [.startValue]⟩,
     ⟨[(9, 9), (11, 12), (32, 32)], 61, [.startValue]⟩,
     ⟨[(10, 10)], 62, [.startValue, .writeValue]⟩, ⟨[(13, 13)], 80, [.startValue, .writeValue]⟩,
     ⟨[(67, 67), (99, 99)], 81, [.startValue]⟩],
    [⟨[(9, 9), (11, 12), (32, 32)], 63, []⟩, ⟨[(10, 10)], 121, [.done]⟩, ⟨[(13, 13)], 72, []⟩,
     ⟨[(33, 33), (35, 39), (42, 43), (45, 46), (48, 57), (65, 66), (68, 83), (85, 90), (94, 98),
         (100, 115), (117, 122), (124, 124), (126, 126)], 21, [.startField]⟩,
     ⟨[(67, 67), (99, 99)], 73, [.startValue, .startField]⟩,
     ⟨[(84, 84), (116, 116)], 44, [.startField]⟩],
    [⟨[(9, 13), (32, 32)], 63, []⟩, ⟨[(67, 67), (99, 99)], 64, [.startValue]⟩],
    [⟨[(72, 72), (104, 104)], 65, []⟩],
    [⟨[(85, 85), (117, 117)], 66, []⟩],
    [⟨[(78, 78), (110, 110)], 67, []⟩],
    [⟨[(75, 75), (107, 107)], 68, []⟩],
    [⟨[(69, 69), (101, 101)], 69, []⟩],
    [⟨[(68, 68), (100, 100)], 70, []⟩],
    [⟨[(10, 10)], 20, [.writeValue, .transChunked]⟩, ⟨[(13, 13)], 71, [.writeValue]⟩],
    [⟨[(10, 10)], 20, [.transChunked]⟩],
    [⟨[(9, 9), (11, 13), (32, 32)], 63, []⟩, ⟨[(10, 10)], 121, [.done]⟩,
     ⟨[(67, 67), (99, 99)], 64, [.startValue]⟩],
    [⟨[(33, 33), (35, 39), (42, 43), (45, 46), (48, 57), (65, 71), (73, 78), (80, 90), (94, 103),
         (105, 110), (112, 122), (124, 124), (126, 126)], 21, []⟩, ⟨[(58, 58)], 22, [.writeField]⟩,
     ⟨[(72, 72), (104, 104)], 74, []⟩, ⟨[(79, 79), (111, 111)], 26, []⟩],
    [⟨[(33, 33), (35, 39), (42, 43), (45, 46), (48, 57), (65, 84), (86, 90), (94, 116), (118, 122),
         (124, 124), (126, 126)], 21, []⟩, ⟨[(58, 58)], 22, [.writeField]⟩,
     ⟨[(85, 85), (117, 117)], 75, []⟩],
    -- the states from 75 on
    [⟨[(33, 33), (35, 39), (42, 43), (45, 46), (48, 57), (65, 77), (79, 90), (94, 109), (111, 122),
         (124, 124), (126, 126)], 21, []⟩, ⟨[(58, 58)], 22, [.writeField]⟩,
     ⟨[(78, 78), (110, 110)], 76, []⟩],
    [⟨[(33, 33), (35, 39), (42, 43), (45, 46), (48, 57), (65, 74), (76, 90), (94, 106), (108, 122),
         (124, 124), (126, 126)], 21, []⟩, ⟨[(58, 58)], 22, [.writeField]⟩,
     ⟨[(75, 75), (107, 107)], 77, []⟩],
    [⟨[(33, 33), (35, 39), (42, 43), (45, 46), (48, 57), (65, 68), (70, 90), (94, 100), (102, 122),
         (124, 124), (126, 126)], 21, []⟩, ⟨[(58, 58)], 22, [.writeField]⟩,
     ⟨[(69, 69), (101, 101)], 78, []⟩],
    [⟨[(33, 33), (35, 39), (42, 43), (45, 46), (48, 57), (65, 67), (69, 90), (94, 99), (101, 122),
         (124, 124), (126, 126)], 21, []⟩, ⟨[(58, 58)], 22, [.writeField]⟩,
     ⟨[(68, 68), (100, 100)], 79, []⟩],
    [⟨[(10, 10)], 20, [.writeValue, .transChunked]⟩, ⟨[(13, 13)], 71, [.writeValue]⟩,
     ⟨[(33, 33), (35, 39), (42, 43), (45, 46), (48, 57), (65, 90), (94, 122), (124, 124),
         (126, 126)], 21, []⟩, ⟨[(58, 58)], 22, [.writeField]⟩],
    [⟨[(9, 9), (11, 13), (32, 32)], 63, []⟩, ⟨[(10, 10)], 62, []⟩,
     ⟨[(67, 67), (99, 99)], 64, [.startValue]⟩],
    [⟨[(0, 9), (11, 12), (14, 71), (73, 103), (105, 255)], 23, []⟩, ⟨[(10, 10)], 20, [.writeValue]⟩,
     ⟨[(13, 13)], 24, [.writeValue]⟩, ⟨[(72, 72), (104, 104)], 82, []⟩],
    [⟨[(0, 9), (11, 12), (14, 84), (86, 116), (118, 255)], 23, []⟩, ⟨[(10, 10)], 20, [.writeValue]⟩,
     ⟨[(13, 13)], 24, [.writeValue]⟩, ⟨[(85, 85), (117, 117)], 83, []⟩],
    [⟨[(0, 9), (11, 12), (14, 77), (79, 109), (111, 255)], 23, []⟩, ⟨[(10, 10)], 20, [.writeValue]⟩,
     ⟨[(13, 13)], 24, [.writeValue]⟩, ⟨[(78, 78), (110, 110)], 84, []⟩],
    [⟨[(0, 9), (11, 12), (14, 74), (76, 106), (108, 255)], 23, []⟩, ⟨[(10, 10)], 20, [.writeValue]⟩,
     ⟨[(13, 13)], 24, [.writeValue]⟩, ⟨[(75, 75), (107, 107)], 85, []⟩],
    [⟨[(0, 9), (11, 12), (14, 68), (70, 100), (102, 255)], 23, []⟩, ⟨[(10, 10)], 20, [.writeValue]⟩,
     ⟨[(13, 13)], 24, [.writeValue]⟩, ⟨[(69, 69), (101, 101)], 86, []⟩],
    [⟨[(0, 9), (11, 12), (14, 67), (69, 99), (101, 255)], 23, []⟩, ⟨[(10, 10)], 20, [.writeValue]⟩,
     ⟨[(13, 13)], 24, [.writeValue]⟩, ⟨[(68, 68), (100, 100)], 87, []⟩],
    [⟨[(0, 9), (11, 12), (14, 255)], 23, []⟩, ⟨[(10, 10)], 20, [.writeValue, .transChunked]⟩,
     ⟨[(13, 13)], 71, [.writeValue]⟩],
    [⟨[(10, 10)], 43, []⟩],
    [⟨[(9, 9), (11, 13), (32, 32)], 37, []⟩, ⟨[(10, 10)], 122, [.done]⟩,
     ⟨[(67, 67), (99, 99)], 38, []⟩],
    [⟨[(33, 33), (35, 39), (42, 43), (45, 46), (48, 57), (65, 75), (77, 78), (80, 90), (94, 107),
         (109, 110), (112, 122), (124, 124), (126, 126)], 21, []⟩, ⟨[(58, 58)], 22, [.writeField]⟩,
     ⟨[(76, 76), (108, 108)], 91, []⟩, ⟨[(79, 79), (111, 111)], 26, []⟩],
    [⟨[(33, 33), (35, 39), (42, 43), (45, 46), (48, 57), (65, 78), (80, 90), (94, 110), (112, 122),
         (124, 124), (126, 126)], 21, []⟩, ⟨[(58, 58)], 22, [.writeField]⟩,
     ⟨[(79, 79), (111, 111)], 92, []⟩],
    [⟨[(33, 33), (35, 39), (42, 43), (45, 46), (48, 57), (65, 82), (84, 90), (94, 114), (116, 122),
         (124, 124), (126, 126)], 21, []⟩, ⟨[(58, 58)], 22, [.writeField]⟩,
     ⟨[(83, 83), (115, 115)], 93, []⟩],
    [⟨[(33, 33), (35, 39), (42, 43), (45, 46), (48, 57), (65, 68), (70, 90), (94, 100), (102, 122),
         (124, 124), (126, 126)], 21, []⟩, ⟨[(58, 58)], 22, [.writeField]⟩,
     ⟨[(69, 69), (101, 101)], 94, []⟩],
    [⟨[(10, 10)], 43, []⟩, ⟨[(13, 13)], 88, []⟩,
     ⟨[(33, 33), (35, 39), (42, 43), (45, 46), (48, 57), (65, 90), (94, 122), (124, 124),
         (126, 126)], 21, []⟩, ⟨[(58, 58)], 22, [.writeField]⟩],
    [⟨[(9, 9), (11, 13), (32, 32)], 37, []⟩, ⟨[(10, 10)], 36, []⟩, ⟨[(67, 67), (99, 99)], 38, []⟩],
    [⟨[(0, 9), (11, 12), (14, 75), (77, 107), (109, 255)], 23, []⟩, ⟨[(10, 10)], 20, [.writeValue]⟩,
     ⟨[(13, 13)], 24, [.writeValue]⟩, ⟨[(76, 76), (108, 108)], 97, []⟩],
    [⟨[(0, 9), (11, 12), (14, 78), (80, 110), (112, 255)], 23, []⟩, ⟨[(10, 10)], 20, [.writeValue]⟩,
     ⟨[(13, 13)], 24, [.writeValue]⟩, ⟨[(79, 79), (111, 111)], 98, []⟩],
    [⟨[(0, 9), (11, 12), (14, 82), (84, 114), (116, 255)], 23, []⟩, ⟨[(10, 10)], 20, [.writeValue]⟩,
     ⟨[(13, 13)], 24, [.writeValue]⟩, ⟨[(83, 83), (115, 115)], 99, []⟩],
    [⟨[(0, 9), (11, 12), (14, 68), (70, 100), (102, 255)], 23, []⟩, ⟨[(10, 10)], 20, [.writeValue]⟩,
     ⟨[(13, 13)], 24, [.writeValue]⟩, ⟨[(69, 69), (101, 101)], 100, []⟩],
    -- the states from 100 on
    [⟨[(0, 9), (11, 12), (14, 255)], 23, []⟩, ⟨[(10, 10)], 43, [.writeValue]⟩,
     ⟨[(13, 13)], 88, [.writeValue]⟩],
    [⟨[(33, 33), (35, 39), (42, 43), (45, 46), (48, 57), (65, 68), (70, 90), (94, 100), (102, 122),
         (124, 124), (126, 126)], 21, []⟩, ⟨[(58, 58)], 22, [.writeField]⟩,
     ⟨[(69, 69), (101, 101)], 102, []⟩],
    [⟨[(33, 33), (35, 39), (42, 43), (45, 46), (48, 57), (65, 77), (79, 90), (94, 109), (111, 122),
         (124, 124), (126, 126)], 21, []⟩, ⟨[(58, 58)], 22, [.writeField]⟩,
     ⟨[(78, 78), (110, 110)], 103, []⟩],
    [⟨[(33, 33), (35, 39), (42, 43), (45, 46), (48, 57), (65, 83), (85, 90), (94, 115), (117, 122),
         (124, 124), (126, 126)], 21, []⟩, ⟨[(58, 58)], 22, [.writeField]⟩,
     ⟨[(84, 84), (116, 116)], 104, []⟩],
    [⟨[(33, 33), (35, 39), (42, 43), (46, 46), (48, 57), (65, 90), (94, 122), (124, 124),
         (126, 126)], 21, []⟩, ⟨[(45, 45)], 105, []⟩, ⟨[(58, 58)], 22, [.writeField]⟩],
    [⟨[(33, 33), (35, 39), (42, 43), (45, 46), (48, 57), (65, 75), (77, 90), (94, 107), (109, 122),
         (124, 124), (126, 126)], 21, []⟩, ⟨[(58, 58)], 22, [.writeField]⟩,
     ⟨[(76, 76), (108, 108)], 106, []⟩],
    [⟨[(33, 33), (35, 39), (42, 43), (45, 46), (48, 57), (65, 68), (70, 90), (94, 100), (102, 122),
         (124, 124), (126, 126)], 21, []⟩, ⟨[(58, 58)], 22, [.writeField]⟩,
     ⟨[(69, 69), (101, 101)], 107, []⟩],
    [⟨[(33, 33), (35, 39), (42, 43), (45, 46), (48, 57), (65, 77), (79, 90), (94, 109), (111, 122),
         (124, 124), (126, 126)], 21, []⟩, ⟨[(58, 58)], 22, [.writeField]⟩,
     ⟨[(78, 78), (110, 110)], 108, []⟩],
    [⟨[(33, 33), (35, 39), (42, 43), (45, 46), (48, 57), (65, 70), (72, 90), (94, 102), (104, 122),
         (124, 124), (126, 126)], 21, []⟩, ⟨[(58, 58)], 22, [.writeField]⟩,
     ⟨[(71, 71), (103, 103)], 109, []⟩],
    [⟨[(33, 33), (35, 39), (42, 43), (45, 46), (48, 57), (65, 83), (85, 90), (94, 115), (117, 122),
         (124, 124), (126, 126)], 21, []⟩, ⟨[(58, 58)], 22, [.writeField]⟩,
     ⟨[(84, 84), (116, 116)], 110, []⟩],
    [⟨[(33, 33), (35, 39), (42, 43), (45, 46), (48, 57), (65, 71), (73, 90), (94, 103), (105, 122),
         (124, 124), (126, 126)], 21, []⟩, ⟨[(58, 58)], 22, [.writeField]⟩,
     ⟨[(72, 72), (104, 104)], 111, []⟩],
    [⟨[(33, 33), (35, 39), (42, 43), (45, 46), (48, 57), (65, 90), (94, 122), (124, 124),
         (126, 126)], 21, []⟩, ⟨[(58, 58)], 112, [.writeField]⟩],
    [⟨[(0, 8), (14, 31), (33, 47), (58, 255)], 23, [.startValue]⟩,
     ⟨[(9, 9), (11, 12), (32, 32)], 112, [.startValue]⟩,
     ⟨[(10, 10)], 113, [.startValue, .writeValue]⟩, ⟨[(13, 13)], 118, [.startValue, .writeValue]⟩,
     ⟨[(48, 57)], 119, [.startValue]⟩],
    [⟨[(9, 9), (11, 12), (32, 32)], 114, []⟩, ⟨[(10, 10)], 123, [.done]⟩, ⟨[(13, 13)], 116, []⟩,
     ⟨[(33, 33), (35, 39), (42, 43), (45, 46), (65, 66), (68, 83), (85, 90), (94, 98), (100, 115),
         (117, 122), (124, 124), (126, 126)], 21, [.startField]⟩,
     ⟨[(48, 57)], 117, [.startValue, .startField]⟩, ⟨[(67, 67), (99, 99)], 25, [.startField]⟩,
     ⟨[(84, 84), (116, 116)], 44, [.startField]⟩],
    [⟨[(9, 13), (32, 32)], 114, []⟩, ⟨[(48, 57)], 115, [.startValue]⟩],
    [⟨[(10, 10)], 20, [.writeContentLen, .writeValue]⟩,
     ⟨[(13, 13)], 24, [.writeContentLen, .writeValue]⟩, ⟨[(48, 57)], 115, []⟩],
    [⟨[(9, 9), (11, 13), (32, 32)], 114, []⟩, ⟨[(10, 10)], 123, [.done]⟩,
     ⟨[(48, 57)], 115, [.startValue]⟩],
    [⟨[(10, 10)], 20, [.writeContentLen, .writeValue]⟩,
     ⟨[(13, 13)], 24, [.writeContentLen, .writeValue]⟩,
     ⟨[(33, 33), (35, 39), (42, 43), (45, 46), (65, 90), (94, 122), (124, 124), (126, 126)],
         21, []⟩, ⟨[(48, 57)], 117, []⟩, ⟨[(58, 58)], 22, [.writeField]⟩],
    [⟨[(9, 9), (11, 13), (32, 32)], 114, []⟩, ⟨[(10, 10)], 113, []⟩,
     ⟨[(48, 57)], 115, [.startValue]⟩],
    [⟨[(0, 9), (11, 12), (14, 47), (58, 255)], 23, []⟩,
     ⟨[(10, 10)], 20, [.writeContentLen, .writeValue]⟩,
     ⟨[(13, 13)], 24, [.writeContentLen, .writeValue]⟩, ⟨[(48, 57)], 119, []⟩],
    [],
    [⟨[(9, 13), (32, 32)], 63, []⟩, ⟨[(67, 67), (99, 99)], 64, [.startValue]⟩],
    [⟨[(9, 13), (32, 32)], 37, []⟩, ⟨[(67, 67), (99, 99)], 38, []⟩],
    [⟨[(9, 13), (32, 32)], 114, []⟩, ⟨[(48, 57)], 115, [.startValue]⟩]
  ]

/-- The generated response scanner; `httpclient_parser_is_finished` takes only the first of the
final states for one. -/
@[reducible] def httpclientParser : ResponceTable :=
  ofRows httpclientParserRows 1 (Nat.beq 120)

end Muhui.Http
