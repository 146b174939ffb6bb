import Phrasebook.Text.Basic

/-!
# Classes of characters

Letters, the characters of words and the characters that can be printed, of every script. The tables
follow the Unicode standard, version 14. Each lists the lengths of the runs of code points that are
outside and inside a class by turns.
-/

namespace Phrasebook.Text

/-- Whether a code point is inside a class with the given runs; `inside` says whether the first of
them is. What comes behind all runs is outside. -/
def inRuns : (runs : List Nat) → (inside : Bool) → (code : Nat) → Bool
  | [], _, _ => false
  | run :: runs, inside, code => if code < run then inside else inRuns runs (!inside) (code - run)

/-- The runs of letters, of the marks that count as letters and of the digits of all scripts but
ASCII. -/
def letterRuns : List Nat := [
  170,1,10,1,4,1,5,23,1,31,1,458,4,12,14,5,7,1,1,1,86,1,29,18,1,2,2,4,1,1,6,1,1,3,1,1,1,20,1,83,1,
  139,8,166,1,38,2,1,6,41,39,14,1,1,1,2,1,2,1,1,8,27,4,4,29,11,5,56,1,17,4,102,1,8,4,8,4,16,2,1,16,
  48,13,101,14,43,9,2,4,1,5,24,2,19,19,25,7,11,5,24,1,6,17,42,10,12,3,7,6,76,1,16,1,3,4,15,2,10,1,
  19,1,8,2,2,2,22,1,7,1,1,3,4,3,8,2,2,2,2,1,1,8,1,4,2,1,5,2,12,10,1,4,3,1,6,4,2,2,22,1,7,1,2,1,2,1,
  2,4,5,4,2,2,2,4,1,7,4,1,1,7,16,11,3,1,9,1,3,1,22,1,7,1,2,1,5,3,9,1,3,1,2,3,1,15,4,2,10,9,4,4,3,1,
  8,2,2,2,22,1,7,1,2,1,5,3,8,2,2,2,2,9,2,4,2,1,5,2,10,1,1,16,2,1,6,3,3,1,4,3,2,1,1,1,2,3,2,3,3,3,12,
  4,5,3,3,1,3,3,1,6,1,14,10,16,13,1,3,1,23,1,16,3,8,1,3,1,3,8,2,1,3,2,1,2,4,2,10,16,4,1,8,1,3,1,23,
  1,10,1,5,3,8,1,3,1,3,8,2,6,2,1,4,2,10,1,2,13,13,1,3,1,41,2,8,1,3,1,3,1,1,5,4,7,5,2,10,10,6,1,3,1,
  18,3,24,1,9,1,1,2,7,8,6,1,1,1,8,6,10,2,2,13,58,5,7,6,1,2,10,39,2,1,1,1,5,1,24,1,1,1,19,1,3,2,5,1,
  1,6,1,2,10,2,4,32,1,31,10,22,8,1,36,4,19,4,16,1,36,67,55,1,1,2,15,6,78,2,38,1,1,5,1,2,43,1,333,1,
  4,2,7,1,1,1,4,2,41,1,4,2,33,1,4,2,7,1,1,1,4,2,15,1,57,1,4,2,67,37,16,16,86,2,6,3,620,2,17,1,26,5,
  75,3,11,7,20,11,21,12,20,12,13,1,3,1,2,12,52,2,19,14,1,4,1,3,10,38,10,6,89,7,43,5,70,10,31,1,12,4,
  9,13,40,2,5,11,44,4,26,6,10,38,28,4,63,2,20,11,10,6,10,13,1,23,2,11,3,49,52,1,15,1,8,3,10,38,42,2,
  58,1,11,14,55,9,10,3,49,2,9,7,43,2,3,41,4,1,6,1,2,3,1,5,192,19,34,11,278,2,6,2,38,2,6,2,8,1,1,1,1,
  1,1,1,31,2,53,1,7,1,1,3,3,1,7,3,4,2,6,4,13,5,3,1,7,116,1,13,1,16,13,101,1,4,1,2,10,1,1,3,5,6,1,1,
  1,1,1,1,4,1,11,2,4,5,5,4,1,17,41,813,52,1814,229,6,4,3,2,12,38,1,1,5,1,2,56,7,1,16,23,9,7,1,7,1,7,
  1,7,1,7,1,7,1,7,1,7,1,32,47,1,469,3,25,9,7,5,2,5,4,86,6,3,1,90,1,4,5,43,1,94,17,32,48,16,512,6592,
  64,22157,67,46,2,269,3,28,20,47,5,8,3,113,39,9,2,103,2,64,5,2,1,1,1,5,24,20,1,33,24,52,12,68,1,1,
  10,10,24,6,3,1,1,46,5,35,13,29,3,51,1,12,15,11,6,31,1,55,9,14,2,10,6,23,3,69,1,1,1,1,24,3,2,16,2,
  4,11,6,2,6,2,6,9,7,1,7,1,43,1,14,6,123,5,10,6,11172,12,23,4,49,8452,366,2,106,38,7,12,5,5,12,1,13,
  1,5,1,1,1,2,1,2,1,108,33,363,18,64,2,54,40,12,116,5,1,135,19,10,7,26,6,26,11,89,3,6,2,6,2,6,2,3,
  35,12,1,26,1,19,1,2,1,15,2,14,34,123,69,53,267,29,3,49,47,32,13,30,5,43,5,30,2,36,4,8,1,5,42,158,
  2,10,6,36,4,36,4,40,8,52,12,11,1,15,1,7,1,2,1,11,1,15,1,7,1,2,67,311,9,22,10,8,24,6,1,42,1,9,69,6,
  2,1,1,44,1,2,3,1,2,23,10,23,9,31,65,19,1,2,10,22,10,26,70,56,6,2,64,4,1,2,5,8,1,3,1,29,42,29,3,29,
  35,8,1,28,27,54,10,22,10,19,13,18,110,73,55,51,13,51,13,40,8,10,326,42,1,2,3,2,78,29,10,1,8,22,42,
  18,46,21,27,23,9,70,32,10,1,5,10,57,9,1,13,25,7,10,6,51,3,10,4,4,8,35,3,1,9,64,1,4,9,13,1,1,35,18,
  1,34,2,1,6,1,65,7,1,1,1,4,1,15,1,10,7,57,7,10,6,4,1,8,2,2,2,22,1,7,1,2,1,5,3,8,2,2,2,2,3,1,6,1,5,
  7,156,66,1,3,1,4,5,10,5,3,30,66,2,2,1,1,8,10,166,54,2,7,25,6,34,63,1,1,3,1,11,10,38,54,2,1,7,10,
  54,27,2,14,5,10,6,7,185,57,103,74,21,8,2,1,2,8,1,2,1,30,1,2,2,2,2,4,13,10,70,8,2,46,2,6,1,1,1,2,
  27,51,2,10,17,72,5,1,18,73,263,9,1,45,1,7,1,1,15,10,24,30,2,22,1,14,73,7,1,2,1,44,3,1,1,2,1,3,1,1,
  2,2,8,10,6,6,1,2,1,37,1,2,1,4,1,1,7,10,310,23,185,1,79,922,102,111,17,196,2636,97,15,1071,4049,
  583,8633,569,7,31,1,10,6,79,1,10,6,30,18,48,16,4,12,10,9,21,5,19,688,64,128,75,4,57,7,17,64,2,1,1,
  12,2,14,6136,8,1238,42,9,8935,4,1,7,1,2,1,291,45,3,17,4,8,396,2308,107,5,13,3,9,7,10,4,1,5985,85,
  1,71,1,2,2,1,2,2,2,4,1,12,1,1,1,7,1,65,1,4,2,8,1,7,1,28,1,4,1,5,1,1,3,7,1,340,2,25,1,25,1,31,1,25,
  1,31,1,25,1,31,1,25,1,31,1,25,1,8,2,50,1792,31,225,7,1,17,2,7,1,2,1,5,213,45,10,7,2,10,4,1,321,30,
  18,44,4,10,1254,7,1,4,1,2,1,15,1,197,59,68,3,1,3,1,4,10,1190,4,1,27,1,2,1,1,2,1,1,10,1,4,1,1,1,1,
  6,1,4,1,1,1,1,1,1,3,1,2,1,1,2,1,1,1,1,1,1,1,1,1,1,2,1,1,2,4,1,7,1,4,1,4,1,1,1,10,1,17,5,3,1,5,1,
  17,628,26,6,26,6,26,2662,10,1030,42720,32,4153,7,222,2,5762,14,7473,3103,542,1506,4939]

/-- A letter of any script. -/
def isLetter (char : Char) : Bool :=
  if char.toNat < 0x80 then char.isAlpha else inRuns letterRuns false char.toNat

/-- A letter of any script or a digit. -/
def isLetterOrDigit (char : Char) : Bool :=
  char.isDigit || isLetter char

/-- The runs of letters, digits and numeric characters beyond ASCII. -/
def wordRuns : List Nat := [
  170,1,7,2,1,1,3,2,1,3,1,23,1,31,1,458,4,12,14,5,7,1,1,1,129,5,1,2,2,4,1,1,6,1,1,3,1,1,1,20,1,83,1,
  139,8,166,1,38,2,1,6,41,71,27,4,4,45,43,21,10,4,2,1,99,1,1,15,2,7,15,2,1,16,1,1,30,29,89,11,1,14,
  43,9,2,4,1,5,22,4,1,9,1,3,1,23,25,7,11,5,24,1,6,17,42,58,54,3,1,18,1,7,10,4,10,1,16,4,8,2,2,2,22,
  1,7,1,1,3,4,3,1,16,1,13,2,1,3,4,12,2,6,2,1,8,6,4,2,2,22,1,7,1,2,1,2,1,2,31,4,1,1,7,10,2,3,16,9,1,
  3,1,22,1,7,1,2,1,5,3,1,18,1,15,2,4,10,9,1,11,8,2,2,2,22,1,7,1,2,1,5,3,1,30,2,1,3,4,10,1,7,11,1,1,
  6,3,3,1,4,3,2,1,1,1,2,3,2,3,3,3,12,22,1,21,13,18,8,1,3,1,23,1,16,3,1,26,3,2,1,2,2,4,10,8,7,1,1,4,
  8,1,3,1,23,1,10,1,5,3,1,31,2,1,2,4,10,1,2,17,9,1,3,1,41,2,1,16,1,5,3,1,10,4,19,1,6,5,18,3,24,1,9,
  1,1,2,7,31,10,17,48,1,2,12,7,9,10,39,2,1,1,1,5,1,24,1,1,1,10,1,2,9,1,2,5,1,1,9,10,2,4,32,1,31,20,
  12,8,1,36,27,5,115,43,20,11,6,6,4,4,3,1,3,2,7,3,4,13,12,1,1,10,6,38,1,1,5,1,2,43,1,333,1,4,2,7,1,
  1,1,4,2,41,1,4,2,33,1,4,2,7,1,1,1,4,2,15,1,57,1,4,2,67,14,20,3,16,16,86,2,6,3,620,2,17,1,26,5,75,
  3,11,7,18,13,19,14,18,14,13,1,3,15,52,35,1,4,1,3,10,6,10,22,10,6,89,7,5,2,34,1,1,5,70,10,31,39,40,
  2,5,11,44,4,26,6,11,37,23,9,53,43,10,6,10,13,1,93,47,17,8,3,10,41,30,13,56,26,36,28,10,3,49,2,9,7,
  43,2,3,41,4,1,6,1,2,3,1,5,192,64,278,2,6,2,38,2,6,2,8,1,1,1,1,1,1,1,31,2,53,1,7,1,1,3,3,1,7,3,4,2,
  6,4,13,5,3,1,7,115,2,2,6,5,11,6,13,101,1,4,1,2,10,1,1,3,5,6,1,1,1,1,1,1,4,1,11,2,4,5,5,4,1,1,58,
  726,60,78,22,630,30,1132,229,6,4,3,2,9,1,2,38,1,1,5,1,2,56,7,1,16,23,9,7,1,7,1,7,1,7,1,7,1,7,1,7,
  1,7,80,1,469,3,25,9,7,5,2,5,4,86,6,3,1,90,1,4,5,43,1,94,3,4,10,32,48,16,32,10,30,8,1,15,32,10,39,
  15,320,6592,64,22157,67,46,2,269,3,28,20,47,16,31,2,80,39,9,2,103,2,64,5,2,1,1,1,5,24,16,1,3,1,4,
  1,23,13,6,10,52,14,50,28,10,24,6,3,1,1,2,1,38,10,23,25,29,7,47,28,11,6,5,1,25,1,41,23,3,1,8,4,10,
  6,23,3,1,3,50,1,1,3,2,2,5,2,1,1,1,24,3,2,11,7,3,12,6,2,6,2,6,9,7,1,7,1,43,1,14,6,115,13,10,6,
  11172,12,23,4,49,8452,366,2,106,38,7,12,5,5,1,1,10,1,13,1,5,1,1,1,2,1,2,1,108,33,363,18,64,2,54,
  40,12,116,5,1,135,19,10,7,26,6,26,11,89,3,6,2,6,2,6,2,3,35,12,1,26,1,19,1,2,1,15,2,14,34,123,12,
  45,12,57,17,2,244,29,3,49,16,27,4,36,9,30,5,38,10,30,2,36,4,8,1,5,42,158,2,10,6,36,4,36,4,40,8,52,
  12,11,1,15,1,7,1,2,1,11,1,15,1,7,1,2,67,311,9,22,10,8,24,6,1,42,1,9,69,6,2,1,1,44,1,2,3,1,2,23,2,
  31,2,38,8,9,48,19,1,2,5,33,4,26,70,56,4,20,2,47,15,4,1,3,1,29,10,9,23,31,1,32,32,8,1,28,6,5,16,54,
  10,22,2,27,5,26,23,7,80,73,55,51,13,51,7,42,12,10,294,31,1,42,6,2,78,40,8,22,11,4,27,18,46,28,20,
  23,12,53,26,30,1,2,2,1,13,45,32,25,7,10,9,36,15,10,4,1,2,1,8,35,3,1,12,48,14,4,11,11,1,1,4,20,11,
  18,1,25,84,7,1,1,1,4,1,15,1,10,7,47,17,10,11,8,2,2,2,22,1,7,1,2,1,5,3,1,18,1,12,5,158,53,18,4,5,
  10,5,3,30,48,20,2,1,1,8,10,166,47,41,4,36,48,20,1,11,10,38,43,13,1,7,10,54,27,21,12,4,7,185,44,
  116,83,12,8,2,1,2,8,1,2,1,24,15,1,1,1,14,10,70,8,2,39,16,1,1,1,28,1,10,40,7,1,21,1,11,46,19,1,18,
  73,263,9,1,37,17,1,15,29,5,30,112,7,1,2,1,38,21,1,9,10,6,6,1,2,1,32,14,1,7,10,310,19,189,1,15,21,
  43,922,102,111,17,196,2636,97,15,1071,4049,583,8633,569,7,31,1,10,6,79,1,10,6,30,18,48,16,4,12,10,
  1,7,1,21,5,19,688,87,105,75,5,1,66,13,64,2,1,1,28,6136,8,1238,42,9,8935,4,1,7,1,2,1,291,45,3,17,4,
  8,396,2308,107,5,13,3,9,7,10,5702,20,108,25,135,85,1,71,1,2,2,1,2,2,2,4,1,12,1,1,1,7,1,65,1,4,2,8,
  1,7,1,28,1,4,1,5,1,1,3,7,1,340,2,25,1,25,1,31,1,25,1,31,1,25,1,31,1,25,1,31,1,25,1,8,2,50,1792,31,
  481,45,10,7,2,10,4,1,321,30,18,44,4,10,1254,7,1,4,1,2,1,15,1,197,2,9,48,68,7,1,4,10,791,59,1,3,1,
  4,76,45,1,15,194,4,1,27,1,2,1,1,2,1,1,10,1,4,1,1,1,1,6,1,4,1,1,1,1,1,1,3,1,2,1,1,2,1,1,1,1,1,1,1,
  1,1,1,2,1,1,2,4,1,7,1,4,1,4,1,1,1,10,1,17,5,3,1,5,1,17,580,13,2787,10,1030,42720,32,4153,7,222,2,
  5762,14,7473,3103,542,1506,4939]

/-- A letter, a digit, a numeric character or an underscore. -/
def isWord (char : Char) : Bool :=
  if char.toNat < 0x80 then char.isAlphanum || char == '_'
  else inRuns wordRuns false char.toNat

/-- The runs of printable characters beyond ASCII: all but the separators other than the space, the
controls, the format characters, and the private and unassigned ones. -/
def printableRuns : List Nat := [
  161,12,1,714,2,6,4,7,1,1,1,20,1,397,1,38,2,50,2,3,1,55,8,27,4,6,17,22,1,192,1,48,2,59,2,101,14,59,
  2,49,2,15,1,28,2,1,1,11,5,31,9,74,1,161,1,8,2,2,2,22,1,7,1,1,3,4,2,9,2,2,2,4,8,1,4,2,1,5,2,25,2,3,
  1,6,4,2,2,22,1,7,1,2,1,2,1,2,2,1,1,5,4,2,2,3,3,1,7,4,1,1,7,17,10,3,1,9,1,3,1,22,1,7,1,2,1,5,2,10,
  1,3,1,3,2,1,15,4,2,12,7,7,1,3,1,8,2,2,2,22,1,7,1,2,1,5,2,9,2,2,2,3,7,3,4,2,1,5,2,18,10,2,1,6,3,3,
  1,4,3,2,1,1,1,2,3,2,3,3,3,12,4,5,3,3,1,4,2,1,6,1,14,21,5,13,1,3,1,23,1,16,2,9,1,3,1,4,7,2,1,3,2,1,
  2,4,2,10,7,22,1,3,1,23,1,10,1,5,2,9,1,3,1,4,7,2,6,2,1,4,2,10,1,2,13,13,1,3,1,51,1,3,1,6,4,16,2,26,
  1,3,1,18,3,24,1,9,1,1,2,7,3,1,4,6,1,1,1,8,6,10,2,3,12,58,4,29,37,2,1,1,1,5,1,24,1,1,1,23,2,5,1,1,
  1,6,2,10,2,4,32,72,1,36,4,39,1,36,1,15,1,13,37,198,1,1,5,1,2,377,1,4,2,7,1,1,1,4,2,41,1,4,2,33,1,
  4,2,7,1,1,1,4,2,15,1,57,1,4,2,67,2,32,3,26,6,86,2,6,2,640,1,28,3,89,7,22,9,24,9,20,12,13,1,3,1,2,
  12,94,2,10,6,10,6,14,1,11,6,89,7,43,5,70,10,31,1,12,4,12,4,1,3,42,2,5,11,44,4,26,6,11,3,62,2,65,1,
  29,2,11,6,10,6,14,2,31,49,77,3,47,1,116,8,60,3,15,3,60,7,43,2,11,8,43,5,534,2,6,2,38,2,6,2,8,1,1,
  1,1,1,1,1,31,2,53,1,15,1,14,2,6,1,19,2,3,1,9,17,24,8,47,17,2,2,27,1,13,3,33,15,33,15,140,4,663,25,
  11,21,1812,2,32,1,349,5,45,1,1,5,1,2,56,7,2,14,24,9,7,1,7,1,7,1,7,1,7,1,7,1,7,1,7,1,126,34,26,1,
  89,12,214,26,12,5,63,1,86,2,103,5,43,1,94,1,84,12,47,1,29293,3,55,9,348,20,184,8,203,5,2,1,1,1,5,
  24,59,3,10,6,56,8,70,8,12,6,116,11,30,3,78,1,11,4,33,1,55,9,14,2,10,2,103,24,28,10,6,2,6,2,6,9,7,
  1,7,1,60,4,126,2,10,6,11172,12,23,4,49,8452,366,2,106,38,7,12,5,5,26,1,5,1,1,1,2,1,2,1,125,16,445,
  2,54,7,1,32,42,6,51,1,19,1,4,4,5,1,135,4,190,3,6,2,6,2,6,2,3,3,7,1,7,13,2,2,12,1,26,1,19,1,2,1,15,
  2,14,34,123,5,3,4,45,3,88,1,13,3,1,47,46,130,29,3,49,15,28,4,36,9,30,5,43,5,30,1,37,4,14,42,158,2,
  10,6,36,4,36,4,40,8,52,11,12,1,15,1,7,1,2,1,11,1,15,1,7,1,2,67,311,9,22,10,8,24,6,1,42,1,9,69,6,2,
  1,1,44,1,2,3,1,2,23,1,72,8,9,48,19,1,2,5,33,3,27,5,1,64,56,4,20,2,50,1,2,5,8,1,3,1,29,2,3,4,10,7,
  9,7,64,32,39,4,12,9,54,3,29,2,27,5,26,7,4,12,7,80,73,55,51,13,51,7,46,8,10,294,31,1,42,1,3,2,2,78,
  40,8,42,22,26,38,28,20,23,9,78,4,36,9,62,1,5,13,25,7,10,6,53,1,18,8,39,9,96,1,20,11,18,1,44,65,7,
  1,1,1,4,1,15,1,11,6,59,5,10,6,4,1,8,2,2,2,22,1,7,1,2,1,5,1,10,2,2,2,3,2,1,6,1,5,7,2,7,3,5,139,92,
  1,5,30,72,8,10,166,54,2,38,34,69,11,10,6,13,19,58,6,10,54,27,2,15,4,23,185,60,100,83,12,8,2,1,2,8,
  1,2,1,30,1,2,2,12,9,10,70,8,2,46,2,11,27,72,8,83,13,73,263,9,1,45,1,14,10,29,3,32,2,22,1,14,73,7,
  1,2,1,44,3,1,1,2,1,9,8,10,6,6,1,2,1,37,1,2,1,6,7,10,310,25,183,1,15,50,13,923,102,111,1,5,11,196,
  2636,99,13,1071,4049,583,8633,569,7,31,1,10,4,81,1,10,6,30,2,6,10,70,10,10,1,7,1,21,5,19,688,91,
  101,75,4,57,7,17,64,5,11,2,14,6136,8,1238,42,9,8935,4,1,7,1,2,1,291,45,3,17,4,8,396,2308,107,5,13,
  3,9,7,10,2,4,4704,46,2,23,9,116,60,246,10,39,2,74,8,112,21,70,154,20,12,87,9,25,135,85,1,71,1,2,2,
  1,2,2,2,4,1,12,1,1,1,7,1,65,1,4,2,8,1,7,1,28,1,4,1,5,1,1,3,7,1,340,2,292,2,702,15,5,1,15,1104,31,
  225,7,1,17,2,7,1,2,1,5,213,45,3,14,2,10,4,2,320,31,17,58,5,1,1248,7,1,4,1,2,1,15,1,197,2,16,41,76,
  4,10,4,2,785,68,76,61,194,4,1,27,1,2,1,1,2,1,1,10,1,4,1,1,1,1,6,1,4,1,1,1,1,1,1,3,1,2,1,1,2,1,1,1,
  1,1,1,1,1,1,1,2,1,1,2,4,1,7,1,4,1,4,1,1,1,10,1,17,5,3,1,5,1,17,52,2,270,44,4,100,12,15,2,15,1,15,
  1,37,10,174,56,29,13,44,4,9,7,2,14,6,154,984,5,16,3,13,3,116,12,89,7,12,4,1,15,12,4,56,8,10,6,40,
  8,30,2,2,78,340,12,14,2,5,3,5,3,7,9,29,3,11,5,6,10,10,6,8,8,7,9,147,1,55,37,10,1030,42720,32,4153,
  7,222,2,5762,14,7473,3103,542,1506,4939,716213,240]

/-- A character that a quoted text shows as it is. -/
def isPrintable (char : Char) : Bool :=
  let code := char.toNat
  if code < 0x80 then 32 ≤ code && code < 127 else inRuns printableRuns false code

end Phrasebook.Text
