import Phrasebook.Text.Basic

/-!
# Small letters and capitals

The lower-case form of a text, and the capital of a letter. Capitals come in rows,
adjacent or with their small letters between them, so a row is given by its ends, its
step and the small letter of its first capital.
-/

namespace Phrasebook.Text

/-- A row of capitals: every `step`-th code point from `first` to `last`, whose
small letters start at `small` and advance alike. -/
structure CapitalRow where
  first : Nat
  last : Nat
  step : Nat
  small : Nat

/-- The capitals that stand in no row, with their small letters. -/
def soleCapitals : List (Nat × Nat) := [
  (376, 255), (385, 595), (390, 596), (391, 392), (395, 396), (398, 477), (399, 601), (400, 603),
  (401, 402), (403, 608), (404, 611), (406, 617), (407, 616), (408, 409), (412, 623), (413, 626),
  (415, 629), (422, 640), (423, 424), (425, 643), (428, 429), (430, 648), (431, 432), (439, 658),
  (440, 441), (444, 445), (452, 454), (453, 454), (455, 457), (456, 457), (502, 405), (503, 447),
  (544, 414), (570, 11365), (571, 572), (573, 410), (574, 11366), (577, 578), (579, 384),
  (580, 649), (581, 652), (886, 887), (895, 1011), (902, 940), (908, 972), (975, 983), (1012, 952),
  (1015, 1016), (1017, 1010), (1018, 1019), (1216, 1231), (4295, 11559), (4301, 11565), (7838, 223),
  (8124, 8115), (8140, 8131), (8172, 8165), (8188, 8179), (8486, 969), (8490, 107), (8491, 229),
  (8498, 8526), (8579, 8580), (11360, 11361), (11362, 619), (11363, 7549), (11364, 637),
  (11373, 593), (11374, 625), (11375, 592), (11376, 594), (11378, 11379), (11381, 11382),
  (11506, 11507), (42877, 7545), (42891, 42892), (42893, 613), (42922, 614), (42923, 604),
  (42924, 609), (42925, 620), (42926, 618), (42928, 670), (42929, 647), (42930, 669),
  (42931, 43859), (42948, 42900), (42949, 642), (42950, 7566), (42960, 42961), (42997, 42998)]

/-- The capitals beyond ASCII that have one small letter each. -/
def capitalRows : List CapitalRow := [
  ⟨192, 214, 1, 224⟩, ⟨216, 222, 1, 248⟩, ⟨256, 302, 2, 257⟩, ⟨306, 310, 2, 307⟩,
  ⟨313, 327, 2, 314⟩, ⟨330, 374, 2, 331⟩, ⟨377, 381, 2, 378⟩, ⟨386, 388, 2, 387⟩,
  ⟨393, 394, 1, 598⟩, ⟨416, 420, 2, 417⟩, ⟨433, 434, 1, 650⟩, ⟨435, 437, 2, 436⟩,
  ⟨458, 458, 1, 460⟩, ⟨459, 475, 2, 460⟩, ⟨478, 494, 2, 479⟩, ⟨497, 497, 1, 499⟩,
  ⟨498, 500, 2, 499⟩, ⟨504, 542, 2, 505⟩, ⟨546, 562, 2, 547⟩, ⟨582, 590, 2, 583⟩,
  ⟨880, 882, 2, 881⟩, ⟨904, 906, 1, 941⟩, ⟨910, 911, 1, 973⟩, ⟨913, 929, 1, 945⟩,
  ⟨931, 939, 1, 963⟩, ⟨984, 1006, 2, 985⟩, ⟨1021, 1023, 1, 891⟩, ⟨1024, 1039, 1, 1104⟩,
  ⟨1040, 1071, 1, 1072⟩, ⟨1120, 1152, 2, 1121⟩, ⟨1162, 1214, 2, 1163⟩, ⟨1217, 1229, 2, 1218⟩,
  ⟨1232, 1326, 2, 1233⟩, ⟨1329, 1366, 1, 1377⟩, ⟨4256, 4293, 1, 11520⟩, ⟨5024, 5103, 1, 43888⟩,
  ⟨5104, 5109, 1, 5112⟩, ⟨7312, 7354, 1, 4304⟩, ⟨7357, 7359, 1, 4349⟩, ⟨7680, 7828, 2, 7681⟩,
  ⟨7840, 7934, 2, 7841⟩, ⟨7944, 7951, 1, 7936⟩, ⟨7960, 7965, 1, 7952⟩, ⟨7976, 7983, 1, 7968⟩,
  ⟨7992, 7999, 1, 7984⟩, ⟨8008, 8013, 1, 8000⟩, ⟨8025, 8031, 2, 8017⟩, ⟨8040, 8047, 1, 8032⟩,
  ⟨8072, 8079, 1, 8064⟩, ⟨8088, 8095, 1, 8080⟩, ⟨8104, 8111, 1, 8096⟩, ⟨8120, 8121, 1, 8112⟩,
  ⟨8122, 8123, 1, 8048⟩, ⟨8136, 8139, 1, 8050⟩, ⟨8152, 8153, 1, 8144⟩, ⟨8154, 8155, 1, 8054⟩,
  ⟨8168, 8169, 1, 8160⟩, ⟨8170, 8171, 1, 8058⟩, ⟨8184, 8185, 1, 8056⟩, ⟨8186, 8187, 1, 8060⟩,
  ⟨8544, 8559, 1, 8560⟩, ⟨9398, 9423, 1, 9424⟩, ⟨11264, 11311, 1, 11312⟩, ⟨11367, 11371, 2, 11368⟩,
  ⟨11390, 11391, 1, 575⟩, ⟨11392, 11490, 2, 11393⟩, ⟨11499, 11501, 2, 11500⟩,
  ⟨42560, 42604, 2, 42561⟩, ⟨42624, 42650, 2, 42625⟩, ⟨42786, 42798, 2, 42787⟩,
  ⟨42802, 42862, 2, 42803⟩, ⟨42873, 42875, 2, 42874⟩, ⟨42878, 42886, 2, 42879⟩,
  ⟨42896, 42898, 2, 42897⟩, ⟨42902, 42920, 2, 42903⟩, ⟨42932, 42946, 2, 42933⟩,
  ⟨42951, 42953, 2, 42952⟩, ⟨42966, 42968, 2, 42967⟩, ⟨65313, 65338, 1, 65345⟩,
  ⟨66560, 66599, 1, 66600⟩, ⟨66736, 66771, 1, 66776⟩, ⟨66928, 66938, 1, 66967⟩,
  ⟨66940, 66954, 1, 66979⟩, ⟨66956, 66962, 1, 66995⟩, ⟨66964, 66965, 1, 67003⟩,
  ⟨68736, 68786, 1, 68800⟩, ⟨71840, 71871, 1, 71872⟩, ⟨93760, 93791, 1, 93792⟩,
  ⟨125184, 125217, 1, 125218⟩] ++
  soleCapitals.map fun (capital, small) => ⟨capital, capital, 1, small⟩

/-- The small letters of a character. Only the capital I with a dot has two. -/
def lowerCharacter (char : Char) : Text :=
  let code := char.toNat
  if code < 0x80 then [char.toLower]
  else if code == 0x130 then [Char.ofNat 0x69, Char.ofNat 0x307]
  else
    match capitalRows.find? fun row =>
        row.first ≤ code && code ≤ row.last && (code - row.first) % row.step == 0 with
    | some row => [Char.ofNat (row.small + (code - row.first))]
    | none => [char]

/-- A text with every capital replaced by its small letters. -/
def lower (text : Text) : Text :=
  text.flatMap lowerCharacter

/-- The letters whose capitals have other small letters. -/
def strayLetters : List (Nat × Nat) :=
  [(0xB5, 0x39C), (0xDF, 0xDF), (0x131, 0x49), (0x17F, 0x53), (0x1C5, 0x1C4), (0x1C8, 0x1C7),
    (0x1CB, 0x1CA), (0x1F2, 0x1F1), (0x345, 0x399), (0x3C2, 0x3A3), (0x3D0, 0x392), (0x3D1, 0x398),
    (0x3D5, 0x3A6), (0x3D6, 0x3A0), (0x3F0, 0x39A), (0x3F1, 0x3A1), (0x3F5, 0x395),
    (0x1C80, 0x412), (0x1C81, 0x414), (0x1C82, 0x41E), (0x1C83, 0x421), (0x1C84, 0x422),
    (0x1C85, 0x422), (0x1C86, 0x42A), (0x1C87, 0x462), (0x1C88, 0xA64A), (0x1E9B, 0x1E60),
    (0x1FBE, 0x399)]

/-- The capital of a letter; any other character stays. -/
def capital (char : Char) : Char :=
  let code := char.toNat
  if code < 0x80 then char.toUpper
  else match strayLetters.lookup code with
    | some capital => Char.ofNat capital
    | none =>
      let isSmall (row : CapitalRow) : Bool :=
        row.small ≤ code && code ≤ row.small + (row.last - row.first) &&
          (code - row.small) % row.step == 0
      match capitalRows.find? isSmall with
      | some row => Char.ofNat (row.first + (code - row.small))
      | none => char

end Phrasebook.Text
