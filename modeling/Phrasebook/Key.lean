import Phrasebook.Digest.Md5
import Phrasebook.Path
import Phrasebook.Edit
import Phrasebook.Text.CodePoint

/-!
# Keys

A text found in a file is stored under a key made of the file's name and a digest
of the text. The same text in the same file always gets the same key.
-/

namespace Phrasebook.Key

/-- The number of digest digits in a key unless the settings say otherwise. -/
def defaultLength : Int := 6

/-- The part of a key that names the file: its stem, or the name of its directory
when the stem is `index`. -/
def lead (path : Path) : Text :=
  if path.stem == ['i', 'n', 'd', 'e', 'x'] then path.parent.name else path.stem

/-- The digits of a text's digest that a key of the given length keeps. A
negative length counts from the end of the digest. -/
def digits (text : Text) (length : Int) : Text :=
  let digest := Digest.Md5.hex (Utf8.encode text)
  digest.take (Edit.place digest.length length)

/-- The key of a text in a file. -/
def ofText (text : Text) (path : Path) (length : Int) : Text :=
  lead path ++ '_' :: digits text length

end Phrasebook.Key
