import Phrasebook.Number.Integer
import Phrasebook.Number.Real
import Phrasebook.Text.Base64
import Phrasebook.Text.Lower
import Phrasebook.Yaml.Basic
import Phrasebook.Yaml.Tag

/-!
# Values of scalars

What a scalar says once its kind is known. A collection has no value of its own: it
is known by its place among those of its document.
-/

namespace Phrasebook.Yaml

/-- A value. -/
inductive Value where
  | null
  | bool (truth : Bool)
  | int (number : Int)
  | float (number : Number.Real)
  | text (content : Text)
  | bytes (content : Bytes)
  | moment (moment : Moment)
  /-- The collection at a place. -/
  | collection (place : Nat)
  deriving Repr, DecidableEq

/-- Whether a value can be a key: all but collections can. -/
def Value.isKey : Value → Bool
  | collection _ => false
  | _ => true

namespace Scalar

/-- A whole number in a base. -/
def integerIn (base : Nat) (text : Text) : Except ScalarFault Int :=
  match Number.readInteger base text with
  | .ok number => .ok number
  | .error fault => .error (.value (fault.message base text))

/-- The sum of places in base sixty, the last place first. -/
def sixties (digits : List Int) : Int :=
  digits.foldr (fun digit sum => digit + 60 * sum) 0

/-- A whole number behind its sign. -/
def magnitude (text : Text) : Except ScalarFault Int :=
  if text == ['0'] then .ok 0
  else if ['0', 'b'].isPrefixOf text then integerIn 2 (text.drop 2)
  else if ['0', 'x'].isPrefixOf text then integerIn 16 (text.drop 2)
  else if text.isEmpty then .error .emptyNumber
  else if text.head? == some '0' then integerIn 8 text
  else if text.contains ':' then
    (Text.splitOn ':' text).mapM (integerIn 10) |>.map fun digits => sixties digits.reverse
  else integerIn 10 text

/-- A whole number. Underscores do not count. -/
def integer (content : Text) : Except ScalarFault Int :=
  match content.filter (· != '_') with
  | [] => .error .emptyNumber
  | '-' :: text => (magnitude text).map fun number => -number
  | '+' :: text => magnitude text
  | text => magnitude text

/-- A number without a sign of its own. -/
def realIn (text : Text) : Except ScalarFault Number.Real :=
  match Number.readReal? text with
  | some number => .ok number
  | none => .error (.value ("could not convert string to float: ".toList ++ Text.quoted text))

/-- The sum of places in base sixty, the last place first; `weight` is that of the
first one. Each step is rounded. -/
def realSixties : (weight : Nat) → (sum : Number.Real) → List Number.Real →
    Except ScalarFault Number.Real
  | _, sum, [] => .ok sum
  | weight, sum, place :: places =>
    let factor := Number.Real.ofNat weight
    if factor.isInfinite then .error .placeTooLarge
    else realSixties (weight * 60) (sum.plus (place.times factor)) places

/-- A number behind its sign. -/
def realMagnitude (text : Text) : Except ScalarFault Number.Real :=
  if text == ".inf".toList then .ok (.signed false .infinite)
  else if text == ".nan".toList then .ok .undefined
  else if text.contains ':' then do
    let places ← (Text.splitOn ':' text).mapM realIn
    realSixties 1 .zero places.reverse
  else realIn text

/-- A number. Underscores and the case of letters do not count. -/
def real (content : Text) : Except ScalarFault Number.Real :=
  match Text.lower (content.filter (· != '_')) with
  | [] => .error .emptyNumber
  | '-' :: text => (realMagnitude text).map Number.Real.negate
  | '+' :: text => realMagnitude text
  | text => realMagnitude text

/-- A day or a time. One line end at the end does not count. -/
def moment (content : Text) : Except ScalarFault Moment :=
  let line := if content.getLast? == some '\n' then content.dropLast else content
  match Moment.ofText? line with
  | none => .error .notMoment
  | some moment =>
    match moment.fault? with
    | some reason => .error (.value reason)
    | none => .ok moment

/-- Bytes. -/
def bytes? (content : Text) : Option Bytes :=
  if content.all (·.toNat < 0x80) then Base64.decode? content else none

/-- A truth value; letters of either case count. -/
def truth (content : Text) : Except ScalarFault Bool :=
  let word := Text.lower content
  match Plain.truth? word with
  | some truth => .ok truth
  | none => .error (.unknownTruth word)

/-- The value of a kind that a text writes. -/
def value (tag : Tag) (content : Text) : Except Fault Value :=
  let scalar {α : Type} (make : α → Value) (found : Except ScalarFault α) : Except Fault Value :=
    match found with
    | .ok value => .ok (make value)
    | .error fault => .error (.scalar fault)
  match tag with
  | .null => .ok .null
  | .bool => scalar .bool (truth content)
  | .int => scalar .int (integer content)
  | .float => scalar .float (real content)
  | .binary =>
    match bytes? content with
    | some bytes => .ok (.bytes bytes)
    | none => .error .malformed
  | .timestamp => scalar .moment (moment content)
  | .text => .ok (.text content)
  | _ => .error .malformed

end Scalar

end Phrasebook.Yaml
