import Phrasebook.Markup.Piece
import Phrasebook.Markup.Wrapped

/-!
# Quotations

Quoted literals inside an expression of the markup. Every literal with ideographs
that is not yet wrapped in a call becomes a call.
-/

namespace Phrasebook.Markup.Quotation

/-- The length of a literal's body up to its closing quote. A backslash takes the
next character along, which must not be a line feed. -/
def bodyLength (quote : Char) : Text → Option Nat
  | [] => none
  | head :: tail =>
    if head == quote then some 0
    else if head == '\\' then
      match tail with
      | [] => none
      | escaped :: rest =>
        if escaped == '\n' then none else (bodyLength quote rest).map (· + 2)
    else (bodyLength quote tail).map (· + 1)

/-- Recognises a literal with one of the given quotes, and reads its quote and its
body. -/
def recognise (quotes : List Char) : Text → Option (Nat × Char × Text)
  | [] => none
  | quote :: rest => do
    if !quotes.contains quote then none
    let length ← bodyLength quote rest
    return (length + 2, quote, rest.take length)

/-- The literals of an expression that become calls, as candidates with their
ranges in the expression. The expression stands at `offset` of the buffer, and
`keyQuote` chooses the quote around the key from the literal's own. -/
def candidates (functions : Functions) (quotes : List Char) (keyQuote : Char → Char)
    (eligible : Text → Bool) (offset : Nat) (expr : Text) :
    List (Nat × Nat × Candidate) :=
  (Text.scan (fun _ => recognise quotes) expr).filterMap fun found =>
    let (quote, body) := found.value
    if eligible body && Text.hasIdeograph body && !isWrapped functions expr found.start then
      some (found.start, found.stop,
        { start := offset + found.start,
          stop := offset + found.stop,
          value := Literal.cook body,
          quote := keyQuote quote })
    else none

end Phrasebook.Markup.Quotation
