import MemberHarvest.Text.Chunks
import MemberHarvest.Yaml.Build

/-!
# Yaml/Document — from the bytes of a document to its value

A document is handed over in pieces, and read as far as it is known. A piece whose bytes are no
text, or that holds a character which no document may hold, stops the reading, unless something is
wrong in front of it.
-/

namespace MemberHarvest.Yaml

open Settings (Value)
open Text (Chunks.portion Chunks.readable)

/-- What is known of a document: all of it, or what lies in front of the piece that stops the
reading. -/
inductive Supply where
  | whole (cs : List Char)
  | broken (known : List Char) (halt : Halt)
  deriving DecidableEq, Repr

namespace Supply

/-- Where the piece begins that holds the character at an index. The first piece is twice as
long. -/
def pieceStart (index : Nat) : Nat :=
  if index < 2 * Chunks.portion then 0 else Chunks.portion * (index / Chunks.portion)

/-- What is handed over of the characters in front of `stop?`: nothing from the piece on that holds
one which is not printable. -/
def ofText (cs : List Char) (stop? : Option Halt) : Supply :=
  match cs.findIdx? (!isPrintable ·), stop? with
  | some i, _ => .broken (cs.take (pieceStart i)) (.fault .form)
  | none, some halt => .broken cs halt
  | none, none => .whole cs

/-- The text of a document in bytes. -/
def ofBytes (bytes : Text.Bytes) : Supply :=
  match Text.Utf8.decode? bytes with
  | some cs => ofText (Text.unifyNewlines cs) none
  | none =>
    let cs := Chunks.readable bytes
    ofText (cs.take (pieceStart cs.length)) (some .undecodable)

end Supply

/-- The value of a text; one without a document is null. -/
def document (cs : List Char) : Except Fault Value :=
  match Node.ofTokens? (tokens cs) with
  | .ok (some g) => g.value
  | .ok none => .ok .null
  | .error f? => .error (f?.getD .form)

/-- What is wrong at the beginning of a text, as far as it is known. -/
def faultAhead (known : List Char) : Option Fault :=
  match Node.ofTokens? (tokensAhead known) with
  | .ok _ => none
  | .error f? => f?

/-- **The value of a document in bytes.** -/
def load (bytes : Text.Bytes) : Except Halt Value :=
  match Supply.ofBytes bytes with
  | .whole cs => (document cs).mapError .fault
  | .broken known halt => .error (((faultAhead known).map .fault).getD halt)

end MemberHarvest.Yaml
