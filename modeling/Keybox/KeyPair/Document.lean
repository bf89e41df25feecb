import Keybox.Json.Reader
import Keybox.KeyPair.Check

/-!
# Documents

A stored record as a JSON document, given as text or as bytes. Whatever is wrong with it is a
rejection, but for one thing: an integer beyond the digit limit is refused before there is a
record to reject.
-/

namespace Keybox

/-- A document as it is handed over. -/
inductive Document where
  | text (content : Text)
  | bytes (content : Bytes)

namespace Document

/-- The text of a document. -/
def text? : Document → Except Unreadable Text
  | .text content => .ok content
  | .bytes content => (Utf8.decode content).mapError .encoding

end Document

/-- Why a document gives no key pair. -/
inductive LoadFault where
  | rejected (rejection : Rejection)
  | oversized (digits : Nat)

namespace LoadFault

/-- The message of a fault. -/
def message : LoadFault → Text
  | rejected r => r.message
  | oversized digits => (Json.Fault.tooLong digits).message []

end LoadFault

namespace KeyPair

/-- The fault for a reason against a document from a place. -/
def rejectedFor (place : Option Text) (r : Reason) : LoadFault :=
  .rejected (Rejection.ofReason place r)

/-- The fault for a document that cannot be read. -/
def unreadableFor (place : Option Text) (document : Text) : Json.Fault → LoadFault
  | .tooLong digits => .oversized digits
  | f => rejectedFor place (.unreadable (.grammar document f))

/-- The key pair of a document's text. -/
def ofText (content : Text) (expected : Text) (place : Option Text) : Except LoadFault KeyPair :=
  match Json.read content with
  | .error f => .error (unreadableFor place content f)
  | .ok (.object members) => (decode members expected place).mapError .rejected
  | .ok _ => .error (rejectedFor place .notObject)

/-- The key pair of a document. -/
def ofDocument (d : Document) (expected : Text) (place : Option Text) :
    Except LoadFault KeyPair :=
  match d.text? with
  | .error cause => .error (rejectedFor place (.unreadable cause))
  | .ok content => ofText content expected place

end KeyPair

end Keybox
