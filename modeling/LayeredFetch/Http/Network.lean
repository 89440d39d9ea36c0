import LayeredFetch.Request

/-!
Networks, as far as a client knows them.

A client does not send anything itself. It hands a `Draft` over, and gets a `Response` or a
reason why there is none. What carries requests, from the library that reads URIs and checks
fields to the servers at the other end, is the parameter `Network`: it may follow
redirections, add fields of its own, and decode bodies as it likes. Two things are known of
it, and stated by `Network.Lawful`.

* **What may be sent.** The fields of a request keep it from being sent exactly if one has a
  name that is no token, or a value with a control character other than the tab.
* **What may be read.** A field value is a text exactly if it consists of visible ASCII,
  spaces and tabs.
-/

namespace LayeredFetch.Http

/-! ### Requests and answers -/

/-- A request as a client hands it over. -/
structure Draft where
  method : Method
  uri : String
  /-- Each value with its name, in the order in which they are handed over. -/
  fields : List (String × String)
  body : Option String
deriving DecidableEq, Repr

/-- An answer as a client gets it. -/
structure Response where
  status : Nat
  /-- Each value with its name, in the order in which a client goes through them. -/
  fields : List (String × List UInt8)
  /-- The text of the body, or why it did not come whole. -/
  body : Except String String

/-! ### Fields -/

/-- The characters of tokens besides letters and digits. -/
def tokenMarks : List Char := "!#$%&'*+-.^_|~".toList ++ [Char.ofNat 0x60]

/-- Whether a text is a token. -/
def isToken (s : String) : Bool :=
  !s.toList.isEmpty && s.toList.all fun c => c.isAlphanum || tokenMarks.contains c

/-- Whether a character is a control character other than the tab. -/
def isForbidden (c : Char) : Bool := (decide (c.toNat < 0x20) && c != '\t') || c.toNat == 0x7F

/-- Whether a field may be sent. -/
def isSendable (name value : String) : Bool := isToken name && !value.toList.any isForbidden

/-- Whether an octet is visible ASCII, a space or a tab. -/
def isReadable (octet : UInt8) : Bool :=
  octet == 9 || (decide (0x20 ≤ octet.toNat) && decide (octet.toNat ≤ 0x7E))

/-! ### Networks -/

/-- What carries the requests of a client, with states `ν`. -/
structure Network (ν : Type) where
  /-- Why a request is not sent, if it is not. -/
  rejection? : Draft → Option String
  /-- A field value as a text, if it is one. -/
  text? : List UInt8 → Option String
  /-- Sends a request: the answer, or why none came. -/
  exchange : ν → Draft → Except String Response × ν

/-- What is known of a network. Of everything else about a request, its URI above all, it
may make what it likes. -/
structure Network.Lawful {ν : Type} (net : Network ν) : Prop where
  /-- A request is sent if it is without fields, and each field may be sent. -/
  rejection_iff : ∀ d : Draft, net.rejection? d = none ↔
    net.rejection? { d with fields := [] } = none ∧
      ∀ f ∈ d.fields, isSendable f.1 f.2 = true
  /-- What is read of a value are its octets, if all are readable. -/
  text_iff : ∀ (octets : List UInt8) (s : String), net.text? octets = some s ↔
    (∀ o ∈ octets, isReadable o = true) ∧ s.toList = octets.map Char.ofUInt8

end LayeredFetch.Http
