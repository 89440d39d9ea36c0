import LayeredFetch.Http.Client
import LayeredFetch.Script

/-!
Proxies: scripted servers at the other end of a network.

A proxy answers messages by a script and records them. One that cannot be reached
answers nothing and records nothing.
-/

namespace LayeredFetch.Http

/-- A request as a proxy records it. -/
structure Message where
  method : Method
  uri : String
  headers : Headers
  body : String
deriving DecidableEq, Repr

/-- The message that brings a request. -/
def Message.ofDraft (d : Draft) : Message := ⟨d.method, d.uri, .ofPairs d.fields, d.body.getD ""⟩

/-- A scripted proxy. -/
structure Proxy where
  script : Script
  reachable : Bool
  received : List Message

namespace Proxy

/-- The text of a payload. -/
def text : Payload → Except String String
  | .json value => .ok value.write
  | .text s => .ok s
  | .octets bytes => (String.fromUTF8? ⟨bytes.toArray⟩).elim (.error "body is no text") .ok

/-- An answer as a client gets it; a failure closes the connection. In a script, each
character of a field value stands for an octet. -/
def response : Answer → Except String Response
  | .reply status headers payload =>
      let octets (value : String) := value.toList.map fun c => UInt8.ofNat c.toNat
      .ok ⟨status, headers.map fun (name, value) => (name, octets value), text payload⟩
  | .fail _ => .error "no answer"

/-- The network that leads to a proxy, which minds only the fields of requests. -/
def network : Network Proxy where
  rejection? d :=
    if d.fields.all fun (name, value) => isSendable name value then none else some "bad field"
  text? octets :=
    if octets.all isReadable then some (String.ofList (octets.map Char.ofUInt8)) else none
  exchange proxy d :=
    if proxy.reachable then
      let m := Message.ofDraft d
      let (found, script) := proxy.script.answer (·.accepts m.method m.uri m.headers)
      (response found, { proxy with script, received := proxy.received ++ [m] })
    else (.error "no answer", proxy)

/-- It keeps to what is known of networks. -/
theorem lawful_network : network.Lawful where
  rejection_iff d := by simp [network]
  text_iff octets s := by
    have htext : network.text? octets =
        if octets.all isReadable then some (String.ofList (octets.map Char.ofUInt8))
        else none := rfl
    rw [htext, Option.ite_none_right_eq_some, List.all_eq_true, Option.some.injEq,
      ← String.toList_inj, String.toList_ofList]
    exact and_congr_right fun _ => eq_comm

end Proxy

end LayeredFetch.Http
