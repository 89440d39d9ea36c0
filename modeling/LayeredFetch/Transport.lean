import LayeredFetch.Event
import LayeredFetch.Resource.Basic

/-!
Transports: what lies at the bottom of every stack of layers.

A transport answers a request, and may change the state of the server that it
speaks to. It gives a plain resource or an error, and what there is to report.
-/

namespace LayeredFetch

/-- What a transport gives for a request. -/
structure Reply where
  outcome : Except FetchError Resource
  events : List Event

/-- A transport to a server with states `σ`. -/
structure Transport (σ : Type) where
  perform : σ → Request → Reply × σ

end LayeredFetch
