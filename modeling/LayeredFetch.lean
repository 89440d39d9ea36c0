import LayeredFetch.Http.Proxy
import LayeredFetch.Json.Criterion
import LayeredFetch.Session
import LayeredFetch.Proofs.Cache.Revalidation
import LayeredFetch.Proofs.Cache.History
import LayeredFetch.Proofs.Cache.Transparency
import LayeredFetch.Proofs.Stack.Fields
import LayeredFetch.Proofs.Session.Credentials
import LayeredFetch.Proofs.Walk.Pages
import LayeredFetch.Proofs.Text.Parts
import LayeredFetch.Proofs.Links.Reading
import LayeredFetch.Proofs.Links.Announcement
import LayeredFetch.Proofs.Config.Rereading
import LayeredFetch.Proofs.Config.Grammar
import LayeredFetch.Proofs.Config.Joining
import LayeredFetch.Proofs.Config.Layout
import LayeredFetch.Proofs.Stack.Failures
import LayeredFetch.Proofs.Session.Anonymity
import LayeredFetch.Proofs.Walk.Caching
import LayeredFetch.Proofs.Headers.Keys
import LayeredFetch.Proofs.Stack.Likeness
import LayeredFetch.Proofs.Stack.Independence
import LayeredFetch.Proofs.Headers.Order
import LayeredFetch.Proofs.Stack.Simulation
import LayeredFetch.Proofs.Session.Simulation
import LayeredFetch.Proofs.Stack.LayerOrder
import LayeredFetch.Proofs.Session.LayerOrder
import LayeredFetch.Proofs.Stack.Instances
import LayeredFetch.Proofs.Session.Instances
import LayeredFetch.Proofs.Headers.Multimap
import LayeredFetch.Proofs.Headers.Pairs
import LayeredFetch.Proofs.Headers.Equality
import LayeredFetch.Proofs.Walk.Search
import LayeredFetch.Proofs.Http.Outgoing
import LayeredFetch.Proofs.Http.Validators
import LayeredFetch.Proofs.Cache.Doubling
import LayeredFetch.Proofs.Session.Derivation
