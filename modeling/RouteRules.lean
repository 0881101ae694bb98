import RouteRules.Document.Basic
import RouteRules.Session
import RouteRules.Proofs.Walk.Blame
import RouteRules.Proofs.Walk.Cycles
import RouteRules.Proofs.Schema.Flat
import RouteRules.Proofs.Route.Cutting
import RouteRules.Proofs.Route.PlainObjects
import RouteRules.Proofs.Route.Relevance
import RouteRules.Proofs.Document.Merging
import RouteRules.Proofs.Session.Snapshot
import RouteRules.Proofs.Aliases
import RouteRules.Proofs.Schema.Readable
import RouteRules.Proofs.Required
import RouteRules.Proofs.Replacement
import RouteRules.Proofs.Validator
import RouteRules.Proofs.PropertyName
import RouteRules.Proofs.Rule.AllowList
