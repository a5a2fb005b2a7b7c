import TagTemplate.Main
import TagTemplate.Proofs.Canonical.Image
import TagTemplate.Proofs.Limit
import TagTemplate.Proofs.Layout
import TagTemplate.Proofs.Lookahead
import TagTemplate.Proofs.Errors
import TagTemplate.Proofs.CommandLine
import TagTemplate.Proofs.Json.Tree
import TagTemplate.Proofs.Numbers.Literal
import TagTemplate.Proofs.Lockstep
import TagTemplate.Proofs.Source
import TagTemplate.Proofs.Delivery
import TagTemplate.Proofs.Cursor
import TagTemplate.Proofs.Escapes.FreeText
import TagTemplate.Proofs.Escapes.Quoted
