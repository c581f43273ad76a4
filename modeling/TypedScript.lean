import TypedScript.Main
import TypedScript.Proofs.Constants
import TypedScript.Proofs.Annotations
import TypedScript.Proofs.Misplacements
import TypedScript.Proofs.Arguments
import TypedScript.Proofs.Signatures
import TypedScript.Proofs.Awaits
import TypedScript.Proofs.LongestMatch
import TypedScript.Proofs.RenamedScripts
import TypedScript.Proofs.EmptiedScripts
import TypedScript.Proofs.Carets
import TypedScript.Proofs.Limits
import TypedScript.Proofs.ReorderedFunctions
import TypedScript.Proofs.Idempotence
import TypedScript.Proofs.Frontiers
import TypedScript.Proofs.ScriptLayout
import TypedScript.Proofs.LeadingBraces
import TypedScript.Proofs.TypeTexts
import TypedScript.Proofs.PropertyKeys
import TypedScript.Proofs.UniqueReading
import TypedScript.Proofs.NestedScopes
import TypedScript.Proofs.ParsingEnds
import TypedScript.Proofs.FirstErrors
