import Phrasebook.Main
import Phrasebook.Proofs.Accessor
import Phrasebook.Proofs.Batch.Accounting
import Phrasebook.Proofs.Batch.Effect
import Phrasebook.Proofs.Batch.Forecast
import Phrasebook.Proofs.Batch.Order
import Phrasebook.Proofs.Batch.Persistence
import Phrasebook.Proofs.CommandLine
import Phrasebook.Proofs.Document.Changes
import Phrasebook.Proofs.Document.Frame
import Phrasebook.Proofs.Literal.StringValue
import Phrasebook.Proofs.Markup.Commented
import Phrasebook.Proofs.Markup.Condition
import Phrasebook.Proofs.Markup.Idempotence
import Phrasebook.Proofs.Markup.Leakage
import Phrasebook.Proofs.Markup.Logged
import Phrasebook.Proofs.Script.Agreement
import Phrasebook.Proofs.Script.Arguments
import Phrasebook.Proofs.Script.Glue
import Phrasebook.Proofs.Sources.Agreement
import Phrasebook.Proofs.Sources.Named
