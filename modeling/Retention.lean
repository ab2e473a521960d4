import Retention.Number.Bits
import Retention.Churn
import Retention.Starter
import Retention.Summary
import Retention.Proofs.FirstMatch
import Retention.Proofs.FieldsRead
import Retention.Proofs.KnownLabels
import Retention.Proofs.BuiltRules
import Retention.Proofs.BuiltPolicies
import Retention.Proofs.Policy.Keys
import Retention.Proofs.Coverage
import Retention.Proofs.PolicyLines
import Retention.Proofs.ConditionLines
import Retention.Proofs.Reprint
import Retention.Proofs.NumericText
import Retention.Proofs.Mirror
import Retention.Proofs.Aggregation
import Retention.Proofs.RiskFilling
import Retention.Proofs.RepeatedKeys
import Retention.Proofs.QuotedLines
import Retention.Proofs.FieldTests
import Retention.Proofs.Headers
import Retention.Proofs.LabelCosts
import Retention.Proofs.ErrorColumns
import Retention.Proofs.ErrorMessages
import Retention.Proofs.Quotes
import Retention.Proofs.Sections
import Retention.Proofs.NumericConditions
