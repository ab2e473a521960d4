/-!
# The starter document

Rules for offers by tier of risk and segment, the settings they use, and a flowchart of them.
-/

namespace Retention

def starterLines : List String :=
  [ "Retention offer policy.",
    "Records missing churn_score or segment get NO_OFFER before any rule runs.",
    "",
    "[RULES]",
    "// Risk thresholds: LOW 0.40, MED 0.70",
    "IF churn_score < 0.40 THEN RETURN NO_OFFER",
    "IF churn_score < 0.70 AND segment == \"VIP\" THEN RETURN SMALL",
    "IF churn_score < 0.70 THEN RETURN NO_OFFER",
    "IF segment == \"VIP\" THEN RETURN BIG",
    "IF segment == \"STANDARD\" THEN RETURN MEDIUM",
    "IF churn_score >= 0.70 THEN RETURN SMALL",
    "RETURN NO_OFFER",
    "",
    "[POLICY]",
    "LOW_THRESHOLD=0.40",
    "MED_THRESHOLD=0.70",
    "COST_SMALL=10",
    "COST_MEDIUM=25",
    "COST_BIG=50",
    "",
    "[MERMAID]",
    "flowchart TD",
    "  A([Start]) --> B\x7bData valid?\x7d",
    "  B -- No --> Z([NO_OFFER])",
    "  B -- Yes --> C\x7bChurn < LOW?\x7d",
    "  C -- Yes --> Z",
    "  C -- No --> D\x7bChurn < MED?\x7d",
    "  D -- Yes --> E\x7bVIP?\x7d",
    "  E -- Yes --> S([SMALL])",
    "  E -- No --> Z",
    "  D -- No --> F\x7bSegment?\x7d",
    "  F -- VIP --> G([BIG])",
    "  F -- STANDARD --> H([MEDIUM])",
    "  F -- other --> S" ]

/-- Every line ends in a line feed. -/
def starterDocument : String := String.join (starterLines.map (· ++ "\n"))

end Retention
