/-!
# Issues

What can be wrong with a grammar. Every stage reports all the issues it finds, in order.
-/

namespace Predictive

/-- One problem of a grammar. -/
inductive Issue where
  /-- A name in an alternative of `lhs` that is neither declared nor defined. -/
  | unresolved (lhs symbol : String)
  /-- A start symbol without rules. -/
  | undefinedStart (symbol : String)
  /-- A use of the end marker. -/
  | reserved (symbol : String)
  /-- A declared terminal that has rules. -/
  | terminalHasRules (symbol : String)
  /-- A left-recursive cycle, from a nonterminal back to itself. -/
  | leftRecursion (path : List String)
  /-- A key of the prediction table that several productions claim. -/
  | conflict (nonterminal terminal : String) (alternatives : List String)
deriving DecidableEq, Inhabited

namespace Issue

def message : Issue → String
  | unresolved lhs symbol => "unresolved symbol `" ++ symbol ++ "` in a production of " ++ lhs
  | undefinedStart symbol => "start symbol " ++ symbol ++ " has no productions"
  | reserved symbol => "`" ++ symbol ++ "` is reserved for the end-of-input marker"
  | terminalHasRules symbol => "`" ++ symbol ++ "` is declared as a terminal but also has productions"
  | leftRecursion path => "left recursion: " ++ " -> ".intercalate path
  | conflict n t alternatives =>
    "LL(1) conflict at [" ++ n ++ ", " ++ t ++ "]: " ++ "  |  ".intercalate alternatives

/-- Whether the issue is a conflict of the prediction table. -/
def isConflict : Issue → Bool
  | conflict .. => true
  | _ => false

/-- The report on a rejected grammar: a headline, then one line for each issue. -/
def report (issues : List Issue) : String :=
  String.join (("grammar rejected with " ++ toString issues.length ++ " issue(s)") ::
    issues.map fun i => "\n  - " ++ i.message)

end Issue

end Predictive
