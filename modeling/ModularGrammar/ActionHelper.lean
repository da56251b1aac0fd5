import ModularGrammar.Text.Quoted
import ModularGrammar.Text.Segment

/-!
# The helper of lexer actions

Lexer actions begin start conditions and return tokens by names they may compute, so these names
cannot be qualified in the text of the action.  Instead every action becomes a call of one helper
function, which qualifies them when the action runs.
-/

namespace ModularGrammar

/-- The start conditions every lexer has.  They belong to no module and are never qualified. -/
def builtinConditions : List String := ["INITIAL", "*"]

namespace ActionHelper

/-- The call of the helper that runs an action under a qualifier. -/
def call (helper qualifier action : String) : String :=
  "return " ++ helper ++ "(this, " ++ Text.inQuotes qualifier ++ ", function() \x7b\n" ++ action ++
    "\n\x7d);"

/-- The definition of the helper, which leaves the built-in start conditions alone. -/
def definition (helper : String) : String :=
  Text.join "\n" [
    "var " ++ helper ++ " = function (lexer, prefix, action) \x7b",
    "  var builtin = [" ++ Text.join ", " (builtinConditions.map Text.inQuotes) ++ "];",
    "  var begin = lexer.begin;",
    "  lexer.begin = function (state) \x7b",
    "    return begin.call(this, builtin.indexOf(state) >= 0 ? state : prefix + state);",
    "  \x7d;",
    "  try \x7b",
    "    var token = action.call(lexer);",
    "    return token && (prefix + token);",
    "  \x7d finally \x7b",
    "    lexer.begin = begin;",
    "  \x7d",
    "\x7d;"]

end ActionHelper

end ModularGrammar
