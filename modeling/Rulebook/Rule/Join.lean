import Rulebook.Policy
import Rulebook.Text.Blank

/-!
Joining the texts of several rules into the text of one.
-/

namespace Rulebook

/-- Joins texts from the left, each in a group of its own and the whole in one more at each step. -/
def chain (connective : Connective) : List String → String
  | [] => ""
  | [text] => text
  | first :: rest =>
      rest.foldl (fun joined text => "(" ++ joined ++ " " ++ connective.text ++ " (" ++ text ++ "))")
        ("(" ++ first ++ ")")

def row (connective : Connective) (texts : List String) : String :=
  " " ++ connective.text ++ " ".intercalate (texts.map fun text => "(" ++ text ++ ")")

def Joining.join (joining : Joining) (connective : Connective) (texts : List String) :
    Except Fault String :=
  if texts = [] then .error (.malformed .noRules)
  else .ok <| match joining with
    | .chained => chain connective (texts.map Text.trim)
    | .legacy => row connective texts

def Policy.join (policy : Policy) (connective : Connective) (texts : List String) :
    Except Fault String :=
  policy.joining.join connective texts

end Rulebook
