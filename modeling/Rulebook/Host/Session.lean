import Rulebook.Host.Reading
import Rulebook.Rule.Join

/-!
Sessions: the procedures that a host program calls, and what of one call shows in later ones. The
policy in force is the one installed last, and a failed call installs none.
-/

namespace Rulebook.Host

inductive Procedure where
  | configure
  | isConfigured
  | startLog
  | tokens
  | parse
  | join
  | evaluate
  | report
  | reportLater
deriving DecidableEq, Repr

namespace Procedure

def name : Procedure → String
  | configure => "init_config"
  | isConfigured => "is_config_initialized"
  | startLog => "init_logging"
  | tokens => "tokenize"
  | parse => "compile"
  | join => "combine"
  | evaluate => "evaluate"
  | report => "evaluate_batch"
  | reportLater => "evaluate_batch_async"

def all : List Procedure :=
  [configure, isConfigured, startLog, tokens, parse, join, evaluate, report, reportLater]

def ofName? (name : String) : Option Procedure :=
  Text.named? Procedure.name all name

end Procedure

inductive Reply where
  | nothing
  | truth (value : Bool)
  | text (value : String)
  | texts (values : List String)
  | document (value : Document)
  | report (value : Report)
  | laterReport (value : Report)

def Reply.toObject : Reply → Object
  | nothing => .none
  | truth value => .bool value
  | text value => .text value
  | texts values => .list (values.map .text)
  | document value => .ofDocument value
  | report value => .ofReport value
  | laterReport value => .report value

/-- What of the calls so far shows in later ones. -/
structure Session where
  installed : Option Policy := none
  logging : Bool := false
deriving DecidableEq, Repr

namespace Session

def policy (session : Session) : Policy :=
  session.installed.getD {}

def readConfiguration (object : Object) : Except Failure Policy :=
  match object.given? with
  | none => .ok {}
  | some object => do readPolicy (← object.readDict)

def reportOn (rules records : Object) : Except Failure Report := do
  let rules ← rules.readDict
  let records ← records.readList
  let rules ← readRules rules
  return Report.evaluate rules (← records.mapM readRecord)

/-- Calls a procedure, whose arguments all have their types checked before anything else is. -/
def call (session : Session) : Procedure → List Object → Except Failure (Reply × Session)
  | .configure, [] => .ok (.nothing, { session with installed := some {} })
  | .configure, [configuration] => do
      let policy ← readConfiguration configuration
      return (.nothing, { session with installed := some policy })
  | .isConfigured, [] => .ok (.truth session.installed.isSome, session)
  | .startLog, [] => .ok (.truth (!session.logging), { session with logging := true })
  | .startLog, [filter] => do
      if let some filter := filter.given? then
        let _ ← filter.readText
      return (.truth (!session.logging), { session with logging := true })
  | .tokens, [text] => do
      let text ← text.readText
      return (.texts ((Token.split text).map Token.text), session)
  | .parse, [text] => do
      let rule ← Failure.lift (session.policy.parseRule (← text.readText))
      return (.document (.ofRule rule), session)
  | .join, [texts, connective] => do
      let texts ← texts.readTexts
      let connective ← connective.readText
      let connective ← Failure.lift (Connective.read connective)
      return (.text (← Failure.lift (session.policy.join connective texts)), session)
  | .evaluate, [rule, record] => do
      let rule ← readRule rule
      let record ← readRecord record
      return (.truth (← Failure.lift (rule.evaluate record)), session)
  | .report, [rules, records] => do
      return (.report (← reportOn rules records), session)
  | .reportLater, [rules, records] => do
      return (.laterReport (← reportOn rules records), session)
  | _, _ => .error .conversion

def step (session : Session) (procedure : Procedure) (arguments : List Object) :
    Except Failure Reply × Session :=
  match session.call procedure arguments with
  | .ok (reply, after) => (.ok reply, after)
  | .error failure => (.error failure, session)

def after (session : Session) (calls : List (Procedure × List Object)) : Session :=
  calls.foldl (fun session (procedure, arguments) => (session.step procedure arguments).2) session

end Session

end Rulebook.Host
