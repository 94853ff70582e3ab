import Rulebook.Catalogue.Basic

/-!
Histories: what is asked of a catalogue, one request after another, and what it answers. A request
that fails leaves the catalogue as it is.
-/

namespace Rulebook

namespace Catalogue

inductive Request where
  | add (name description text : String)
  | find (id : RuleId)
  | list
  | remove (id : RuleId)
  | join (connective : Connective) (ids : List RuleId) (name description : String)
  | evaluate (id : RuleId) (record : Record)
  | report (ids : List RuleId) (records : List Record)
  | policy

inductive Answer where
  | kept (rule : KeptRule)
  | listed (rules : List KeptRule)
  | removed
  | decided (holds : Bool)
  | reported (report : Report)
  | policy (policy : Policy)

def serve (catalogue : Catalogue) : Request → Except Fault (Answer × Catalogue)
  | .add name description text =>
      (catalogue.add name description text).map fun (kept, after) => (.kept kept, after)
  | .find id => (catalogue.find id).map fun kept => (.kept kept, catalogue)
  | .list => .ok (.listed catalogue.toList, catalogue)
  | .remove id => (catalogue.remove id).map fun after => (.removed, after)
  | .join connective ids name description =>
      (catalogue.join connective ids name description).map fun (kept, after) =>
        (.kept kept, after)
  | .evaluate id record =>
      (catalogue.evaluate id record).map fun holds => (.decided holds, catalogue)
  | .report ids records =>
      (catalogue.report ids records).map fun report => (.reported report, catalogue)
  | .policy => .ok (.policy catalogue.policy, catalogue)

/-- One step of a history: the answer or the fault, and the catalogue after it. -/
def step (catalogue : Catalogue) (request : Request) : Except Fault Answer × Catalogue :=
  match catalogue.serve request with
  | .ok (answer, after) => (.ok answer, after)
  | .error fault => (.error fault, catalogue)

def after (catalogue : Catalogue) (requests : List Request) : Catalogue :=
  requests.foldl (fun catalogue request => (catalogue.step request).2) catalogue

def answers (catalogue : Catalogue) : List Request → List (Except Fault Answer)
  | [] => []
  | request :: requests =>
      let (answer, after) := catalogue.step request
      answer :: after.answers requests

end Catalogue

end Rulebook
