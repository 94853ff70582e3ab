import Rulebook.Proofs.Catalogue.History

/-!
What requests leave behind. Serving a request does one thing after another to a catalogue, and a
fault undoes nothing of it; but nothing is done before the last point at which the request can fail.
So requests that fail, and those that only ask, can be taken out of a history, and everything else
in it is answered as before.
-/

namespace Rulebook.Catalogue

/-- Things done to a catalogue one after another, up to the first fault. -/
abbrev Effect := ExceptT Fault (StateM Catalogue)

namespace Effect

variable {α β : Type}

def runOn (effect : Effect α) (catalogue : Catalogue) : Except Fault α × Catalogue :=
  effect.run.run catalogue

def ask (question : Catalogue → Except Fault α) : Effect α := do
  liftM (question (← get))

def takeId : Effect RuleId :=
  modifyGet fun catalogue =>
    (catalogue.nextId, { catalogue with nextId := catalogue.nextId + 1 })

def put (kept : KeptRule) : Effect Unit :=
  modify fun catalogue => { catalogue with rules := catalogue.rules.insert kept.id kept }

def takeOut (id : RuleId) : Effect (Option KeptRule) :=
  modifyGet fun catalogue => (catalogue.rules[id]?, catalogue.shrink id)

def add (name description text : String) : Effect KeptRule := do
  let rule ← ask fun catalogue => catalogue.policy.parseRule text
  let id ← takeId
  let kept : KeptRule := ⟨id, name, description, text, rule⟩
  put kept
  return kept

def join (connective : Connective) (ids : List RuleId) (name description : String) :
    Effect KeptRule := do
  let parts ← ask fun catalogue => ids.mapM catalogue.find
  let text ← ask fun catalogue => catalogue.policy.join connective (parts.map KeptRule.text)
  add name description text

def remove (id : RuleId) : Effect Unit := do
  match ← takeOut id with
  | some _ => return
  | none => throw (.unknownRule id)

def ofRequest : Request → Effect Answer
  | .add name description text => .kept <$> add name description text
  | .find id => .kept <$> ask fun catalogue => catalogue.find id
  | .list => .listed <$> ask fun catalogue => .ok catalogue.toList
  | .remove id => (fun _ => .removed) <$> remove id
  | .join connective ids name description => .kept <$> join connective ids name description
  | .evaluate id record => .decided <$> ask fun catalogue => catalogue.evaluate id record
  | .report ids records => .reported <$> ask fun catalogue => catalogue.report ids records
  | .policy => .policy <$> ask fun catalogue => .ok catalogue.policy

def settle (catalogue : Catalogue) (result : Except Fault (α × Catalogue)) :
    Except Fault α × Catalogue :=
  match result with
  | .ok (value, after) => (.ok value, after)
  | .error fault => (.error fault, catalogue)

theorem runOn_bind (effect : Effect α) (next : α → Effect β) (catalogue : Catalogue) :
    runOn (effect >>= next) catalogue =
      match effect.runOn catalogue with
      | (.ok value, after) => (next value).runOn after
      | (.error fault, after) => (.error fault, after) := by
  simp only [runOn, ExceptT.run_bind, StateT.run_bind]
  rcases effect.run.run catalogue with ⟨value | fault, after⟩
  · rfl
  · rfl

theorem runOn_map (use : α → β) (effect : Effect α) (catalogue : Catalogue) :
    runOn (use <$> effect) catalogue =
      ((effect.runOn catalogue).1.map use, (effect.runOn catalogue).2) := by
  rw [map_eq_pure_bind, runOn_bind]
  rcases effect.runOn catalogue with ⟨value | fault, after⟩
  · rfl
  · rfl

theorem runOn_ask (question : Catalogue → Except Fault α) (catalogue : Catalogue) :
    runOn (ask question) catalogue = (question catalogue, catalogue) := by
  rw [ask, runOn_bind]
  rfl

theorem runOn_add (name description text : String) (catalogue : Catalogue) :
    runOn (add name description text) catalogue =
      settle catalogue (catalogue.add name description text) := by
  rw [add, runOn_bind, runOn_ask, Catalogue.add]
  cases catalogue.policy.parseRule text with
  | ok rule => rfl
  | error fault => rfl

theorem runOn_join (connective : Connective) (ids : List RuleId) (name description : String)
    (catalogue : Catalogue) :
    runOn (join connective ids name description) catalogue =
      settle catalogue (catalogue.join connective ids name description) := by
  rw [join, runOn_bind, runOn_ask, Catalogue.join]
  cases ids.mapM catalogue.find with
  | error fault => rfl
  | ok parts =>
      simp only [runOn_bind, runOn_ask, Collection.ok_bind]
      cases catalogue.policy.join connective (parts.map KeptRule.text) with
      | error fault => rfl
      | ok text => exact runOn_add name description text catalogue

variable {catalogue : Catalogue} {request : Request}

theorem shrink_of_absent {id : RuleId} (absent : catalogue.rules[id]? = none) :
    catalogue.shrink id = catalogue := by
  have same : catalogue.rules.erase id = catalogue.rules := by
    apply Std.ExtTreeMap.ext_getElem?
    intro other
    rw [Std.ExtTreeMap.getElem?_erase]
    split
    next isId => rw [← Std.compare_eq_iff_eq.mp isId, absent]
    next => rfl
  rw [shrink, same]

theorem runOn_remove (id : RuleId) (catalogue : Catalogue) :
    runOn (remove id) catalogue =
      settle catalogue ((catalogue.remove id).map fun after => ((), after)) := by
  have taken : runOn (takeOut id) catalogue =
      (.ok catalogue.rules[id]?, catalogue.shrink id) := rfl
  rw [remove, runOn_bind, taken, Catalogue.remove]
  cases found : catalogue.rules[id]? with
  | some kept =>
      rw [find_eq_ok_iff.mpr found]
      rfl
  | none =>
      have missing : catalogue.find id = .error (.unknownRule id) := by rw [find, found]
      rw [missing]
      exact congrArg (Prod.mk _) (shrink_of_absent found)

theorem runOn_map_eq_step {effect : Effect α} {result : Except Fault (α × Catalogue)}
    {answer : α → Answer} (ran : effect.runOn catalogue = settle catalogue result)
    (served : catalogue.serve request =
      result.map fun (value, after) => (answer value, after)) :
    runOn (answer <$> effect) catalogue = catalogue.step request := by
  rw [runOn_map, ran, step, served]
  cases result with
  | ok value => rfl
  | error fault => rfl

theorem runOn_ask_eq_step {question : Catalogue → Except Fault α} {answer : α → Answer}
    (served : catalogue.serve request =
      (question catalogue).map fun value => (answer value, catalogue)) :
    runOn (answer <$> ask question) catalogue = catalogue.step request := by
  rw [runOn_map, runOn_ask, step, served]
  cases question catalogue with
  | ok value => rfl
  | error fault => rfl

theorem runOn_ofRequest (request : Request) (catalogue : Catalogue) :
    runOn (ofRequest request) catalogue = catalogue.step request := by
  cases request with
  | add name description text =>
      exact runOn_map_eq_step (runOn_add name description text catalogue) rfl
  | join connective ids name description =>
      exact runOn_map_eq_step (runOn_join connective ids name description catalogue) rfl
  | remove id =>
      apply runOn_map_eq_step (runOn_remove id catalogue)
      rw [serve]
      cases catalogue.remove id with
      | ok after => rfl
      | error fault => rfl
  | find _ | list | evaluate _ _ | report _ _ | policy => exact runOn_ask_eq_step rfl

end Effect

def Request.onlyAsks : Request → Bool
  | .add .. | .join .. | .remove _ => false
  | .find _ | .list | .evaluate .. | .report .. | .policy => true

def without {α : Type} (erased : Nat → Bool) (items : List α) : List α :=
  (items.zipIdx.filter fun (_, place) => !erased place).map Prod.fst

theorem without_cons {α : Type} (erased : Nat → Bool) (item : α) (items : List α) :
    without erased (item :: items) =
      if erased 0 then without (fun place => erased (place + 1)) items
      else item :: without (fun place => erased (place + 1)) items := by
  have later : ((items.zipIdx 1).filter fun (_, place) => !erased place).map Prod.fst =
      without (fun place => erased (place + 1)) items := by
    rw [List.zipIdx_succ, List.filter_map, List.map_map]
    rfl
  rw [without, List.zipIdx_cons, List.filter_cons]
  by_cases first : erased 0
  · rw [if_pos first, if_neg (by simp [first]), later]
  · rw [if_neg first, if_pos (by simp [first]), List.map_cons, later]

theorem step_of_onlyAsks (catalogue : Catalogue) {request : Request} (asks : request.onlyAsks) :
    (catalogue.step request).2 = catalogue := by
  cases request with
  | add _ _ _ | join _ _ _ _ | remove _ => cases asks
  | find _ | evaluate _ _ | report _ _ => exact step_of_serve_map rfl
  | list | policy => rfl

/-- Whether each of the requests at some places of a history only asks, or fails there. -/
def Traceless (catalogue : Catalogue) (requests : List Request) (erased : Nat → Bool) : Prop :=
  ∀ place request answer, erased place → requests[place]? = some request →
    (catalogue.answers requests)[place]? = some answer →
      request.onlyAsks ∨ ∃ fault, answer = .error fault

variable {catalogue : Catalogue} {request : Request} {requests : List Request}
variable {erased : Nat → Bool}

theorem answers_cons (catalogue : Catalogue) (request : Request) (requests : List Request) :
    catalogue.answers (request :: requests) =
      (catalogue.step request).1 :: (catalogue.step request).2.answers requests := rfl

theorem Traceless.step (traceless : catalogue.Traceless (request :: requests) erased)
    (first : erased 0) : (catalogue.step request).2 = catalogue := by
  rcases traceless 0 request (catalogue.step request).1 first rfl rfl with asks | ⟨fault, failed⟩
  · exact step_of_onlyAsks catalogue asks
  · exact step_of_error failed

theorem Traceless.later (traceless : catalogue.Traceless (request :: requests) erased) :
    (catalogue.step request).2.Traceless requests fun place => erased (place + 1) := by
  intro place later answer isErased isLater answered
  exact traceless (place + 1) later answer isErased isLater answered

theorem Traceless.answers_without (traceless : catalogue.Traceless requests erased) :
    catalogue.answers (without erased requests) = without erased (catalogue.answers requests) ∧
      catalogue.after (without erased requests) = catalogue.after requests := by
  induction requests generalizing catalogue erased with
  | nil => exact ⟨rfl, rfl⟩
  | cons request requests ih =>
      obtain ⟨sameAnswers, sameAfter⟩ := ih traceless.later
      rw [answers_cons, without_cons, without_cons, after_cons]
      by_cases first : erased 0
      · rw [traceless.step first] at sameAnswers sameAfter ⊢
        rw [if_pos first, if_pos first]
        exact ⟨sameAnswers, sameAfter⟩
      · rw [if_neg first, if_neg first, answers_cons, after_cons, sameAnswers, sameAfter]
        exact ⟨rfl, rfl⟩

/-- Requests that fail and requests that only ask leave no trace in the answers to the others, nor
in the rules kept. -/
theorem answers_without_traceless :
    (∀ request catalogue,
      Effect.runOn (Effect.ofRequest request) catalogue = catalogue.step request) ∧
    ∀ (policy : Policy) (requests : List Request) (erased : Nat → Bool),
      ({ policy } : Catalogue).Traceless requests erased →
      ({ policy } : Catalogue).answers (without erased requests) =
          without erased (({ policy } : Catalogue).answers requests) ∧
        reached policy (without erased requests) = reached policy requests := by
  refine ⟨Effect.runOn_ofRequest, ?_⟩
  intro policy requests erased traceless
  exact traceless.answers_without

theorem answers_without_traceless_between :
    let requests := [.add "a" "" "a = 1", .add "b" "" "(b > 2", .find 1,
      .join .and [1, 7] "" "", .add "c" "" "c < 3"]
    let erased := fun place => [1, 2, 3].contains place
    ({ policy := {} } : Catalogue).Traceless requests erased ∧
      without erased requests = [.add "a" "" "a = 1", .add "c" "" "c < 3"] ∧
      reached {} [.add "a" "" "a = 1", .add "c" "" "c < 3"] = reached {} requests := by
  intro requests erased
  have failures : (({ policy := {} } : Catalogue).answers requests).map Except.isOk =
      [true, false, true, false, true] := by decide +kernel
  have traceless : ({ policy := {} } : Catalogue).Traceless requests erased := by
    intro place request answer isErased isRequest answered
    have outcome := congrArg (·[place]?) failures
    simp only [List.getElem?_map, answered, Option.map_some] at outcome
    have isPlace : place = 1 ∨ place = 2 ∨ place = 3 := by simpa [erased] using isErased
    rcases isPlace with rfl | rfl | rfl
    · cases answer with
      | error fault => exact .inr ⟨fault, rfl⟩
      | ok _ => cases outcome
    · cases isRequest
      exact .inl rfl
    · cases answer with
      | error fault => exact .inr ⟨fault, rfl⟩
      | ok _ => cases outcome
  have left : without erased requests = [.add "a" "" "a = 1", .add "c" "" "c < 3"] := rfl
  obtain ⟨-, same⟩ := answers_without_traceless.2 {} requests erased traceless
  rw [left] at same
  exact ⟨traceless, left, same⟩

end Rulebook.Catalogue
