import Rulebook.Proofs.Catalogue.Report

/-!
The lifetime of a kept rule. Its number comes after all those given out before it; it is found under
that number, as it was kept, until it is removed; and from then on nothing ever is.
-/

namespace Rulebook.Catalogue

variable {catalogue : Catalogue} {requests : List Request} {place later removed : Nat}
variable {kept other : KeptRule} {id : RuleId} {request : Request}

/-- Whether a request at a place of a history has a rule kept there. -/
def KeepsAt (catalogue : Catalogue) (requests : List Request) (place : Nat) (kept : KeptRule) :
    Prop :=
  ∃ request, requests[place]? = some request ∧ request.asksToKeep ∧
    (catalogue.answers requests)[place]? = some (.ok (.kept kept))

def RemovesAt (catalogue : Catalogue) (requests : List Request) (place : Nat) (id : RuleId) :
    Prop :=
  requests[place]? = some (.remove id) ∧
    (catalogue.answers requests)[place]? = some (.ok .removed)

/-- How a request is answered while nothing is kept under a number. -/
def Denies (id : RuleId) (answer : Except Fault Answer) : Request → Prop
  | .find asked | .remove asked | .evaluate asked _ =>
      asked = id → answer = .error (.unknownRule id)
  | .join _ ids _ _ | .report ids _ => id ∈ ids → ∃ fault, answer = .error fault
  | .list => ∃ rules, answer = .ok (.listed rules) ∧ ∀ kept ∈ rules, kept.id ≠ id
  | .add .. | .policy => True

def upTo (catalogue : Catalogue) (requests : List Request) (place : Nat) : Catalogue :=
  catalogue.after (requests.take place)

theorem getElem?_answers (catalogue : Catalogue) (requests : List Request) (place : Nat) :
    (catalogue.answers requests)[place]? =
      requests[place]?.map fun request => ((catalogue.upTo requests place).step request).1 := by
  induction requests generalizing catalogue place with
  | nil => simp [answers]
  | cons request requests ih =>
      cases place with
      | zero => rfl
      | succ place => exact ih (catalogue.step request).2 place

theorem upTo_succ (isRequest : requests[place]? = some request) :
    catalogue.upTo requests (place + 1) = ((catalogue.upTo requests place).step request).2 := by
  rw [upTo, List.take_add_one, isRequest, after, List.foldl_append]
  rfl

theorem upTo_induction {motive : Catalogue → Prop} (ordered : place ≤ later)
    (first : motive (catalogue.upTo requests place))
    (step : ∀ between request, place ≤ between → between < later →
      requests[between]? = some request → motive (catalogue.upTo requests between) →
      motive ((catalogue.upTo requests between).step request).2) :
    motive (catalogue.upTo requests later) := by
  induction ordered with
  | refl => exact first
  | @step later ordered ih =>
      have before := ih fun between request start finish =>
        step between request start (Nat.lt_succ_of_lt finish)
      cases isRequest : requests[later]? with
      | none =>
          rw [upTo, List.take_add_one, isRequest, Option.toList_none, List.append_nil]
          exact before
      | some request =>
          rw [upTo_succ isRequest]
          exact step later request ordered (Nat.lt_succ_self later) isRequest before

theorem step_remove_of_find (found : catalogue.find id = .ok kept) :
    catalogue.step (.remove id) = (.ok .removed, catalogue.shrink id) := by
  apply step_of_serve_ok
  rw [serve, remove, found]
  rfl

theorem absent_of_removed (removed : (catalogue.step (.remove id)).1 = .ok .removed) :
    (catalogue.step (.remove id)).2.find id = .error (.unknownRule id) := by
  cases found : catalogue.find id with
  | ok kept => rw [step_remove_of_find found, find_shrink, if_pos rfl]
  | error fault =>
      have failed : catalogue.step (.remove id) = (.error fault, catalogue) := by
        apply step_of_serve_error
        rw [serve, remove, found]
        rfl
      rw [failed] at removed
      cases removed

theorem absent_step (absent : catalogue.find id = .error (.unknownRule id))
    (other : catalogue.keeps request = true → catalogue.nextId ≠ id) :
    (catalogue.step request).2.find id = .error (.unknownRule id) := by
  rcases step_cases catalogue request with
    ⟨-, same⟩ | ⟨keeps, next, admits, grown⟩ | ⟨-, removed, -, shrunk⟩
  · rw [same, absent]
  · rw [grown, find_grow, if_neg, absent]
    rw [admits.id]
    exact other keeps
  · rw [shrunk, find_shrink, absent]
    split
    · rfl
    · rfl

theorem denies_of_absent (consistent : catalogue.Consistent)
    (absent : catalogue.find id = .error (.unknownRule id)) (request : Request) :
    Denies id (catalogue.step request).1 request := by
  cases request with
  | add _ _ _ | policy => trivial
  | find asked =>
      rintro rfl
      rw [step_of_serve_error (by rw [serve, absent]; rfl)]
  | remove asked =>
      rintro rfl
      rw [step_of_serve_error (by rw [serve, remove, absent]; rfl)]
  | evaluate asked record =>
      rintro rfl
      rw [step_of_serve_error (by rw [serve, evaluate, absent]; rfl)]
  | join connective ids name description =>
      intro isAsked
      cases joined : catalogue.join connective ids name description with
      | error fault => exact ⟨fault, by rw [step_of_serve_error (by rw [serve, joined]; rfl)]⟩
      | ok result =>
          obtain ⟨parts, all, -⟩ := join_eq_ok joined
          obtain ⟨part, -, found⟩ := Collection.exists_value_of_mem all isAsked
          cases absent.symm.trans found
  | report ids records =>
      intro isAsked
      cases made : catalogue.report ids records with
      | error fault => exact ⟨fault, by rw [step_of_serve_error (by rw [serve, made]; rfl)]⟩
      | ok report =>
          obtain ⟨kept, found⟩ := exists_report_iff.mp ⟨report, made⟩ id isAsked
          cases absent.symm.trans found
  | list =>
      refine ⟨catalogue.toList, rfl, ?_⟩
      rintro kept member rfl
      cases absent.symm.trans (consistent.mem_toList_iff_find.mp member)

/-! As many numbers have been given out before a place as rules have been kept by then. -/

theorem keptCount_append (catalogue : Catalogue) (before requests : List Request) :
    catalogue.keptCount (before ++ requests) =
      catalogue.keptCount before + (catalogue.after before).keptCount requests := by
  induction before generalizing catalogue with
  | nil => exact (Nat.zero_add _).symm
  | cons request before ih =>
      rw [List.cons_append, keptCount, ih, keptCount, after_cons, Nat.add_assoc]

theorem keptCount_take_le (catalogue : Catalogue) (requests : List Request)
    (ordered : place ≤ later) :
    catalogue.keptCount (requests.take place) ≤ catalogue.keptCount (requests.take later) := by
  obtain ⟨rest, split⟩ := List.take_prefix_take_left (l := requests) ordered
  rw [← split, keptCount_append]
  exact Nat.le_add_right _ _

theorem keptCount_take_succ (isRequest : requests[place]? = some request) :
    catalogue.keptCount (requests.take (place + 1)) =
      catalogue.keptCount (requests.take place) +
        ((catalogue.upTo requests place).keeps request).toNat := by
  rw [List.take_add_one, isRequest, Option.toList_some, keptCount_append, keptCount, keptCount,
    Nat.add_zero, upTo]

theorem Numbered.upTo (numbered : catalogue.Numbered 0)
    (few : catalogue.keptCount requests < UInt64.size - 1) (place : Nat) :
    (catalogue.upTo requests place).Numbered (catalogue.keptCount (requests.take place)) := by
  have bounded := keptCount_take_le catalogue requests (Nat.le_max_left place requests.length)
  rw [List.take_of_length_le (Nat.le_max_right place requests.length)] at bounded
  have whole := numbered.after (requests.take place) (by omega)
  rwa [Nat.zero_add] at whole

theorem KeepsAt.grows (keepsAt : catalogue.KeepsAt requests place kept) :
    (catalogue.upTo requests place).Admits kept ∧
      catalogue.upTo requests (place + 1) = (catalogue.upTo requests place).grow kept ∧
      catalogue.keptCount (requests.take (place + 1)) =
        catalogue.keptCount (requests.take place) + 1 := by
  obtain ⟨request, isRequest, asks, answered⟩ := keepsAt
  rw [getElem?_answers, isRequest, Option.map_some, Option.some.injEq] at answered
  obtain ⟨found, admits, stepped⟩ :=
    step_of_isOk (catalogue.upTo requests place) asks (by rw [answered]; rfl)
  rw [stepped] at answered
  obtain rfl := Answer.kept.inj (Except.ok.inj answered)
  refine ⟨admits, ?_, ?_⟩
  · rw [upTo_succ isRequest, stepped]
  · rw [keptCount_take_succ isRequest, keeps, asks, stepped]
    rfl

theorem KeepsAt.keptCount_lt (keepsAt : catalogue.KeepsAt requests place kept)
    (ordered : place < later) :
    catalogue.keptCount (requests.take place) < catalogue.keptCount (requests.take later) := by
  rw [← Nat.succ_le_iff, Nat.succ_eq_add_one, ← keepsAt.grows.2.2]
  exact keptCount_take_le catalogue requests ordered

section

variable (numbered : catalogue.Numbered 0)
variable (few : catalogue.keptCount requests < UInt64.size - 1)
variable (keepsAt : catalogue.KeepsAt requests place kept)
include numbered few keepsAt

theorem KeepsAt.toNat_id : kept.id.toNat = catalogue.keptCount (requests.take place) + 1 := by
  rw [keepsAt.grows.1.id, (numbered.upTo few place).next]

theorem KeepsAt.id_lt (keepsLater : catalogue.KeepsAt requests later other)
    (ordered : place < later) : kept.id < other.id := by
  rw [UInt64.lt_iff_toNat_lt, keepsAt.toNat_id numbered few, keepsLater.toNat_id numbered few]
  exact Nat.succ_lt_succ (keepsAt.keptCount_lt ordered)

theorem KeepsAt.nextId_ne (ordered : place < later) :
    (catalogue.upTo requests later).nextId ≠ kept.id := by
  have between := keepsAt.keptCount_lt ordered
  have next := (numbered.upTo few later).next
  intro same
  rw [same, keepsAt.toNat_id numbered few] at next
  omega

theorem KeepsAt.find_upTo (ordered : place < later)
    (remains : ∀ between, place < between → between < later →
      ¬catalogue.RemovesAt requests between kept.id) :
    (catalogue.upTo requests later).find kept.id = .ok kept := by
  apply upTo_induction (motive := fun catalogue => catalogue.find kept.id = .ok kept) ordered
  · rw [Nat.succ_eq_add_one, keepsAt.grows.2.1, find_grow, if_pos rfl]
  · intro between request start finish isRequest found
    apply find_step found
    -- To take the rule out here would be to remove it in between.
    · rintro rfl
      apply remains between start finish
      refine ⟨isRequest, ?_⟩
      rw [getElem?_answers, isRequest, Option.map_some, step_remove_of_find found]
    · intro _
      exact keepsAt.nextId_ne numbered few start

theorem KeepsAt.absent_upTo (first : place < removed)
    (removesAt : catalogue.RemovesAt requests removed kept.id) (second : removed < later) :
    (catalogue.upTo requests later).find kept.id = .error (.unknownRule kept.id) := by
  apply upTo_induction
    (motive := fun catalogue => catalogue.find kept.id = .error (.unknownRule kept.id)) second
  · obtain ⟨isRequest, answered⟩ := removesAt
    rw [getElem?_answers, isRequest, Option.map_some, Option.some.injEq] at answered
    rw [Nat.succ_eq_add_one, upTo_succ isRequest, absent_of_removed answered]
  · intro between request start _ _ absent
    apply absent_step absent
    intro _
    exact keepsAt.nextId_ne numbered few (Nat.lt_trans first start)

end

/-- A kept rule is found as it was kept until it is removed, and never after that. -/
theorem kept_until_removed (policy : Policy) (requests : List Request)
    (few : ({ policy } : Catalogue).keptCount requests < UInt64.size - 1) :
    let catalogue : Catalogue := { policy }
    (∀ place later kept other, catalogue.KeepsAt requests place kept →
      catalogue.KeepsAt requests later other → place < later → kept.id < other.id) ∧
    ∀ place kept, catalogue.KeepsAt requests place kept →
      (∀ later, place < later → requests[later]? = some (.find kept.id) →
        (∀ between, place < between → between < later →
          ¬catalogue.RemovesAt requests between kept.id) →
        (catalogue.answers requests)[later]? = some (.ok (.kept kept))) ∧
      ∀ removed, place < removed → catalogue.RemovesAt requests removed kept.id →
        ∀ later request, removed < later → requests[later]? = some request →
          ∃ answer, (catalogue.answers requests)[later]? = some answer ∧
            Denies kept.id answer request := by
  intro catalogue
  have numbered : catalogue.Numbered 0 := numbered_empty policy
  refine ⟨?_, ?_⟩
  · intro place later kept other keepsAt keepsLater ordered
    exact keepsAt.id_lt numbered few keepsLater ordered
  · intro place kept keepsAt
    refine ⟨?_, ?_⟩
    · intro later ordered isRequest remains
      have found := keepsAt.find_upTo numbered few ordered remains
      rw [getElem?_answers, isRequest, Option.map_some,
        step_of_serve_ok (by rw [serve, found]; rfl)]
    · intro removed first removesAt later request second isRequest
      have absent := keepsAt.absent_upTo numbered few first removesAt second
      have consistent : (catalogue.upTo requests later).Consistent :=
        consistent_reached policy (requests.take later)
      refine ⟨_, ?_, denies_of_absent consistent absent request⟩
      rw [getElem?_answers, isRequest, Option.map_some]

theorem kept_until_removed_again :
    let requests := [.add "a" "" "a = 1", .find 1, .remove 1, .add "a" "" "a = 1", .find 1]
    let catalogue : Catalogue := { policy := {} }
    let kept : KeptRule := ⟨1, "a", "", "a = 1", .condition "a" .equal "1"⟩
    let other : KeptRule := { kept with id := 2 }
    catalogue.keptCount requests < UInt64.size - 1 ∧
      catalogue.KeepsAt requests 0 kept ∧ catalogue.KeepsAt requests 3 other ∧
      kept.id < other.id ∧ (catalogue.answers requests)[1]? = some (.ok (.kept kept)) ∧
      catalogue.RemovesAt requests 2 kept.id ∧
      (catalogue.answers requests)[4]? = some (.error (.unknownRule kept.id)) := by
  intro requests catalogue kept other
  have few : catalogue.keptCount requests < UInt64.size - 1 :=
    Nat.lt_of_le_of_lt (keptCount_le_length _ _) (by decide)
  have keepsAt : catalogue.KeepsAt requests 0 kept := ⟨.add "a" "" "a = 1", rfl, rfl, rfl⟩
  have keepsLater : catalogue.KeepsAt requests 3 other := ⟨.add "a" "" "a = 1", rfl, rfl, rfl⟩
  have removesAt : catalogue.RemovesAt requests 2 kept.id := ⟨rfl, rfl⟩
  obtain ⟨increasing, lifetime⟩ := kept_until_removed {} requests few
  obtain ⟨found, denied⟩ := lifetime 0 kept keepsAt
  obtain ⟨answer, answered, unknown⟩ := denied 2 (by decide) removesAt 4 (.find 1) (by decide) rfl
  rw [unknown rfl] at answered
  refine ⟨few, keepsAt, keepsLater, increasing 0 3 kept other keepsAt keepsLater (by decide), ?_,
    removesAt, answered⟩
  apply found 1 (by decide) rfl
  intro between first second
  omega

end Rulebook.Catalogue
