import Rulebook.Catalogue.History
import Rulebook.Proofs.Collection.Except

/-!
What a history makes of a catalogue. A request keeps one more rule, removes one, or leaves the
catalogue as it is; whatever the history, each rule stays under its own number, with what its text
is read as, and the next number counts the rules kept so far.
-/

namespace Rulebook

namespace Catalogue

def grow (catalogue : Catalogue) (kept : KeptRule) : Catalogue :=
  { catalogue with
    rules := catalogue.rules.insert kept.id kept
    nextId := catalogue.nextId + 1 }

def shrink (catalogue : Catalogue) (id : RuleId) : Catalogue :=
  { catalogue with rules := catalogue.rules.erase id }

structure Admits (catalogue : Catalogue) (kept : KeptRule) : Prop where
  id : kept.id = catalogue.nextId
  parsed : catalogue.policy.parseRule kept.text = .ok kept.rule

variable {catalogue grown : Catalogue} {kept : KeptRule}

theorem find_grow (catalogue : Catalogue) (kept : KeptRule) (id : RuleId) :
    (catalogue.grow kept).find id = if kept.id = id then .ok kept else catalogue.find id := by
  simp only [find, grow, Std.ExtTreeMap.getElem?_insert, Std.compare_eq_iff_eq]
  by_cases same : kept.id = id
  · rw [if_pos same, if_pos same]
  · rw [if_neg same, if_neg same]

theorem find_shrink (catalogue : Catalogue) (removed id : RuleId) :
    (catalogue.shrink removed).find id =
      if removed = id then .error (.unknownRule id) else catalogue.find id := by
  simp only [find, shrink, Std.ExtTreeMap.getElem?_erase, Std.compare_eq_iff_eq]
  by_cases same : removed = id
  · rw [if_pos same, if_pos same]
  · rw [if_neg same, if_neg same]

theorem add_eq_ok {name description text : String}
    (added : catalogue.add name description text = .ok (kept, grown)) :
    catalogue.Admits kept ∧ kept.text = text ∧ grown = catalogue.grow kept := by
  obtain ⟨rule, parsed, result⟩ := Collection.bind_eq_ok_iff.mp added
  obtain ⟨rfl, rfl⟩ := Prod.mk.inj (Except.ok.inj result)
  exact ⟨⟨rfl, parsed⟩, rfl, rfl⟩

theorem join_eq_ok {connective : Connective} {ids : List RuleId} {name description : String}
    (joined : catalogue.join connective ids name description = .ok (kept, grown)) :
    ∃ parts, ids.mapM catalogue.find = .ok parts ∧
      catalogue.policy.join connective (parts.map KeptRule.text) = .ok kept.text ∧
      catalogue.Admits kept ∧ grown = catalogue.grow kept := by
  obtain ⟨parts, all, joined⟩ := Collection.bind_eq_ok_iff.mp joined
  obtain ⟨text, written, added⟩ := Collection.bind_eq_ok_iff.mp joined
  obtain ⟨admits, rfl, whole⟩ := add_eq_ok added
  exact ⟨parts, all, written, admits, whole⟩

theorem remove_eq_ok {id : RuleId} {after : Catalogue} (removed : catalogue.remove id = .ok after) :
    after = catalogue.shrink id := by
  obtain ⟨kept, -, result⟩ := Collection.bind_eq_ok_iff.mp removed
  exact (Except.ok.inj result).symm

def Request.asksToKeep : Request → Bool
  | .add .. | .join .. => true
  | _ => false

/-- Whether a request has one more rule kept: it asks for that, and does not fail. -/
def keeps (catalogue : Catalogue) (request : Request) : Bool :=
  request.asksToKeep && (catalogue.step request).1.isOk

def keptCount (catalogue : Catalogue) : List Request → Nat
  | [] => 0
  | request :: requests =>
      (catalogue.keeps request).toNat + (catalogue.step request).2.keptCount requests

theorem step_of_serve_ok {request : Request} {answer : Answer} {after : Catalogue}
    (served : catalogue.serve request = .ok (answer, after)) :
    catalogue.step request = (.ok answer, after) := by
  rw [step, served]

theorem step_of_serve_error {request : Request} {fault : Fault}
    (failed : catalogue.serve request = .error fault) :
    catalogue.step request = (.error fault, catalogue) := by
  rw [step, failed]

theorem step_of_error {request : Request} {fault : Fault}
    (failed : (catalogue.step request).1 = .error fault) :
    (catalogue.step request).2 = catalogue := by
  cases served : catalogue.serve request with
  | ok result =>
      rw [step_of_serve_ok served] at failed
      cases failed
  | error fault' => rw [step_of_serve_error served]

theorem step_of_serve_map {α : Type} {request : Request} {result : Except Fault α}
    {answer : α → Answer}
    (served : catalogue.serve request = result.map fun value => (answer value, catalogue)) :
    (catalogue.step request).2 = catalogue := by
  cases result with
  | ok value => rw [step_of_serve_ok served]
  | error fault => rw [step_of_serve_error served]

theorem step_of_asksToKeep (catalogue : Catalogue) {request : Request}
    (asks : request.asksToKeep) :
    (∃ fault, catalogue.step request = (.error fault, catalogue)) ∨
      ∃ kept, catalogue.Admits kept ∧
        catalogue.step request = (.ok (.kept kept), catalogue.grow kept) := by
  cases request with
  | add name description text =>
      cases added : catalogue.add name description text with
      | error fault => exact .inl ⟨fault, step_of_serve_error (by rw [serve, added]; rfl)⟩
      | ok result =>
          obtain ⟨kept, grown⟩ := result
          obtain ⟨admits, -, rfl⟩ := add_eq_ok added
          exact .inr ⟨kept, admits, step_of_serve_ok (by rw [serve, added]; rfl)⟩
  | join connective ids name description =>
      cases joined : catalogue.join connective ids name description with
      | error fault => exact .inl ⟨fault, step_of_serve_error (by rw [serve, joined]; rfl)⟩
      | ok result =>
          obtain ⟨kept, grown⟩ := result
          obtain ⟨_, _, _, admits, rfl⟩ := join_eq_ok joined
          exact .inr ⟨kept, admits, step_of_serve_ok (by rw [serve, joined]; rfl)⟩
  | _ => cases asks

theorem step_of_isOk (catalogue : Catalogue) {request : Request} (asks : request.asksToKeep)
    (succeeds : (catalogue.step request).1.isOk) :
    ∃ kept, catalogue.Admits kept ∧
      catalogue.step request = (.ok (.kept kept), catalogue.grow kept) := by
  rcases step_of_asksToKeep catalogue asks with ⟨fault, failed⟩ | done
  · rw [failed] at succeeds
    cases succeeds
  · exact done

theorem step_cases (catalogue : Catalogue) (request : Request) :
    (catalogue.keeps request = false ∧ (catalogue.step request).2 = catalogue) ∨
      (catalogue.keeps request = true ∧
        ∃ kept, catalogue.Admits kept ∧ (catalogue.step request).2 = catalogue.grow kept) ∨
      (catalogue.keeps request = false ∧
        ∃ id, request = .remove id ∧ (catalogue.step request).2 = catalogue.shrink id) := by
  by_cases asks : request.asksToKeep
  · rcases step_of_asksToKeep catalogue asks with ⟨fault, failed⟩ | ⟨kept, admits, done⟩
    · refine .inl ⟨?_, congrArg Prod.snd failed⟩
      rw [keeps, failed]
      exact Bool.and_false _
    · refine .inr (.inl ⟨?_, kept, admits, congrArg Prod.snd done⟩)
      rw [keeps, asks, done]
      rfl
  · have keepsNot : catalogue.keeps request = false := by
      rw [keeps, Bool.eq_false_iff.mpr asks, Bool.false_and]
    cases request with
    | add _ _ _ => exact absurd rfl asks
    | join _ _ _ _ => exact absurd rfl asks
    | find _ => exact .inl ⟨keepsNot, step_of_serve_map rfl⟩
    | list => exact .inl ⟨keepsNot, rfl⟩
    | evaluate _ _ => exact .inl ⟨keepsNot, step_of_serve_map rfl⟩
    | report _ _ => exact .inl ⟨keepsNot, step_of_serve_map rfl⟩
    | policy => exact .inl ⟨keepsNot, rfl⟩
    | remove id =>
        cases removed : catalogue.remove id with
        | error fault =>
            refine .inl ⟨keepsNot, ?_⟩
            rw [step_of_serve_error (by rw [serve, removed]; rfl)]
        | ok after =>
            obtain rfl := remove_eq_ok removed
            refine .inr (.inr ⟨keepsNot, id, rfl, ?_⟩)
            rw [step_of_serve_ok (by rw [serve, removed]; rfl)]

theorem after_cons (catalogue : Catalogue) (request : Request) (requests : List Request) :
    catalogue.after (request :: requests) = (catalogue.step request).2.after requests := rfl

theorem policy_step (catalogue : Catalogue) (request : Request) :
    (catalogue.step request).2.policy = catalogue.policy := by
  rcases step_cases catalogue request with ⟨-, same⟩ | ⟨-, kept, -, grown⟩ | ⟨-, id, -, shrunk⟩
  · rw [same]
  · rw [grown, grow]
  · rw [shrunk, shrink]

theorem policy_after (catalogue : Catalogue) (requests : List Request) :
    (catalogue.after requests).policy = catalogue.policy := by
  induction requests generalizing catalogue with
  | nil => rfl
  | cons request requests ih => rw [after_cons, ih, policy_step]

/-- Whether each rule is kept under its own number, as what its text is read as. -/
structure Consistent (catalogue : Catalogue) : Prop where
  own : ∀ id kept, catalogue.find id = .ok kept → kept.id = id
  parsed : ∀ id kept, catalogue.find id = .ok kept →
    catalogue.policy.parseRule kept.text = .ok kept.rule

theorem find_empty (policy : Policy) (id : RuleId) :
    ({ policy } : Catalogue).find id = .error (.unknownRule id) := by
  simp [find]

theorem consistent_empty (policy : Policy) : Consistent { policy } := by
  constructor
  · simp [find_empty]
  · simp [find_empty]

theorem Consistent.grow (consistent : catalogue.Consistent) (admits : catalogue.Admits kept) :
    (catalogue.grow kept).Consistent := by
  constructor
  · intro id found isFound
    rw [find_grow] at isFound
    split at isFound
    next same =>
      obtain rfl := Except.ok.inj isFound
      exact same
    next => exact consistent.own id found isFound
  · intro id found isFound
    rw [find_grow] at isFound
    split at isFound
    next same =>
      obtain rfl := Except.ok.inj isFound
      exact admits.parsed
    next => exact consistent.parsed id found isFound

theorem find_of_find_shrink {removed id : RuleId}
    (found : (catalogue.shrink removed).find id = .ok kept) : catalogue.find id = .ok kept := by
  rw [find_shrink] at found
  split at found
  next => cases found
  next => exact found

theorem Consistent.shrink (consistent : catalogue.Consistent) (removed : RuleId) :
    (catalogue.shrink removed).Consistent := by
  constructor
  · intro id kept found
    exact consistent.own id kept (find_of_find_shrink found)
  · intro id kept found
    exact consistent.parsed id kept (find_of_find_shrink found)

theorem Consistent.step (consistent : catalogue.Consistent) (request : Request) :
    (catalogue.step request).2.Consistent := by
  rcases step_cases catalogue request with ⟨-, same⟩ | ⟨-, kept, admits, grown⟩ | ⟨-, id, -, shrunk⟩
  · rw [same]
    exact consistent
  · rw [grown]
    exact consistent.grow admits
  · rw [shrunk]
    exact consistent.shrink id

theorem Consistent.after (consistent : catalogue.Consistent) (requests : List Request) :
    (catalogue.after requests).Consistent := by
  induction requests generalizing catalogue with
  | nil => exact consistent
  | cons request requests ih => exact ih (consistent.step request)

def reached (policy : Policy) (requests : List Request) : Catalogue :=
  ({ policy } : Catalogue).after requests

theorem policy_reached (policy : Policy) (requests : List Request) :
    (reached policy requests).policy = policy :=
  policy_after { policy } requests

theorem consistent_reached (policy : Policy) (requests : List Request) :
    (reached policy requests).Consistent :=
  (consistent_empty policy).after requests

/-- Whether the next number comes right after as many numbers as rules have been kept, and after all
that are in use. -/
structure Numbered (catalogue : Catalogue) (count : Nat) : Prop where
  next : catalogue.nextId.toNat = count + 1
  given : ∀ id kept, catalogue.find id = .ok kept → 1 ≤ id.toNat ∧ id.toNat ≤ count

theorem numbered_empty (policy : Policy) : Numbered { policy } 0 := by
  constructor
  · rfl
  · simp [find_empty]

theorem Numbered.grow {count : Nat} (numbered : catalogue.Numbered count)
    (admits : catalogue.Admits kept) (room : count + 2 < UInt64.size) :
    (catalogue.grow kept).Numbered (count + 1) := by
  have next := numbered.next
  constructor
  · rw [Catalogue.grow, UInt64.toNat_add, next]
    exact Nat.mod_eq_of_lt room
  · intro id found isFound
    rw [find_grow] at isFound
    split at isFound
    next same =>
      rw [← same, admits.id, next]
      omega
    next =>
      have := numbered.given id found isFound
      omega

theorem Numbered.shrink {count : Nat} (numbered : catalogue.Numbered count) (removed : RuleId) :
    (catalogue.shrink removed).Numbered count := by
  constructor
  · exact numbered.next
  · intro id kept found
    exact numbered.given id kept (find_of_find_shrink found)

theorem Numbered.step {count : Nat} (numbered : catalogue.Numbered count) (request : Request)
    (room : count + (catalogue.keeps request).toNat + 1 < UInt64.size) :
    (catalogue.step request).2.Numbered (count + (catalogue.keeps request).toNat) := by
  rcases step_cases catalogue request with
    ⟨keepsNot, same⟩ | ⟨keeps, kept, admits, grown⟩ | ⟨keepsNot, id, -, shrunk⟩
  · rw [same, keepsNot]
    exact numbered
  · rw [keeps] at room
    rw [grown, keeps]
    exact numbered.grow admits room
  · rw [shrunk, keepsNot]
    exact numbered.shrink id

theorem Numbered.after {count : Nat} (numbered : catalogue.Numbered count)
    (requests : List Request) (room : count + catalogue.keptCount requests + 1 < UInt64.size) :
    (catalogue.after requests).Numbered (count + catalogue.keptCount requests) := by
  induction requests generalizing catalogue count with
  | nil => exact numbered
  | cons request requests ih =>
      rw [keptCount] at room
      have stepped := numbered.step request (by omega)
      have whole := ih stepped (by omega)
      rw [after_cons, keptCount, ← Nat.add_assoc]
      exact whole

theorem keptCount_le_length (catalogue : Catalogue) (requests : List Request) :
    catalogue.keptCount requests ≤ requests.length := by
  induction requests generalizing catalogue with
  | nil => exact Nat.le_refl 0
  | cons request requests ih =>
      have rest := ih (catalogue.step request).2
      have one := Bool.toNat_le (catalogue.keeps request)
      rw [keptCount, List.length_cons]
      omega

theorem mem_toList_iff : kept ∈ catalogue.toList ↔ ∃ id, catalogue.find id = .ok kept := by
  simp only [toList, List.mem_map, Prod.exists, exists_eq_right, find_eq_ok_iff,
    Std.ExtTreeMap.mem_toList_iff_getElem?_eq_some]

theorem Consistent.mem_toList_iff_find (consistent : catalogue.Consistent) :
    kept ∈ catalogue.toList ↔ catalogue.find kept.id = .ok kept := by
  rw [mem_toList_iff]
  constructor
  · rintro ⟨id, found⟩
    rwa [consistent.own id kept found]
  · intro found
    exact ⟨kept.id, found⟩

theorem Consistent.pairwise_toList (consistent : catalogue.Consistent) :
    catalogue.toList.Pairwise fun kept later => kept.id < later.id := by
  rw [toList, List.pairwise_map]
  -- The tree is in the order of its keys, and each key is its rule's own number.
  refine Std.ExtTreeMap.ordered_keys_toList.imp_of_mem ?_
  rintro ⟨id, kept⟩ ⟨id', later⟩ member member' ordered
  have found := find_eq_ok_iff.mpr (Std.ExtTreeMap.mem_toList_iff_getElem?_eq_some.mp member)
  have found' := find_eq_ok_iff.mpr (Std.ExtTreeMap.mem_toList_iff_getElem?_eq_some.mp member')
  rw [consistent.own id kept found, consistent.own id' later found']
  exact compareOfLessAndEq_eq_lt.mp ordered

theorem length_toList (catalogue : Catalogue) : catalogue.toList.length = catalogue.size := by
  rw [toList, List.length_map, Std.ExtTreeMap.length_toList, size]

theorem isEmpty_iff_toList : catalogue.isEmpty ↔ catalogue.toList = [] := by
  rw [toList, List.map_eq_nil_iff, ← List.isEmpty_iff, Std.ExtTreeMap.isEmpty_toList, isEmpty]

/-- After any history in which the numbers do not run out, each rule is kept under its own number,
as what its text is read as. -/
theorem after_consistent_numbered (policy : Policy) (requests : List Request)
    (few : ({ policy } : Catalogue).keptCount requests < UInt64.size - 1) :
    let catalogue := reached policy requests
    (∀ id kept, catalogue.find id = .ok kept →
      kept.id = id ∧ 1 ≤ id ∧ id < catalogue.nextId ∧
        policy.parseRule kept.text = .ok kept.rule) ∧
    catalogue.nextId.toNat = ({ policy } : Catalogue).keptCount requests + 1 ∧
    (∀ request fault, (catalogue.step request).1 = .error fault →
      (catalogue.step request).2 = catalogue) ∧
    (∀ kept, kept ∈ catalogue.toList ↔ catalogue.find kept.id = .ok kept) ∧
    catalogue.toList.Pairwise (fun kept later => kept.id < later.id) ∧
    catalogue.size = catalogue.toList.length ∧ (catalogue.isEmpty ↔ catalogue.toList = []) := by
  intro catalogue
  have consistent : catalogue.Consistent := consistent_reached policy requests
  have numbered : catalogue.Numbered (0 + ({ policy } : Catalogue).keptCount requests) :=
    (numbered_empty policy).after requests (by omega)
  have samePolicy : catalogue.policy = policy := policy_reached policy requests
  rw [Nat.zero_add] at numbered
  refine ⟨?_, numbered.next, fun request fault => step_of_error, fun kept =>
    consistent.mem_toList_iff_find, consistent.pairwise_toList, (length_toList catalogue).symm,
    isEmpty_iff_toList⟩
  · intro id kept found
    have given := numbered.given id kept found
    have next := numbered.next
    have parsed := consistent.parsed id kept found
    rw [samePolicy] at parsed
    refine ⟨consistent.own id kept found, ?_, ?_, parsed⟩
    · exact UInt64.le_iff_toNat_le.mpr given.1
    · rw [UInt64.lt_iff_toNat_lt]
      omega

theorem after_consistent_numbered_joined :
    let requests := [.add "a" "" "a = 1", .add "b" "" "(b > 2", .join .or [1, 1] "c" "", .remove 1]
    let catalogue := reached {} requests
    ({ policy := {} } : Catalogue).keptCount requests < UInt64.size - 1 ∧
      catalogue.nextId.toNat = 3 ∧ catalogue.ids = [2] ∧
      ∀ kept, catalogue.find 2 = .ok kept → Rule.parse .strict kept.text = .ok kept.rule := by
  intro requests catalogue
  have few : ({ policy := {} } : Catalogue).keptCount requests < UInt64.size - 1 :=
    Nat.lt_of_le_of_lt (keptCount_le_length _ _) (by decide)
  have count : ({ policy := {} } : Catalogue).keptCount requests = 2 := by decide +kernel
  have ids : catalogue.ids = [2] := by decide +kernel
  obtain ⟨stored, next, -⟩ := after_consistent_numbered {} requests few
  rw [count] at next
  refine ⟨few, next, ids, ?_⟩
  intro kept found
  exact (stored 2 kept found).2.2.2

end Catalogue

end Rulebook
