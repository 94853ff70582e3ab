import Rulebook.Proofs.Catalogue.History
import Rulebook.Proofs.Rule.Chain

/-!
What a rule that joins kept rules says of records: what these rules said together when they were
joined, for as long as it is kept.
-/

namespace Rulebook.Catalogue

variable {catalogue grown : Catalogue} {kept : KeptRule} {connective : Connective}
variable {ids : List RuleId} {name description : String}

theorem evaluate_of_find {id : RuleId} (found : catalogue.find id = .ok kept) (record : Record) :
    catalogue.evaluate id record = kept.rule.evaluate record := by
  rw [evaluate, found]
  rfl

theorem mapM_evaluate_of_find {parts : List KeptRule} (all : ids.mapM catalogue.find = .ok parts)
    (record : Record) :
    (ids.mapM fun id => catalogue.evaluate id record) =
      (parts.map KeptRule.rule).mapM (Rule.evaluate record) := by
  rw [List.mapM_map]
  exact Collection.mapM_bind_of_mapM all fun kept => kept.rule.evaluate record

theorem Consistent.parse_of_mem (consistent : catalogue.Consistent) {parts : List KeptRule}
    (all : ids.mapM catalogue.find = .ok parts) {part : KeptRule} (member : part ∈ parts) :
    Rule.parse catalogue.policy.strictness part.text = .ok part.rule := by
  obtain ⟨id, -, found⟩ := Collection.exists_item_of_mem all member
  exact consistent.parsed id part found

theorem exists_derivations_of_unread {strictness : Strictness} {parts : List KeptRule}
    (read : ∀ part ∈ parts, Rule.parse strictness part.text = .ok part.rule)
    (whole : ∀ part ∈ parts, Rule.unread strictness part.text = []) :
    ∃ derivations : List (Derivation strictness),
      derivations.map Derivation.tokens = (parts.map KeptRule.text).map Token.split ∧
        derivations.map Derivation.rule = parts.map KeptRule.rule := by
  induction parts with
  | nil => exact ⟨[], rfl, rfl⟩
  | cons part parts ih =>
      rw [List.forall_mem_cons] at read whole
      obtain ⟨derivation, derived, sameRule⟩ := Rule.exists_derivation_of_unread read.1 whole.1
      obtain ⟨derivations, allDerived, sameRules⟩ := ih read.2 whole.2
      refine ⟨derivation :: derivations, ?_, ?_⟩
      · simp [derived, allDerived]
      · simp [sameRule, sameRules]

theorem parse_join_of_join {parts : List KeptRule}
    (chained : catalogue.policy.joining = .chained)
    (written : catalogue.policy.join connective (parts.map KeptRule.text) = .ok kept.text)
    (admits : catalogue.Admits kept) :
    (Joining.chained.join connective (parts.map KeptRule.text) >>=
      Rule.parse catalogue.policy.strictness) = .ok kept.rule := by
  rw [Policy.join, chained] at written
  rw [written]
  exact admits.parsed

theorem Consistent.chain?_of_join (consistent : catalogue.Consistent)
    (chained : catalogue.policy.joining = .chained)
    (joined : catalogue.join connective ids name description = .ok (kept, grown))
    (whole : (∃ id, ids = [id]) ∨ ∀ id ∈ ids, ∀ part, catalogue.find id = .ok part →
      Rule.unread catalogue.policy.strictness part.text = []) :
    ∃ parts, ids.mapM catalogue.find = .ok parts ∧
      Rule.chain? connective (parts.map KeptRule.rule) = some kept.rule := by
  obtain ⟨parts, all, written, admits, -⟩ := join_eq_ok joined
  have read := parse_join_of_join chained written admits
  refine ⟨parts, all, ?_⟩
  rcases whole with ⟨id, rfl⟩ | whole
  · obtain ⟨part, rest, found, noRest, rfl⟩ := Collection.mapM_cons_eq_ok_iff.mp all
    obtain rfl : rest = [] := (Except.ok.inj noRest).symm
    rw [List.map_cons, List.map_nil, Joining.parse_join_single,
      consistent.parse_of_mem all List.mem_cons_self] at read
    rw [← Except.ok.inj read]
    rfl
  · have parsed : ∀ part ∈ parts,
        Rule.parse catalogue.policy.strictness part.text = .ok part.rule := by
      intro part member
      exact consistent.parse_of_mem all member
    have readWhole : ∀ part ∈ parts, Rule.unread catalogue.policy.strictness part.text = [] := by
      intro part member
      obtain ⟨id, isId, found⟩ := Collection.exists_item_of_mem all member
      exact whole id isId part found
    obtain ⟨derivations, sameTokens, sameRules⟩ := exists_derivations_of_unread parsed readWhole
    rw [← sameRules]
    exact Joining.chain?_of_parse_join sameTokens read

theorem Consistent.evaluate_of_join (consistent : catalogue.Consistent)
    (chained : catalogue.policy.joining = .chained)
    (joined : catalogue.join connective ids name description = .ok (kept, grown))
    (whole : (∃ id, ids = [id]) ∨ ∀ id ∈ ids, ∀ part, catalogue.find id = .ok part →
      Rule.unread catalogue.policy.strictness part.text = []) (record : Record) :
    kept.rule.evaluate record =
      (ids.mapM fun id => catalogue.evaluate id record).map connective.joinAll := by
  obtain ⟨parts, all, together⟩ := consistent.chain?_of_join chained joined whole
  rw [mapM_evaluate_of_find all, Rule.evaluate_chain? together]

theorem find_of_join
    (joined : catalogue.join connective ids name description = .ok (kept, grown)) :
    grown.find kept.id = .ok kept ∧ grown.nextId = kept.id + 1 := by
  obtain ⟨_, _, _, admits, rfl⟩ := join_eq_ok joined
  constructor
  · rw [find_grow, if_pos rfl]
  · rw [grow, admits.id]

theorem join_of_step
    (joined : catalogue.step (.join connective ids name description) = (.ok (.kept kept), grown)) :
    catalogue.join connective ids name description = .ok (kept, grown) := by
  cases result : catalogue.join connective ids name description with
  | error fault =>
      rw [step_of_serve_error (by rw [serve, result]; rfl)] at joined
      cases joined
  | ok added =>
      rw [step_of_serve_ok (by rw [serve, result]; rfl)] at joined
      obtain ⟨answered, sameGrown⟩ := Prod.mk.inj joined
      obtain rfl := Answer.kept.inj (Except.ok.inj answered)
      obtain rfl := sameGrown
      rfl

/-! A kept rule stays until it is removed, as long as its number does not come round again. -/

theorem find_step {id : RuleId} {request : Request} (found : catalogue.find id = .ok kept)
    (remains : request ≠ .remove id)
    (other : catalogue.keeps request = true → catalogue.nextId ≠ id) :
    (catalogue.step request).2.find id = .ok kept := by
  rcases step_cases catalogue request with
    ⟨-, same⟩ | ⟨keeps, next, admits, grown⟩ | ⟨-, removed, isRemoval, shrunk⟩
  · rw [same, found]
  · rw [grown, find_grow, if_neg, found]
    rw [admits.id]
    exact other keeps
  · rw [shrunk, find_shrink, if_neg, found]
    rintro rfl
    exact remains isRemoval

theorem nextId_step (catalogue : Catalogue) (request : Request) :
    (catalogue.step request).2.nextId =
      catalogue.nextId + UInt64.ofNat (catalogue.keeps request).toNat := by
  rcases step_cases catalogue request with
    ⟨keepsNot, same⟩ | ⟨keeps, next, -, grown⟩ | ⟨keepsNot, removed, -, shrunk⟩
  · rw [same, keepsNot]
    simp
  · rw [grown, keeps, grow]
    rfl
  · rw [shrunk, keepsNot, shrink]
    simp

theorem ne_of_count {id next : RuleId} {count : Nat}
    (numbered : next = id + 1 + UInt64.ofNat count) (few : count + 1 < UInt64.size) :
    next ≠ id := by
  intro same
  have sum : (id + 1 + UInt64.ofNat count).toNat = id.toNat := by rw [← numbered, same]
  rw [UInt64.toNat_add, UInt64.toNat_add, UInt64.toNat_ofNat'] at sum
  have bound := id.toNat_lt
  simp only [UInt64.size] at few
  simp at sum
  omega

theorem find_after {id : RuleId} {count : Nat} {requests : List Request}
    (found : catalogue.find id = .ok kept)
    (numbered : catalogue.nextId = id + 1 + UInt64.ofNat count)
    (few : count + catalogue.keptCount requests < UInt64.size)
    (remains : .remove id ∉ requests) : (catalogue.after requests).find id = .ok kept := by
  induction requests generalizing catalogue count with
  | nil => exact found
  | cons request requests ih =>
      rw [List.mem_cons, not_or] at remains
      rw [keptCount] at few
      -- A rule kept now takes the next number, which the count keeps apart from the id.
      have stays : (catalogue.step request).2.find id = .ok kept := by
        apply find_step found (Ne.symm remains.1)
        intro keeps
        rw [keeps, Bool.toNat_true] at few
        exact ne_of_count numbered (by omega)
      apply ih stays ?_ ?_ remains.2
      · exact count + (catalogue.keeps request).toNat
      · rw [nextId_step, numbered, UInt64.ofNat_add, UInt64.add_assoc (id + 1)]
      · omega

/-- A joined rule says of each record, until it is removed, what its parts said together when they
were joined. -/
theorem evaluate_after_join {before later : List Request}
    (joined : (reached ⟨.strict, .chained⟩ before).step (.join connective ids name description) =
      (.ok (.kept kept), grown))
    (remains : .remove kept.id ∉ later) (few : grown.keptCount later < UInt64.size)
    (record : Record) :
    (grown.after later).evaluate kept.id record =
      (ids.mapM fun id => (reached ⟨.strict, .chained⟩ before).evaluate id record).map
        connective.joinAll := by
  have consistent := consistent_reached ⟨.strict, .chained⟩ before
  have policy := policy_reached ⟨.strict, .chained⟩ before
  have joined := join_of_step joined
  obtain ⟨found, next⟩ := find_of_join joined
  have numbered : grown.nextId = kept.id + 1 + UInt64.ofNat 0 :=
    next.trans (UInt64.add_zero _).symm
  have stays := find_after found numbered (by omega) remains
  rw [evaluate_of_find stays]
  apply consistent.evaluate_of_join (by rw [policy]) joined
  refine .inr ?_
  intro id _ part partFound
  have parsed := consistent.parsed id part partFound
  rw [policy] at parsed ⊢
  exact Rule.unread_strict parsed

theorem evaluate_after_join_removed :
    let before := reached ⟨.strict, .chained⟩ [.add "a" "" "a = x", .add "b" "" "(b = y)"]
    let joined := before.step (.join .or [2, 1, 2] "d" "")
    let later := [.remove 1, .add "c" "" "c = z", .remove 2]
    ∃ kept, joined.1 = .ok (.kept kept) ∧ .remove kept.id ∉ later ∧
      joined.2.keptCount later < UInt64.size ∧
      ∀ record, (joined.2.after later).evaluate kept.id record =
        ([2, 1, 2].mapM fun id => before.evaluate id record).map Connective.or.joinAll := by
  intro before joined later
  have next : before.nextId = 3 := by decide +kernel
  have succeeds : joined.1.isOk := by decide +kernel
  obtain ⟨kept, admits, stepped⟩ := step_of_isOk before rfl succeeds
  have answered : joined.1 = .ok (.kept kept) := congrArg Prod.fst stepped
  have isNext : kept.id = 3 := admits.id.trans next
  have remains : .remove kept.id ∉ later := by simp [later, isNext]
  have few : joined.2.keptCount later < UInt64.size :=
    Nat.lt_of_le_of_lt (keptCount_le_length _ _) (by decide)
  have stepped : before.step (.join .or [2, 1, 2] "d" "") = (.ok (.kept kept), joined.2) :=
    Prod.ext answered rfl
  exact ⟨kept, answered, remains, few, evaluate_after_join stepped remains few⟩

/-- Leniently read rules are joined without loss if no text of theirs goes on after its rule. -/
theorem evaluate_join_lenient {requests : List Request}
    (joined : (reached ⟨.lenient, .chained⟩ requests).step
      (.join connective ids name description) = (.ok (.kept kept), grown))
    (whole : (∃ id, ids = [id]) ∨ ∀ id ∈ ids, ∀ part,
      (reached ⟨.lenient, .chained⟩ requests).find id = .ok part →
        Rule.unread .lenient part.text = []) (record : Record) :
    grown.evaluate kept.id record =
      (ids.mapM fun id => (reached ⟨.lenient, .chained⟩ requests).evaluate id record).map
        connective.joinAll := by
  have consistent := consistent_reached ⟨.lenient, .chained⟩ requests
  have policy := policy_reached ⟨.lenient, .chained⟩ requests
  have joined := join_of_step joined
  rw [evaluate_of_find (find_of_join joined).1]
  apply consistent.evaluate_of_join (by rw [policy]) joined
  rwa [policy]

theorem evaluate_join_lenient_unchecked :
    let before := reached ⟨.lenient, .chained⟩
      [.add "" "" "(a = x OR b = y ]", .add "" "" "c = ("]
    let joined := before.step (.join .and [1, 2] "" "")
    ∃ kept, joined.1 = .ok (.kept kept) ∧
      (∀ id ∈ [1, 2], ∀ part, before.find id = .ok part → Rule.unread .lenient part.text = []) ∧
      ∀ record, joined.2.evaluate kept.id record =
        ([1, 2].mapM fun id => before.evaluate id record).map Connective.and.joinAll := by
  intro before joined
  have first : (before.find 1).map KeptRule.text = .ok "(a = x OR b = y ]" := by
    rfl
  have second : (before.find 2).map KeptRule.text = .ok "c = (" := by
    rfl
  have whole : ∀ id ∈ [1, 2], ∀ part, before.find id = .ok part →
      Rule.unread .lenient part.text = [] := by
    intro id isId part found
    rcases List.mem_cons.mp isId with rfl | isId
    · rw [found] at first
      rw [Except.ok.inj first]
      rfl
    · obtain rfl := List.mem_singleton.mp isId
      rw [found] at second
      rw [Except.ok.inj second]
      rfl
  have succeeds : joined.1.isOk := by decide +kernel
  obtain ⟨kept, -, stepped⟩ := step_of_isOk before rfl succeeds
  have answered : joined.1 = .ok (.kept kept) := congrArg Prod.fst stepped
  have stepped : before.step (.join .and [1, 2] "" "") = (.ok (.kept kept), joined.2) :=
    Prod.ext answered rfl
  exact ⟨kept, answered, whole, evaluate_join_lenient stepped (.inr whole)⟩

/-- The first text goes on after its rule, and what follows is read once it stands in a group. -/
theorem evaluate_join_lenient_unread :
    let catalogue :=
      reached ⟨.lenient, .chained⟩ [.add "" "" "a = x OR b = y", .add "" "" "c = z"]
    let joined := catalogue.step (.join .and [1, 2] "" "")
    let record := .ofList [("a", .text "w"), ("b", .text "y"), ("c", .text "z")]
    ∃ kept, joined.1 = .ok (.kept kept) ∧ joined.2.evaluate kept.id record = .ok true ∧
      ([1, 2].mapM fun id => catalogue.evaluate id record).map Connective.and.joinAll =
        .ok false := by
  refine ⟨⟨3, "", "", "((a = x OR b = y) AND (c = z))", .junction .and (.junction .or
    (.condition "a" .equal "x") (.condition "b" .equal "y")) (.condition "c" .equal "z")⟩, ?_⟩
  refine ⟨?_, ?_, ?_⟩
  · rfl
  · rfl
  · rfl

end Rulebook.Catalogue
