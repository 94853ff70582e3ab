import Rulebook.Proofs.Host.Reading
import Rulebook.Proofs.Host.Session
import Rulebook.Proofs.Rule.Rendering
import Rulebook.Proofs.Verdict

/-!
Verdicts as the host program gets them. A rule that it has had read is given to it as an object, and
is read back from that object when a record is judged by it; which says the same of the record as
the rule does, unless the object goes down too far to be read back.
-/

namespace Rulebook.Host

/-- How the host is told of a verdict or a fault. -/
inductive Tells : Except Fault Bool → Except Failure Reply → Prop
  | decided (holds : Bool) : Tells (.ok holds) (.ok (.truth holds))
  | missingField (field : String) :
      Tells (.error (.missingField field))
        (.error ⟨.missingKey, some (Fault.missingField field).message⟩)
  | notNumeric (field text : String) :
      Tells (.error (.notNumeric field text))
        (.error ⟨.wrongType, some (Fault.notNumeric field text).message⟩)

theorem tells_evaluate {rule : Rule} (joins : ¬rule.IsTerm ∧ rule.JoinsRules) (record : Record) :
    Tells (rule.evaluate record) (Reply.truth <$> Failure.lift (rule.evaluate record)) := by
  cases evaluated : rule.evaluate record with
  | ok holds => exact .decided holds
  | error fault =>
      cases Rule.evaluate_eq_error joins evaluated with
      | missingField field => exact .missingField field
      | notNumeric field text => exact .notNumeric field text

variable {strictness : Strictness} {rule : Rule}

theorem joinsRules_of_writable (writable : rule.Writable strictness) :
    ¬rule.IsTerm ∧ rule.JoinsRules := by
  obtain ⟨derivation, rfl, -⟩ := writable.exists_derivation
  exact derivation.joinsRules_rule

theorem levels_ofRule (writable : rule.Writable strictness) :
    (Document.ofRule rule).levels = rule.depth + 2 := by
  -- The two levels that no junction makes are those of a condition and of its field and literal.
  induction rule with
  | junction connective left right leftIh rightIh =>
      have leftLevels := leftIh writable.1
      have rightLevels := rightIh writable.2
      rw [Document.ofRule, Document.levels_node, Rule.depth]
      simp only [Document.levelsBelow, Option.elim]
      omega
  | condition field relation literal => rfl
  | term text => exact writable.elim

theorem shallow_ofRule_iff (writable : rule.Writable strictness) :
    (Document.ofRule rule).Shallow ↔ rule.depth < maxNesting := by
  rw [Document.shallow_iff_levels_le, levels_ofRule writable]
  omega

namespace Session

variable {session : Session} {data : Object} {record : Record}

theorem step_evaluate_shallow (writable : rule.Writable strictness)
    (shallow : rule.depth < maxNesting) (accepted : readRecord data = .ok record) :
    session.step .evaluate [.ofDocument (.ofRule rule), data] =
      (Reply.truth <$> Failure.lift (rule.evaluate record), session) := by
  have fits : (Document.ofRule rule).Shallow := (shallow_ofRule_iff writable).mpr shallow
  have made : (Document.ofRule rule).toRule = .ok rule :=
    Document.toRuleWithin_ofRule (joinsRules_of_writable writable).2
      (Document.shallow_iff_levels_le.mp fits)
  have read : readRule (.ofDocument (.ofRule rule)) = .ok rule := by
    rw [readRule_of_shallow fits, made]
    rfl
  rw [step_evaluate, read, accepted]
  rfl

theorem step_evaluate_deep (writable : rule.Writable strictness) (deep : maxNesting ≤ rule.depth)
    (data : Object) :
    session.step .evaluate [.ofDocument (.ofRule rule), data] =
      (.error (.wrongValue (Fault.invalidDocument .tooDeep).message), session) := by
  have tooDeep : ¬(Document.ofRule rule).Shallow := by
    rw [shallow_ofRule_iff writable]
    omega
  rw [step_evaluate, readRule_of_deep tooDeep]
  rfl

theorem step_parse_eq_ok_iff {text : String} {reply : Reply} :
    (session.step .parse [.text text]).1 = .ok reply ↔
      ∃ rule, session.policy.parseRule text = .ok rule ∧ reply = .document (.ofRule rule) := by
  rw [step_parse, Object.readText, Collection.ok_bind]
  constructor
  · intro parsed
    obtain ⟨rule, read, whole⟩ := Collection.bind_eq_ok_iff.mp parsed
    exact ⟨rule, Failure.lift_eq_ok_iff.mp read, (Except.ok.inj whole).symm⟩
  · rintro ⟨rule, read, rfl⟩
    rw [read]
    rfl

end Session

/-- A rule that the host has had read can be evaluated if fewer than `maxNesting` junctions lie
around each point of it. -/
theorem evaluate_parsed {session : Session} (later : Session) {text : String} {reply : Reply}
    {data : Object} {record : Record} (parsed : (session.step .parse [.text text]).1 = .ok reply)
    (accepted : readRecord data = .ok record) :
    ∃ rule, session.policy.parseRule text = .ok rule ∧ reply = .document (.ofRule rule) ∧
      rule.depth ≤ maxNesting ∧
      (rule.depth < maxNesting →
        Tells (rule.evaluate record) (later.step .evaluate [reply.toObject, data]).1) ∧
      (rule.depth = maxNesting →
        (later.step .evaluate [reply.toObject, data]).1 =
          .error (.wrongValue (Fault.invalidDocument .tooDeep).message)) := by
  obtain ⟨rule, read, rfl⟩ := Session.step_parse_eq_ok_iff.mp parsed
  obtain ⟨writable, within⟩ := Rule.writable_of_parse read
  refine ⟨rule, read, rfl, within, ?_, ?_⟩
  · intro shallow
    rw [Reply.toObject, Session.step_evaluate_shallow writable shallow accepted]
    exact tells_evaluate (joinsRules_of_writable writable) record
  · intro deep
    rw [Reply.toObject, Session.step_evaluate_deep writable (Nat.le_of_eq deep.symm)]

theorem evaluate_parsed_relaxed :
    let lenient : Session := { installed := some ⟨.lenient, .legacy⟩ }
    let data := Object.dict [(.text "a", .text "x"), (.text "b", .int 5)]
    ∃ reply, (lenient.step .parse [.text "(a = x OR b > high) c"]).1 = .ok reply ∧
      (Session.step {} .evaluate [reply.toObject, data]).1 =
        .error (.wrongType
          "Cannot compare numeric field 'b' with non-numeric value 'high'") := by
  intro lenient data
  let rule := Rule.junction .or (.condition "a" .equal "x") (.condition "b" .greater "high")
  let record := Record.ofList [("a", .text "x"), ("b", .integer 5)]
  have parsed : (lenient.step .parse [.text "(a = x OR b > high) c"]).1 =
      .ok (.document (.ofRule rule)) := by
    rfl
  have accepted : readRecord data = .ok record := by rfl
  have verdict : rule.evaluate record = .error (.notNumeric "b" "high") := by rfl
  obtain ⟨found, read, -, -, told, -⟩ := evaluate_parsed {} parsed accepted
  obtain rfl : rule = found := Except.ok.inj read
  have answered := told (by decide)
  rw [verdict] at answered
  refine ⟨_, parsed, ?_⟩
  generalize (Session.step {} .evaluate _).1 = answer at answered ⊢
  cases answered
  rfl

def piled (rule : Rule) : Nat → Rule
  | 0 => rule
  | count + 1 => .junction .or (piled rule count) rule

theorem depth_piled (flat : rule.depth = 0) (count : Nat) :
    (piled rule count).depth = count := by
  induction count with
  | zero => exact flat
  | succ count ih => rw [piled, Rule.depth, ih, flat, Nat.max_zero]

theorem writable_piled (writable : rule.Writable strictness) (count : Nat) :
    (piled rule count).Writable strictness := by
  induction count with
  | zero => exact writable
  | succ count ih => exact ⟨ih, writable⟩

theorem evaluate_piled {record : Record} {holds : Bool}
    (evaluated : rule.evaluate record = .ok holds) (count : Nat) :
    (piled rule count).evaluate record = .ok holds := by
  induction count with
  | zero => exact evaluated
  | succ count ih =>
      rw [piled, Rule.evaluate, ih, evaluated]
      cases holds <;> rfl

/-- Junctions that lie around each other 256 times are read, and can no longer be evaluated. -/
theorem evaluate_parsed_full :
    let rule := piled (.condition "a" .equal "1") 256
    let data := Object.dict [(.text "a", .text "1")]
    ∃ reply record, (Session.step {} .parse [.text rule.render]).1 = .ok reply ∧
      readRecord data = .ok record ∧ Rule.parse .strict rule.render = .ok rule ∧
      rule.evaluate record = .ok true ∧
      (Session.step {} .evaluate [reply.toObject, data]).1 =
        .error (.wrongValue "Invalid AST document: nesting deeper than 256 levels") := by
  intro rule data
  have depth : rule.depth = 256 := depth_piled rfl 256
  have writable : rule.Writable .strict := by
    have condition : Rule.parse .strict "a = 1" = .ok (.condition "a" .equal "1") := by rfl
    exact writable_piled (Rule.writable_of_parse condition).1 256
  have read : Rule.parse .strict rule.render = .ok rule :=
    Rule.parse_render writable (Nat.le_of_eq depth)
  have verdict : rule.evaluate (.ofList [("a", .text "1")]) = .ok true :=
    evaluate_piled (by rfl) 256
  have parsed : (Session.step {} .parse [.text rule.render]).1 =
      .ok (.document (.ofRule rule)) :=
    Session.step_parse_eq_ok_iff.mpr ⟨rule, read, rfl⟩
  refine ⟨_, .ofList [("a", .text "1")], parsed, rfl, read, verdict, ?_⟩
  rw [Reply.toObject, Session.step_evaluate_deep writable (Nat.le_of_eq depth.symm)]
  rfl

end Rulebook.Host
