import Rulebook.Proofs.Rule.Leniency
import Rulebook.Proofs.Rule.Tokens

/-!
Rules in a row. Reading a rule does not look past its last token, so rules that are read on their own
are read one after another in a row, and what follows a complete rule is no part of it. Strict reading
finds nothing wrong with such a text but that it goes on, and lenient reading nothing at all.
-/

namespace Rulebook

theorem Token.split_append_blank (text other : String) :
    split (text ++ " " ++ other) = split text ++ split other := by
  have chars : (text ++ " " ++ other).toList = text.toList ++ ' ' :: other.toList := by simp
  rw [split_eq_splitChars, chars, splitChars_append_blank (by decide)]
  rfl

/-- Whether a row of tokens is read as a rule, with none of them left over. -/
def Rule.ReadsWhole (strictness : Strictness) (tokens : List Token) (rule : Rule) : Prop :=
  ∃ after, Cursor.next { strictness, remaining := tokens } = (.ok rule, after) ∧
    after.remaining = []

namespace Rule

variable {strictness : Strictness} {tokens others : List Token} {rule other : Rule}

theorem readsWhole_iff :
    ReadsWhole strictness tokens rule ↔
      ∃ derivation : Derivation strictness, derivation.tokens = tokens ∧
        derivation.nesting ≤ maxNesting ∧ derivation.rule = rule := by
  simp only [ReadsWhole, Cursor.next_eq_ok_iff]
  constructor
  · rintro ⟨_, ⟨derivation, rest, split, fits, derived, rfl⟩, whole⟩
    obtain rfl : rest = [] := whole
    exact ⟨derivation, by rw [split, List.append_nil], Derivation.fits_zero.mp fits, derived⟩
  · rintro ⟨derivation, rfl, shallow, derived⟩
    exact ⟨_, ⟨derivation, [], (List.append_nil _).symm, Derivation.fits_zero.mpr shallow, derived,
      rfl⟩, rfl⟩

theorem parse_strict_eq_ok_iff_readsWhole {text : String} :
    parse .strict text = .ok rule ↔ ReadsWhole .strict (Token.split text) rule := by
  rw [parse_strict_eq_ok_iff, readsWhole_iff]

theorem ReadsWhole.next (whole : ReadsWhole strictness tokens rule) (position : Nat)
    (rest : List Token) :
    Cursor.next { strictness, position, remaining := tokens ++ rest } =
      (.ok rule, { strictness, position := position + tokens.length, remaining := rest }) := by
  obtain ⟨derivation, rfl, shallow, derived⟩ := readsWhole_iff.mp whole
  exact Cursor.next_eq_ok_iff.mpr
    ⟨derivation, rest, rfl, Derivation.fits_zero.mpr shallow, derived, rfl⟩

theorem ReadsWhole.eq_of_prefix (whole : ReadsWhole strictness tokens rule)
    (otherWhole : ReadsWhole strictness others other) (begins : tokens <+: others) :
    tokens = others ∧ rule = other := by
  obtain ⟨derivation, rfl, -, rfl⟩ := readsWhole_iff.mp whole
  obtain ⟨otherDerivation, rfl, -, rfl⟩ := readsWhole_iff.mp otherWhole
  obtain rfl := Derivation.eq_of_prefix begins (List.prefix_refl _)
  exact ⟨rfl, rfl⟩

theorem run_of_readsWhole {parts : List (List Token × Rule)}
    (each : ∀ part ∈ parts, ReadsWhole strictness part.1 part.2) (rest : List Token)
    (position place : Nat) {part : List Token × Rule} (isPart : parts[place]? = some part) :
    (Cursor.run parts.length
      { strictness, position, remaining := (parts.map Prod.fst).flatten ++ rest })[place]? =
        some (.ok part.2, {
          strictness
          position := position + ((parts.take (place + 1)).map Prod.fst).flatten.length
          remaining := ((parts.drop (place + 1)).map Prod.fst).flatten ++ rest }) := by
  induction parts generalizing position place with
  | nil => cases isPart
  | cons first parts ih =>
      rw [List.forall_mem_cons] at each
      have read := each.1.next position ((parts.map Prod.fst).flatten ++ rest)
      rw [List.map_cons, List.flatten_cons, List.append_assoc, List.length_cons, Cursor.run, read]
      cases place with
      | zero =>
          obtain rfl := Option.some.inj isPart
          simp
      | succ place =>
          have later := ih each.2 (position + first.1.length) place isPart
          rw [List.getElem?_cons_succ, later]
          simp [Nat.add_assoc]

theorem parse_strict_append_blank {text following : String} (read : parse .strict text = .ok rule)
    (more : Token.split following ≠ []) :
    parse .strict (text ++ " " ++ following) =
      .error (.malformed (.trailing (Token.split text).length
        ((Token.split following).map Token.text))) := by
  have whole := parse_strict_eq_ok_iff_readsWhole.mp read
  have stops := whole.next 0 (Token.split following)
  rw [← Token.split_append_blank] at stops
  have nonempty : Token.split (text ++ " " ++ following) ≠ [] := by
    simp [Token.split_append_blank, more]
  rw [parse_of_next nonempty stops, Collection.ok_bind, if_pos ⟨rfl, more⟩, Nat.zero_add]

theorem parse_lenient_append_blank {text : String} (read : parse .lenient text = .ok rule)
    (following : String) : parse .lenient (text ++ " " ++ following) = .ok rule := by
  obtain ⟨derivation, begins, shallow, derived⟩ := parse_lenient_eq_ok_iff.mp read
  rw [parse_lenient_eq_ok_iff, Token.split_append_blank]
  exact ⟨derivation, begins.trans (List.prefix_append _ _), shallow, derived⟩

theorem parse_lenient_of_parse_strict {text : String} (read : parse .strict text = .ok rule) :
    parse .lenient text = .ok rule := by
  rcases parse_lenient_or_malformed text with same | ⟨cause, malformed⟩
  · rw [same, read]
  · cases read.symm.trans malformed

/-- Rules in a row are read one after another, whatever comes after them. -/
theorem run_parts_append :
    (∀ (strictness : Strictness) (parts : List (List Token × Rule)) (rest : List Token),
      (∀ part ∈ parts, ReadsWhole strictness part.1 part.2) →
      let steps := Cursor.run parts.length
        { strictness, remaining := (parts.map Prod.fst).flatten ++ rest }
      ∀ place part, parts[place]? = some part → ∃ after, steps[place]? = some (.ok part.2, after) ∧
        after.position = ((parts.take (place + 1)).map Prod.fst).flatten.length ∧
        after.remaining = ((parts.drop (place + 1)).map Prod.fst).flatten ++ rest) ∧
    (∀ text following rule, parse .strict text = .ok rule → Token.split following ≠ [] →
      parse .strict (text ++ " " ++ following) =
          .error (.malformed (.trailing (Token.split text).length
            ((Token.split following).map Token.text))) ∧
        parse .lenient (text ++ " " ++ following) = .ok rule) ∧
    (∀ strictness tokens others rule other, ReadsWhole strictness tokens rule →
      ReadsWhole strictness others other → tokens <+: others → tokens = others ∧ rule = other) ∧
    ∀ text rule, parse .strict text = .ok rule ↔ ReadsWhole .strict (Token.split text) rule := by
  refine ⟨?_, ?_, ?_, fun _ _ => parse_strict_eq_ok_iff_readsWhole⟩
  · intro strictness parts rest each steps place part isPart
    exact ⟨_, run_of_readsWhole each rest 0 place isPart, Nat.zero_add _, rfl⟩
  · intro text following rule read more
    exact ⟨parse_strict_append_blank read more,
      parse_lenient_append_blank (parse_lenient_of_parse_strict read) following⟩
  · intro strictness tokens others rule other whole otherWhole begins
    exact whole.eq_of_prefix otherWhole begins

theorem run_parts_append_parentheses :
    let first : List Token := [.opening, .word "a", .word "=", .opening, .closing]
    let second : List Token := [.closing, .word "<", .closing]
    ReadsWhole .lenient first (.condition "a" .equal "(") ∧
    ReadsWhole .lenient second (.condition ")" .less ")") ∧
    (∃ after, (Cursor.run 2
        { strictness := .lenient, remaining := (first ++ second) ++ [.closing] })[1]? =
          some (.ok (.condition ")" .less ")"), after) ∧
      after.position = 8 ∧ after.remaining = [.closing]) ∧
    parse .strict "(a = 1) ) b" = .error (.malformed (.trailing 5 [")", "b"])) ∧
    parse .lenient "(a = 1) ) b" = .ok (.condition "a" .equal "1") ∧
    ∀ rule, ¬ReadsWhole .lenient (first ++ second) rule := by
  intro first second
  obtain ⟨inTurn, goesOn, alone, -⟩ := run_parts_append
  have firstWhole : ReadsWhole .lenient first (.condition "a" .equal "(") := ⟨_, rfl, rfl⟩
  have secondWhole : ReadsWhole .lenient second (.condition ")" .less ")") := ⟨_, rfl, rfl⟩
  have read : parse .strict "(a = 1)" = .ok (.condition "a" .equal "1") := by rfl
  obtain ⟨refused, accepted⟩ := goesOn "(a = 1)" ") b" _ read (by decide)
  refine ⟨firstWhole, secondWhole, ?_, refused, accepted, ?_⟩
  · exact inTurn .lenient [(first, .condition "a" .equal "("), (second, .condition ")" .less ")")]
      [.closing] (by simp [firstWhole, secondWhole]) 1 _ rfl
  · intro rule whole
    obtain ⟨same, -⟩ := alone .lenient first (first ++ second) _ rule firstWhole whole
      (List.prefix_append first second)
    simp [second] at same

end Rule

end Rulebook
