import Rulebook.Host.Session
import Rulebook.Proofs.Collection.Except

/-!
Sessions: which policy is in force after a row of calls. It is the one that the last call to install
one asked for, if any did, and the default one otherwise; no other call and no failed one has a part
in it.
-/

namespace Rulebook.Host

open Object (item?)

def Gives {α : Type} (text : α → String) (default : α) (name : String)
    (items : List (Object × Object)) (setting : α) : Prop :=
  item? items name = some (.text (text setting)) ∨ item? items name = none ∧ setting = default

/-- What the arguments of a call to install a policy ask for. -/
inductive Asks : List Object → Policy → Prop
  | nothing : Asks [] {}
  | none : Asks [.none] {}
  | settings {items : List (Object × Object)} {policy : Policy}
      (strictness : Gives Strictness.text .strict "parse_mode" items policy.strictness)
      (joining : Gives Joining.text .chained "combine_style" items policy.joining) :
      Asks [.dict items] policy

theorem readSetting_eq_ok_iff {α : Type} {text : α → String} {ofText? : String → Option α}
    (known : ∀ {written setting}, ofText? written = some setting ↔ text setting = written)
    {name : String} {default setting : α} {items : List (Object × Object)} :
    readSetting name ofText? default items = .ok setting ↔
      Gives text default name items setting := by
  rw [readSetting, Gives]
  cases item? items name with
  | none => simp [eq_comm]
  | some value =>
      cases value with
      | text written =>
          have same : some (Object.text written) = some (.text (text setting)) ↔
              ofText? written = some setting := by
            rw [known, Option.some.injEq, Object.text.injEq, eq_comm]
          simp only [same, Object.readText, Collection.ok_bind]
          cases ofText? written with
          | none => simp [throw, throwThe, MonadExceptOf.throw]
          | some other => simp [pure, Except.pure]
      | _ => simp [Object.readText]

theorem readPolicy_eq_ok_iff {items : List (Object × Object)} {policy : Policy} :
    readPolicy items = .ok policy ↔
      Gives Strictness.text .strict "parse_mode" items policy.strictness ∧
        Gives Joining.text .chained "combine_style" items policy.joining := by
  rw [← readSetting_eq_ok_iff Strictness.ofText?_eq_some_iff,
    ← readSetting_eq_ok_iff Joining.ofText?_eq_some_iff, readPolicy, Collection.bind_eq_ok_iff]
  constructor
  · rintro ⟨strictness, strictnessRead, read⟩
    obtain ⟨joining, joiningRead, whole⟩ := Collection.bind_eq_ok_iff.mp read
    obtain rfl := Except.ok.inj whole
    exact ⟨strictnessRead, joiningRead⟩
  · rintro ⟨strictnessRead, joiningRead⟩
    refine ⟨policy.strictness, strictnessRead, ?_⟩
    rw [joiningRead]
    rfl

namespace Session

variable {session : Session} {arguments : List Object} {policy : Policy}

theorem readConfiguration_eq_ok_iff {object : Object} :
    readConfiguration object = .ok policy ↔ Asks [object] policy := by
  constructor
  · intro read
    cases object with
    | none =>
        obtain rfl := Except.ok.inj read
        exact .none
    | dict items =>
        obtain ⟨strictness, joining⟩ := readPolicy_eq_ok_iff.mp read
        exact .settings strictness joining
    | _ => cases read
  · rintro (_ | _ | ⟨strictness, joining⟩)
    · rfl
    · exact readPolicy_eq_ok_iff.mpr ⟨strictness, joining⟩

theorem step_of_call_ok {procedure : Procedure} {reply : Reply} {after : Session}
    (called : session.call procedure arguments = .ok (reply, after)) :
    session.step procedure arguments = (.ok reply, after) := by
  rw [step, called]

theorem step_of_call_error {procedure : Procedure} {failure : Failure}
    (failed : session.call procedure arguments = .error failure) :
    session.step procedure arguments = (.error failure, session) := by
  rw [step, failed]

theorem step_of_call_map {procedure : Procedure} {answer : Except Failure Reply}
    (called : session.call procedure arguments = (fun reply => (reply, session)) <$> answer) :
    session.step procedure arguments = (answer, session) := by
  cases answer with
  | ok reply => exact step_of_call_ok called
  | error failure => exact step_of_call_error called

theorem step_fst (session : Session) (procedure : Procedure) (arguments : List Object) :
    (session.step procedure arguments).1 = Prod.fst <$> session.call procedure arguments := by
  rw [step]
  cases session.call procedure arguments <;> rfl

theorem step_of_asks (asks : Asks arguments policy) :
    session.step .configure arguments =
      (.ok .nothing, { session with installed := some policy }) := by
  cases asks with
  | nothing => rfl
  | none => rfl
  | @settings items _ strictness joining =>
      have read : readConfiguration (.dict items) = .ok policy :=
        readPolicy_eq_ok_iff.mpr ⟨strictness, joining⟩
      apply step_of_call_ok
      rw [call, read]
      rfl

theorem step_configure (session : Session) (arguments : List Object) :
    (∃ policy, Asks arguments policy ∧ session.step .configure arguments =
      (.ok .nothing, { session with installed := some policy })) ∨
    (∀ policy, ¬Asks arguments policy) ∧
      ∃ failure, session.step .configure arguments = (.error failure, session) := by
  by_cases asked : ∃ policy, Asks arguments policy
  · obtain ⟨policy, asks⟩ := asked
    exact .inl ⟨policy, asks, step_of_asks asks⟩
  · rw [not_exists] at asked
    refine .inr ⟨asked, ?_⟩
    rcases arguments with _ | ⟨configuration, _ | ⟨second, others⟩⟩
    · exact absurd .nothing (asked {})
    · cases read : readConfiguration configuration with
      | ok policy => exact absurd (readConfiguration_eq_ok_iff.mp read) (asked policy)
      | error failure =>
          refine ⟨failure, step_of_call_error ?_⟩
          rw [call, read]
          rfl
    · exact ⟨.conversion, rfl⟩

end Session

namespace Procedure

def isWork : Procedure → Bool
  | configure | isConfigured | startLog => false
  | _ => true

def followsPolicy : Procedure → Bool
  | parse | join => true
  | _ => false

end Procedure

namespace Session

variable {session other after : Session} {procedure : Procedure} {arguments : List Object}

theorem call_of_isWork (isWork : procedure.isWork)
    (same : procedure.followsPolicy → session.policy = other.policy) :
    session.call procedure arguments =
      (fun result => (result.1, session)) <$> other.call procedure arguments := by
  fun_cases call session procedure arguments with
  | case1 | case2 | case3 | case4 | case5 | case6 => cases isWork
  | case7 text => simp only [call, map_bind, map_pure]
  | case8 text => simp only [call, same rfl, map_bind, map_pure]
  | case9 texts connective => simp only [call, same rfl, map_bind, map_pure]
  | case10 rule record => simp only [call, map_bind, map_pure]
  | case11 rules records => simp only [call, map_bind, map_pure]
  | case12 rules records => simp only [call, map_bind, map_pure]
  | case13 =>
      have refused : other.call procedure arguments = .error .conversion := by
        rw [call]
        all_goals assumption
      rw [refused]
      rfl

theorem step_of_isWork (isWork : procedure.isWork)
    (same : procedure.followsPolicy → session.policy = other.policy) :
    session.step procedure arguments = ((other.step procedure arguments).1, session) := by
  apply step_of_call_map
  rw [call_of_isWork isWork same, step_fst, Functor.map_map]

theorem installed_step_of_ne (notConfigure : procedure ≠ .configure) :
    (session.step procedure arguments).2.installed = session.installed := by
  cases isWork : procedure.isWork with
  | true =>
      have unchanged : session.step procedure arguments =
          ((session.step procedure arguments).1, session) :=
        step_of_isWork isWork fun _ => rfl
      rw [unchanged]
  | false =>
      cases procedure with
      | configure => exact absurd rfl notConfigure
      | isConfigured => cases arguments <;> rfl
      | startLog =>
          rcases arguments with _ | ⟨filter, _ | ⟨second, others⟩⟩
          · rfl
          · cases given : filter.given? with
            | none => simp only [step, call, given, pure, Except.pure]
            | some text =>
                cases read : text.readText with
                | ok written =>
                    simp only [step, call, given, read, Collection.ok_bind, pure, Except.pure]
                | error failure => simp only [step, call, given, read, Collection.error_bind]
          · rfl
      | _ => cases isWork

end Session

def Installs (call : Procedure × List Object) (policy : Policy) : Prop :=
  call.1 = .configure ∧ Asks call.2 policy

def InstallNone (calls : List (Procedure × List Object)) : Prop :=
  ∀ call ∈ calls, ∀ policy, ¬Installs call policy

/-- Whether a policy is the one that was installed last. -/
def LeftBy (calls : List (Procedure × List Object)) (policy : Policy) : Prop :=
  ∃ before call later, calls = before ++ call :: later ∧ Installs call policy ∧ InstallNone later

variable {call : Procedure × List Object} {calls : List (Procedure × List Object)}
  {policy : Policy}

theorem installNone_cons :
    InstallNone (call :: calls) ↔ (∀ policy, ¬Installs call policy) ∧ InstallNone calls :=
  List.forall_mem_cons

theorem leftBy_cons :
    LeftBy (call :: calls) policy ↔
      LeftBy calls policy ∨ Installs call policy ∧ InstallNone calls := by
  constructor
  · rintro ⟨_ | ⟨first, before⟩, found, later, split, installs, quiet⟩
    · obtain ⟨rfl, rfl⟩ := List.cons.inj split
      exact .inr ⟨installs, quiet⟩
    · obtain ⟨rfl, rfl⟩ := List.cons.inj split
      exact .inl ⟨before, found, later, rfl, installs, quiet⟩
  · rintro (⟨before, found, later, rfl, installs, quiet⟩ | ⟨installs, quiet⟩)
    · exact ⟨call :: before, found, later, rfl, installs, quiet⟩
    · exact ⟨[], call, calls, rfl, installs, quiet⟩

theorem exists_leftBy_iff :
    (∃ policy, LeftBy calls policy) ↔ ∃ call ∈ calls, ∃ policy, Installs call policy := by
  induction calls with
  | nil => simp [LeftBy]
  | cons call calls ih =>
      simp only [leftBy_cons, exists_or, ih, List.mem_cons, exists_eq_or_imp]
      constructor
      · rintro (installed | ⟨policy, installs, -⟩)
        · exact .inr installed
        · exact .inl ⟨policy, installs⟩
      · rintro (⟨policy, installs⟩ | installed)
        · by_cases installed : ∃ call ∈ calls, ∃ policy, Installs call policy
          · exact .inl installed
          · refine .inr ⟨policy, installs, ?_⟩
            intro other member policy installs
            exact installed ⟨other, member, policy, installs⟩
        · exact .inl installed

namespace Session

theorem installed_step_iff {session : Session} :
    (session.step call.1 call.2).2.installed = some policy ↔
      Installs call policy ∨
        session.installed = some policy ∧ ∀ other, ¬Installs call other := by
  obtain ⟨procedure, arguments⟩ := call
  by_cases isConfigure : procedure = .configure
  · subst isConfigure
    rcases session.step_configure arguments with ⟨other, asks, stepped⟩ | ⟨asked, failure, stepped⟩
    · rw [stepped]
      constructor
      · intro same
        obtain rfl := Option.some.inj same
        exact .inl ⟨rfl, asks⟩
      · rintro (⟨-, asks'⟩ | ⟨-, quiet⟩)
        · have same := stepped.symm.trans (step_of_asks asks')
          exact congrArg (fun result => result.2.installed) same
        · exact absurd ⟨rfl, asks⟩ (quiet other)
    · have quiet : ∀ other, ¬Installs (.configure, arguments) other :=
        fun other installs => asked other installs.2
      simp [stepped, quiet]
  · have quiet : ∀ other, ¬Installs (procedure, arguments) other :=
      fun _ installs => isConfigure installs.1
    simp [installed_step_of_ne isConfigure, quiet]

theorem installed_after_iff (session : Session) :
    (session.after calls).installed = some policy ↔
      LeftBy calls policy ∨ session.installed = some policy ∧ InstallNone calls := by
  induction calls generalizing session with
  | nil => simp [after, LeftBy, InstallNone]
  | cons call calls ih =>
      rw [after, List.foldl_cons, ← after, ih, installed_step_iff, leftBy_cons, installNone_cons, or_and_right, or_assoc,
        and_assoc]

theorem installed_after_empty_iff :
    (after {} calls).installed = some policy ↔ LeftBy calls policy := by
  simp [installed_after_iff]

theorem policy_after_empty_iff :
    (after {} calls).policy = policy ↔
      LeftBy calls policy ∨ policy = {} ∧ ∀ other, ¬LeftBy calls other := by
  simp only [← installed_after_empty_iff, Session.policy]
  cases (after {} calls).installed with
  | none => simp [eq_comm]
  | some installed => simp

theorem step_isConfigured (session : Session) :
    session.step .isConfigured [] = (.ok (.truth session.installed.isSome), session) := rfl

theorem step_parse (session : Session) (text : Object) :
    session.step .parse [text] = (do
      let rule ← Failure.lift (session.policy.parseRule (← text.readText))
      return .document (.ofRule rule), session) := by
  apply step_of_call_map
  simp only [call, map_bind, map_pure]

theorem step_join (session : Session) (texts connective : Object) :
    session.step .join [texts, connective] = (do
      let texts ← texts.readTexts
      let connective ← Failure.lift (Connective.read (← connective.readText))
      return .text (← Failure.lift (session.policy.join connective texts)), session) := by
  apply step_of_call_map
  simp only [call, map_bind, map_pure]

theorem step_evaluate (session : Session) (rule data : Object) :
    session.step .evaluate [rule, data] = (do
      let rule ← readRule rule
      let record ← readRecord data
      return .truth (← Failure.lift (rule.evaluate record)), session) := by
  apply step_of_call_map
  simp only [call, map_bind, map_pure]

theorem step_report (session : Session) (rules : List (Object × Object)) (records : List Object) :
    session.step .report [.dict rules, .list records] = (do
      let rules ← readRules rules
      return .report (.evaluate rules (← records.mapM readRecord)), session) := by
  apply step_of_call_map
  simp only [call, reportOn, Object.readDict, Object.readList, Collection.ok_bind, map_bind, map_pure,
    bind_assoc, pure_bind]

theorem step_report_of_read (session : Session) {items : List (Object × Object)}
    {objects : List Object} {rules : List (RuleId × Rule)} {records : List Record}
    (readItems : readRules items = .ok rules) (readObjects : objects.mapM readRecord = .ok records) :
    session.step .report [.dict items, .list objects] =
      (.ok (.report (.evaluate rules records)), session) := by
  rw [step_report, readItems, Collection.ok_bind, readObjects]
  rfl

end Session

/-- After any calls, rules are read and joined under the policy that was installed last. -/
theorem step_after (calls : List (Procedure × List Object)) :
    let session := Session.after {} calls
    (∀ policy, session.policy = policy ↔
      LeftBy calls policy ∨ policy = {} ∧ ∀ other, ¬LeftBy calls other) ∧
    (∀ text, session.step .parse [text] = (do
      let rule ← Failure.lift (session.policy.parseRule (← text.readText))
      return .document (.ofRule rule), session)) ∧
    (∀ texts connective, session.step .join [texts, connective] = (do
      let texts ← texts.readTexts
      let connective ← Failure.lift (Connective.read (← connective.readText))
      return .text (← Failure.lift (session.policy.join connective texts)), session)) ∧
    (∀ arguments,
      (∃ policy, Asks arguments policy ∧ session.step .configure arguments =
        (.ok .nothing, { session with installed := some policy })) ∨
      (∀ policy, ¬Asks arguments policy) ∧
        ∃ failure, session.step .configure arguments = (.error failure, session)) ∧
    (∃ installed, session.step .isConfigured [] = (.ok (.truth installed), session) ∧
      (installed ↔ ∃ call ∈ calls, ∃ policy, Installs call policy)) ∧
    ∀ (other : Session) arguments,
      session.step .tokens arguments = ((other.step .tokens arguments).1, session) ∧
      session.step .evaluate arguments = ((other.step .evaluate arguments).1, session) ∧
      session.step .report arguments = ((other.step .report arguments).1, session) ∧
      session.step .reportLater arguments = ((other.step .reportLater arguments).1, session) := by
  intro session
  refine ⟨fun policy => Session.policy_after_empty_iff, session.step_parse, session.step_join,
    session.step_configure, ⟨session.installed.isSome, session.step_isConfigured, ?_⟩, ?_⟩
  · rw [← exists_leftBy_iff, Option.isSome_iff_exists]
    exact exists_congr fun policy => Session.installed_after_empty_iff
  · intro other arguments
    refine ⟨?_, ?_, ?_, ?_⟩
    · exact Session.step_of_isWork rfl nofun
    · exact Session.step_of_isWork rfl nofun
    · exact Session.step_of_isWork rfl nofun
    · exact Session.step_of_isWork rfl nofun

-- What the second policy leaves out is not kept from the first one.
example :
    (Session.after {}
      [(.configure, [.dict [(.text "parse_mode", .text "lenient")]]),
        (.configure, [.dict [(.text "combine_style", .text "legacy")]])]).policy =
      ⟨.strict, .legacy⟩ := by
  rfl

end Rulebook.Host
