import CallLint.Engine
import CallLint.Proofs.Ranking
import CallLint.Proofs.Sorted.Map
import CallLint.Proofs.Traversal

/-!
# The report of a unit

A unit is checked in three loops: over its trees, over the nodes of each and over the rules in use.
All that the loops do is to ask rules about calls, so the whole report follows from the list of
these questions.

* `Rule.exists_check_eq`: rules can give any answers, defects among them.
* `Engine.asked`: the questions in the order in which they are asked.
* `Engine.Accounts`: a report says what came of some questions. Each loop keeps this up.
* `Engine.checkUnit_reports`: the report of a unit, part by part.
* `Engine.diagnostics_checkUnits`: the findings of a batch are those of its units.
-/

namespace CallLint

/-- Whatever can be answered to calls is the answer of some rule. -/
theorem Rule.exists_check_eq (info : RuleInfo) (answer : Expr → Environment → Outcome) :
    ∃ r : Rule, r.info = info ∧ r.check = answer := by
  -- the screen leaves out the calls with nothing to say, so what is examined there does not matter
  let screen : Matcher := .leaf (.probe none fun call env =>
    (answer call env).finding?.isSome || (answer call env).defect?.isSome)
  let examine (call : Expr) (env : Environment) : Except RuleError Diagnostic :=
    (answer call env).map (·.getD (.plain info.id .warning "" call.span))
  refine ⟨⟨info, screen, examine⟩, rfl, ?_⟩
  funext call env
  rcases h : answer call env with cause | _ | d <;>
    simp [screen, examine, Rule.check, Matcher.accepts, Matcher.run, Leaf.answer,
      Outcome.finding?, Outcome.defect?, h, Except.map]

namespace Engine

/-! ## Questions and answers -/

/-- What a unit is asked about: each of its calls in pre-order, with the rules in use in the order
in which they were registered. -/
def asked (e : Engine) (u : SourceUnit) : List (Expr × Rule) :=
  u.calls.flatMap fun call => (e.rulesFor u.path).map fun r => (call, r)

theorem pairs_eq_asked (e : Engine) (u : SourceUnit) : e.pairs u = e.asked u := by
  rw [pairs, asked, SourceUnit.callSites_eq_calls]

/-- What comes of one question. -/
def answer (e : Engine) (u : SourceUnit) (q : Expr × Rule) : Outcome :=
  e.evaluate q.2 q.1 u.environment

/-- What the answer to a question finds, with its place in the unit. -/
def finding? (e : Engine) (u : SourceUnit) (q : Expr × Rule) : Option Diagnostic :=
  (e.answer u q).finding?.map (·.locate u.path u.source)

theorem finding?_eq_some_iff {e : Engine} {u : SourceUnit} {q : Expr × Rule} {d : Diagnostic} :
    e.finding? u q = some d ↔
      ∃ said, e.answer u q = .ok (some said) ∧ said.locate u.path u.source = d := by
  rw [finding?, Option.map_eq_some_iff]
  rcases e.answer u q with cause | _ | said <;> simp [Outcome.finding?]

/-- What is wrong with the answer to a question. -/
def defect? (e : Engine) (u : SourceUnit) (q : Expr × Rule) : Option RuleError :=
  (e.answer u q).defect?

/-- Whether a question is put to a rule with an identifier. -/
def asks (id : String) (q : Expr × Rule) : Bool := q.2.id = id

/-- Whether a rule with an identifier finds something. -/
def hits (e : Engine) (u : SourceUnit) (id : String) (q : Expr × Rule) : Bool :=
  asks id q && (e.finding? u q).isSome

/-- The numbers of an identifier after some questions; none if it was not among those asked. -/
def tally (e : Engine) (u : SourceUnit) (questions : List (Expr × Rule)) (id : String) :
    Option RuleTiming :=
  if questions.countP (asks id) = 0 then none
  else some ⟨id, 0, questions.countP (asks id), questions.countP (e.hits u id)⟩

/-! ## The invariant -/

/-- A report says what came of some questions about a number of calls: every finding and every
defect once, in the order of the questions, and the numbers of every rule. -/
structure Accounts (e : Engine) (u : SourceUnit) (calls : Nat) (questions : List (Expr × Rule))
    (report : UnitReport) : Prop where
  file : report.file = u.path
  callSites : report.callSites = calls
  diagnostics : report.diagnostics = questions.filterMap (e.finding? u)
  defects : report.defects = questions.filterMap (e.defect? u)
  timings : ∀ id, report.timings.get? id = e.tally u questions id

variable {e : Engine} {u : SourceUnit} {n : Nat} {questions : List (Expr × Rule)}
  {report : UnitReport}

theorem tally_getD (e : Engine) (u : SourceUnit) (questions : List (Expr × Rule)) (id : String) :
    (e.tally u questions id).getD (.start id)
      = ⟨id, 0, questions.countP (asks id), questions.countP (e.hits u id)⟩ := by
  unfold tally
  split
  · next hnone =>
    -- a rule that was not asked has found nothing either
    have hle : questions.countP (e.hits u id) ≤ questions.countP (asks id) := by
      apply List.countP_mono_left
      intro q _ hq
      exact (Bool.and_eq_true _ _ ▸ hq).1
    have hhits : questions.countP (e.hits u id) = 0 := by omega
    rw [hnone, hhits]
    rfl
  · rfl

/-- One question more counts for the rule that is asked, and for no other one. -/
theorem tally_append_singleton (questions : List (Expr × Rule)) (q : Expr × Rule) (id : String) :
    e.tally u (questions ++ [q]) id
      = if id = q.2.id
        then some (((e.tally u questions id).getD (.start id)).add
          ⟨q.2.id, 0, 1, BatchReport.one (e.finding? u q).isSome⟩)
        else e.tally u questions id := by
  by_cases hid : id = q.2.id
  · -- the rule was asked, so both counters are those of a timing that has been started
    have hasks : asks id q = true := by simp [asks, hid]
    have hhits : e.hits u id q = (e.finding? u q).isSome := by rw [hits, hasks, Bool.true_and]
    rw [if_pos hid, tally_getD, tally, List.countP_append, List.countP_append,
      List.countP_singleton, List.countP_singleton, if_pos hasks, hhits, if_neg (by omega)]
    rfl
  · -- another rule was asked, so neither counter has changed
    have hasks : asks id q = false := by simp [asks, Ne.symm hid]
    have hhits : e.hits u id q = false := by rw [hits, hasks, Bool.false_and]
    rw [if_neg hid, tally, tally, List.countP_append, List.countP_append, List.countP_singleton,
      List.countP_singleton, hasks, hhits]
    rfl

/-- Before any question the report is empty. -/
theorem accounts_start (e : Engine) (u : SourceUnit) : Accounts e u 0 [] (.start u.path) where
  file := rfl
  callSites := rfl
  diagnostics := rfl
  defects := rfl
  timings _ := rfl

/-! What one answer changes in a report, part by part. -/

@[simp] theorem note_file (report : UnitReport) (r : Rule) (outcome : Outcome) :
    (note u report r outcome).file = report.file := by
  rcases outcome with cause | _ | d <;> rfl

@[simp] theorem note_callSites (report : UnitReport) (r : Rule) (outcome : Outcome) :
    (note u report r outcome).callSites = report.callSites := by
  rcases outcome with cause | _ | d <;> rfl

@[simp] theorem note_timings (report : UnitReport) (r : Rule) (outcome : Outcome) :
    (note u report r outcome).timings = count report.timings r outcome := by
  rcases outcome with cause | _ | d <;> rfl

@[simp] theorem note_diagnostics (report : UnitReport) (r : Rule) (outcome : Outcome) :
    (note u report r outcome).diagnostics
      = report.diagnostics ++ (outcome.finding?.map (·.locate u.path u.source)).toList := by
  rcases outcome with cause | _ | d <;> simp [note, Outcome.finding?]

@[simp] theorem note_defects (report : UnitReport) (r : Rule) (outcome : Outcome) :
    (note u report r outcome).defects = report.defects ++ outcome.defect?.toList := by
  rcases outcome with cause | _ | d <;> simp [note, Outcome.defect?]

/-- One more member of a list has one more answer, or none. -/
theorem filterMap_append_singleton {α β : Type} (f : α → Option β) (l : List α) (a : α) :
    (l ++ [a]).filterMap f = l.filterMap f ++ (f a).toList := by
  rw [List.filterMap_append]
  cases h : f a <;> simp [h]

/-- The answer to one question is taken down. -/
theorem Accounts.note (h : Accounts e u n questions report) (call : Expr) (r : Rule) :
    Accounts e u n (questions ++ [(call, r)])
      (Engine.note u report r (e.evaluate r call u.environment)) where
  file := by simp [h.file]
  callSites := by simp [h.callSites]
  diagnostics := by
    rw [note_diagnostics, h.diagnostics, filterMap_append_singleton]
    rfl
  defects := by
    rw [note_defects, h.defects, filterMap_append_singleton]
    rfl
  timings id := by
    rw [note_timings, count, SortedMap.get?_alter, h.timings, h.timings, tally_append_singleton]
    -- only the entry of the rule that was asked is another one
    by_cases hid : id = r.id
    · subst hid
      rw [if_pos Std.ReflCmp.compare_self, if_pos rfl, finding?, Option.isSome_map]
      rfl
    · rw [if_neg (fun heq => hid (Std.LawfulEqCmp.eq_of_compare heq)), if_neg hid]

/-! ## The loops -/

/-- The loop over the rules, at one call. -/
theorem Accounts.rules (h : Accounts e u n questions report) (call : Expr) (rules : List Rule) :
    Accounts e u n (questions ++ rules.map fun r => (call, r))
      (rules.foldl (fun report r =>
        Engine.note u report r (e.evaluate r call u.environment)) report) := by
  -- the questions so far grow with every rule, so the induction is for all of them
  induction rules generalizing questions report with
  | nil =>
    rw [List.map_nil, List.append_nil]
    exact h
  | cons r rules ih =>
    rw [List.map_cons, List.append_cons, List.foldl_cons]
    exact ih (h.note call r)

/-- The loop over the nodes of a tree, or of several trees. -/
theorem Accounts.nodes (rules : List Rule) (nodes : List Expr)
    (h : Accounts e u n questions report) :
    Accounts e u (n + (nodes.filter (·.kind = .methodCall)).length)
      (questions ++ (nodes.filter (·.kind = .methodCall)).flatMap fun call =>
        rules.map fun r => (call, r))
      (nodes.foldl (e.visit u rules) report) := by
  -- the calls and the questions so far grow with the nodes, so the induction is for all of them
  induction nodes generalizing n questions report with
  | nil =>
    rw [List.filter_nil, List.flatMap_nil, List.append_nil]
    exact h
  | cons node nodes ih =>
    rw [List.foldl_cons]
    by_cases hnode : node.kind = .methodCall
    · -- the call is counted before the rules are asked about it
      have hcounted :
          Accounts e u (n + 1) questions { report with callSites := report.callSites + 1 } :=
        ⟨h.file, by rw [h.callSites], h.diagnostics, h.defects, h.timings⟩
      have hrest := ih (hcounted.rules node rules)
      rw [List.filter_cons_of_pos (by simpa using hnode), List.length_cons, List.flatMap_cons,
        ← List.append_assoc, visit, if_pos hnode, show ∀ k, n + (k + 1) = n + 1 + k by omega]
      exact hrest
    · -- nobody is asked about another node
      rw [List.filter_cons_of_neg (by simpa using hnode), visit, if_neg hnode]
      exact ih h

/-- The loops together ask what is to be asked. -/
theorem accounts_walk (e : Engine) (u : SourceUnit) :
    Accounts e u u.calls.length (e.asked u) (e.walk u) := by
  -- a loop over trees and their nodes is one loop over all nodes
  have h := (accounts_start e u).nodes (e.rulesFor u.path) u.nodes
  rw [Nat.zero_add, List.nil_append, ← SourceUnit.flatMap_descendants, List.foldl_flatMap] at h
  rw [SourceUnit.flatMap_descendants] at h
  exact h

/-! ## The report -/

/-- Findings are ranked by their start, then by their end, then by the rule. -/
theorem listedBefore_iff {a b : Diagnostic} :
    listedBefore a b = true ↔
      a.span.start < b.span.start ∨
        a.span.start = b.span.start ∧
          (a.span.stop < b.span.stop ∨
            a.span.stop = b.span.stop ∧ (compare a.rule b.rule).isLE = true) := by
  show (((compare a.span.start b.span.start).then (compare a.span.stop b.span.stop)).then
    (compare a.rule b.rule)).isLE = true ↔ _
  -- a difference of the starts decides, then one of the ends, and only then the rules are compared
  rcases Nat.lt_trichotomy a.span.start b.span.start with h | h | h
  · simp [Nat.compare_eq_lt.2 h, h]
  · rcases Nat.lt_trichotomy a.span.stop b.span.stop with h' | h' | h'
    · simp [h, Nat.compare_eq_lt.2 h', h']
    · simp [h, h']
    · simp [h, Nat.compare_eq_gt.2 h', Nat.ne_of_gt h', Nat.not_lt_of_gt h']
  · simp [Nat.compare_eq_gt.2 h, Nat.ne_of_gt h, Nat.not_lt_of_gt h]

/-- All findings can be ranked so. -/
theorem ranking_listedBefore : Ranking listedBefore :=
  Ranking.ofCmp (compareLex (compareOn Diagnostic.span) (compareOn Diagnostic.rule))

/-- Every call asks every rule in use once. -/
theorem countP_asks_asked (e : Engine) (u : SourceUnit) (id : String) :
    (e.asked u).countP (asks id) = u.calls.length * (e.rulesFor u.path).countP (·.id = id) := by
  have hcall : (List.countP (asks id) ∘ fun call => (e.rulesFor u.path).map fun r => (call, r))
      = fun _ => (e.rulesFor u.path).countP (·.id = id) := by
    funext call
    rw [Function.comp_apply, List.countP_map]
    rfl
  rw [asked, List.countP_flatMap, hcall, List.map_const', List.sum_replicate_nat]

/-- The timings have an entry for those rules that were asked, and its numbers count their questions
and their findings. -/
theorem mem_timings_iff (e : Engine) (u : SourceUnit) (id : String) (t : RuleTiming) :
    (id, t) ∈ (e.checkUnit u).timings.toList ↔
      u.calls ≠ [] ∧ (∃ r ∈ e.rulesFor u.path, r.id = id) ∧
        t = ⟨id, 0, u.calls.length * (e.rulesFor u.path).countP (·.id = id),
          (e.asked u).countP (e.hits u id)⟩ := by
  have hnone : u.calls.length * (e.rulesFor u.path).countP (·.id = id) = 0 ↔
      ¬ (u.calls ≠ [] ∧ ∃ r ∈ e.rulesFor u.path, r.id = id) := by
    rw [Nat.mul_eq_zero, List.length_eq_zero_iff, List.countP_eq_zero]
    -- a product is nothing if one of its factors is: no calls, or no rule with this identifier
    simp only [decide_eq_true_eq]
    grind
  rw [SortedMap.mem_toList_iff, checkUnit, (accounts_walk e u).timings, tally, countP_asks_asked,
    ← and_assoc]
  split
  · next h => simp [hnone.1 h]
  · next h =>
    have hasked : u.calls ≠ [] ∧ ∃ r ∈ e.rulesFor u.path, r.id = id := by
      apply Classical.byContradiction
      intro hno
      exact h (hnone.2 hno)
    rw [Option.some_inj, eq_comm]
    exact (and_iff_right hasked).symm

/-- The findings of a unit are those of all questions, ranked by place. -/
theorem isStableSort_checkUnit (e : Engine) (u : SourceUnit) :
    IsStableSort listedBefore ((e.asked u).filterMap (e.finding? u))
      (e.checkUnit u).diagnostics := by
  rw [checkUnit, ← (accounts_walk e u).diagnostics]
  exact ranking_listedBefore.isStableSort_mergeSort _

/-- The defects of a unit are those of all questions, in the order in which these were asked. -/
theorem defects_checkUnit (e : Engine) (u : SourceUnit) :
    (e.checkUnit u).defects = (e.asked u).filterMap (e.defect? u) := (accounts_walk e u).defects

/-- The report of a unit, whatever the rules do: it counts the calls, it has the defects in the
order of the questions and the findings ranked by place, and the timings of exactly those rules that
were asked. An answer that is a defect takes nothing away from the answers before and after it. -/
theorem checkUnit_reports (e : Engine) (u : SourceUnit) :
    (e.checkUnit u).file = u.path ∧
    (e.checkUnit u).callSites = u.calls.length ∧
    (e.checkUnit u).defects = (e.asked u).filterMap (e.defect? u) ∧
    IsStableSort listedBefore ((e.asked u).filterMap (e.finding? u)) (e.checkUnit u).diagnostics ∧
    (∀ id t, (id, t) ∈ (e.checkUnit u).timings.toList ↔
      u.calls ≠ [] ∧ (∃ r ∈ e.rulesFor u.path, r.id = id) ∧
        t = ⟨id, 0, u.calls.length * (e.rulesFor u.path).countP (·.id = id),
          (e.asked u).countP (e.hits u id)⟩) ∧
    ∀ before q cause after, e.asked u = before ++ q :: after → e.answer u q = .error cause →
      (e.checkUnit u).defects
        = before.filterMap (e.defect? u) ++ cause :: after.filterMap (e.defect? u) ∧
      IsStableSort listedBefore ((before ++ after).filterMap (e.finding? u))
        (e.checkUnit u).diagnostics := by
  have hwalk := accounts_walk e u
  have hsorted := isStableSort_checkUnit e u
  refine ⟨hwalk.file, hwalk.callSites, defects_checkUnit e u, hsorted, mem_timings_iff e u, ?_⟩
  -- a failed question has a defect and no finding, and the other questions are as before
  intro before q cause after hasked hfails
  have hdefect : e.defect? u q = some cause := by rw [defect?, hfails]; rfl
  have hfinding : e.finding? u q = none := by rw [finding?, hfails]; rfl
  constructor
  · rw [defects_checkUnit, hasked, List.filterMap_append, List.filterMap_cons_some hdefect]
  · rw [hasked, List.filterMap_append, List.filterMap_cons_none hfinding] at hsorted
    rw [List.filterMap_append]
    exact hsorted

/-! ## The report of a batch -/

/-- What batches list and put together when they are merged is listed for one unit after the
other. -/
theorem flatMap_checkUnits {α : Type} {listed : BatchReport → List α} (hempty : listed .empty = [])
    (hmerge : ∀ b c : BatchReport, listed (b.merge c) = listed b ++ listed c) (e : Engine)
    (units : List SourceUnit) :
    listed (e.checkUnits units) = units.flatMap fun u =>
      listed (BatchReport.empty.addReport (e.checkUnit u)) := by
  have hfold : ∀ b : BatchReport,
      listed (units.foldl (fun b u => b.merge (BatchReport.empty.addReport (e.checkUnit u))) b) =
        listed b ++ units.flatMap fun u =>
          listed (BatchReport.empty.addReport (e.checkUnit u)) := by
    -- the batch so far is any batch: each unit is listed behind what it lists
    induction units with
    | nil => simp
    | cons u units ih =>
      intro b
      rw [List.foldl_cons, ih, hmerge, List.flatMap_cons, List.append_assoc]
  rw [checkUnits, hfold, hempty, List.nil_append]

/-- A batch lists the findings of its units, one unit after the other. -/
theorem diagnostics_checkUnits (e : Engine) (units : List SourceUnit) :
    (e.checkUnits units).diagnostics = units.flatMap fun u => (e.checkUnit u).diagnostics :=
  flatMap_checkUnits rfl (fun _ _ => rfl) e units

/-- A batch lists the defects of its units, one unit after the other. -/
theorem defects_checkUnits (e : Engine) (units : List SourceUnit) :
    (e.checkUnits units).defects =
      units.flatMap fun u => (e.checkUnit u).defects.map (⟨(e.checkUnit u).file, ·⟩) :=
  flatMap_checkUnits rfl (fun _ _ => rfl) e units

/-! ## A rule that fails everywhere -/

/-- A rule that has a defect at every call. -/
def failing : Rule :=
  ⟨.plain "failing" "never answers", .all [],
    fun call _ => .error (.invariant "failing" call.span "no answer")⟩

/-- A rule that finds something at every call. -/
def noticing : Rule :=
  ⟨.plain "noticing" "always answers", .all [],
    fun call _ => .ok (.plain "noticing" .warning "a call" call.span)⟩

/-- Two calls, the later one first. -/
def twoCalls : SourceUnit :=
  ⟨⟨"A.java"⟩, "f(); g();", ∅, [.leaf .methodCall ⟨5, 8⟩, .leaf .methodCall ⟨0, 3⟩]⟩

/-- The findings of a rule stay, and are put in order, next to a rule that fails at every call. -/
theorem checkUnit_reports_failing :
    (Engine.mk .standard [failing, noticing]).answer twoCalls (.leaf .methodCall ⟨5, 8⟩, failing)
      = .error (.invariant "failing" ⟨5, 8⟩ "no answer") ∧
    ((Engine.mk .standard [failing, noticing]).checkUnit twoCalls).defects
      = [.invariant "failing" ⟨5, 8⟩ "no answer", .invariant "failing" ⟨0, 3⟩ "no answer"] ∧
    IsStableSort listedBefore
      [(Diagnostic.plain "noticing" .warning "a call" ⟨5, 8⟩).locate ⟨"A.java"⟩ "f(); g();",
        (Diagnostic.plain "noticing" .warning "a call" ⟨0, 3⟩).locate ⟨"A.java"⟩ "f(); g();"]
      ((Engine.mk .standard [failing, noticing]).checkUnit twoCalls).diagnostics := by
  rcases checkUnit_reports ⟨.standard, [failing, noticing]⟩ twoCalls with ⟨-, -, -, -, -, hfailure⟩
  exact ⟨rfl, hfailure [] (.leaf .methodCall ⟨5, 8⟩, failing) _
    [(.leaf .methodCall ⟨5, 8⟩, noticing), (.leaf .methodCall ⟨0, 3⟩, failing),
      (.leaf .methodCall ⟨0, 3⟩, noticing)] rfl rfl⟩

end Engine

end CallLint
