import CallLint.Config.Basic
import CallLint.Proofs.Sorted.Map

/-!
# Laws of merging

Merging configurations is associative, and the standard configuration changes nothing, on either
side. So a configuration that is merged from others can be taken apart, and what counts is the order
alone.

* `merge_assoc`, `merge_standard`, `standard_merge`: the laws.
* `merge_foldl`, `foldl_merge_flatten`: merged lists of configurations can be taken apart.
* `foldl_merge_iff`: what some member of a merged list says.
* `Agrees`: configurations that say the same, whatever they are based on.
* `merge_monoid`: the laws for configurations by what they say.
-/

namespace CallLint.Config

section OrUsual

variable {α : Type} [DecidableEq α] (usual : α)

@[simp] theorem orUsual_usual (old : α) : orUsual usual old usual = old := by
  rw [orUsual, if_pos rfl]

@[simp] theorem usual_orUsual (new : α) : orUsual usual usual new = new := by
  unfold orUsual
  split
  · next h => exact h.symm
  · rfl

/-- The last value that is not the usual one wins, however values are grouped. -/
theorem orUsual_assoc (a b c : α) :
    orUsual usual (orUsual usual a b) c = orUsual usual a (orUsual usual b c) := by
  by_cases hc : c = usual
  · rw [hc, orUsual_usual, orUsual_usual]
  · -- the last one wins on both sides
    have hkeep : ∀ old, orUsual usual old c = c := fun old => if_neg hc
    rw [hkeep, hkeep, hkeep]

end OrUsual

/-- Every field is merged in a way that can be grouped: settings, lists, and the two maps. -/
theorem merge_assoc (a b c : Config) : (a.merge b).merge c = a.merge (b.merge c) := by
  have hseverity :=
    a.rules.severity.mergeWith_assoc (f := fun _ new => new) (fun _ => rfl) (fun _ _ _ => rfl)
      b.rules.severity c.rules.severity
  have happend : ∀ (old : Option (List String)) b c,
      (old.getD [] ++ b) ++ c = old.getD [] ++ (b ++ c) :=
    fun old b c => List.append_assoc (old.getD []) b c
  have hperFile := a.rules.perFile.mergeWith_assoc (f := fun old new => old.getD [] ++ new)
    (fun _ => rfl) happend b.rules.perFile c.rules.perFile
  simp only [merge, orUsual_assoc, List.append_assoc, hseverity, hperFile]

instance : Std.Associative merge := ⟨merge_assoc⟩

/-- The standard configuration on top of another one changes nothing. -/
@[simp] theorem merge_standard (c : Config) : c.merge standard = c := by
  simp [merge, standard, default]

/-- A configuration on top of the standard one is what it is on its own, but is not based on
others. -/
theorem standard_merge (c : Config) : standard.merge c = { c with bases := [] } := by
  have hseverity := c.rules.severity.empty_mergeWith (f := fun _ new => new) (fun _ => rfl)
  have hperFile :=
    c.rules.perFile.empty_mergeWith (f := fun old new => old.getD [] ++ new) (fun _ => rfl)
  simp only [merge, standard, default, usual_orUsual, List.nil_append, hseverity, hperFile]

/-- Merging one after the other on top of a configuration is merging all of them first. -/
theorem merge_foldl (c : Config) (l : List Config) :
    c.merge (l.foldl merge standard) = l.foldl merge c := by
  have hassoc : l.foldl merge (c.merge standard) = c.merge (l.foldl merge standard) :=
    List.foldl_assoc
  rw [← hassoc, merge_standard]

/-- Configurations that are merged group by group come to the same as those that are merged one
after the other. -/
theorem foldl_merge_flatten (groups : List (List Config)) (c : Config) :
    (groups.map (·.foldl merge standard)).foldl merge c = groups.flatten.foldl merge c := by
  -- the first group is merged first, and the others on top of that
  induction groups generalizing c with
  | nil => rfl
  | cons group groups ih =>
    rw [List.map_cons, List.foldl_cons, merge_foldl, ih, List.flatten_cons, List.foldl_append]

/-- A property that merging two configurations neither loses nor adds is one that a merged list has
from a member. -/
theorem foldl_merge_iff (holds : Config → Prop)
    (hmerge : ∀ c d, holds (c.merge d) ↔ holds c ∨ holds d)
    {l : List Config} {c : Config} : holds (l.foldl merge c) ↔ holds c ∨ ∃ d ∈ l, holds d := by
  induction l generalizing c with
  | nil => simp
  | cons d l ih =>
    rw [List.foldl_cons, ih, hmerge, or_assoc]
    simp only [List.mem_cons, exists_eq_or_imp]

/-! ## What configurations say -/

/-- Whether two configurations say the same, whatever they are based on. -/
structure Agrees (c d : Config) : Prop where
  engine : c.engine = d.engine
  output : c.output = d.output
  rules : c.rules = d.rules
  fix : c.fix = d.fix

/-- On top of the standard configuration another one says what it says on its own. -/
theorem agrees_standard_merge (c : Config) : (standard.merge c).Agrees c := by
  rw [standard_merge]
  exact ⟨rfl, rfl, rfl, rfl⟩

/-- What a merged configuration says depends on what both of them say alone. -/
theorem Agrees.merge {a a' b b' : Config} (ha : a.Agrees a') (hb : b.Agrees b') :
    (a.merge b).Agrees (a'.merge b') := by
  constructor
  · simp only [Config.merge, ha.engine, hb.engine]
  · simp only [Config.merge, ha.output, hb.output]
  · simp only [Config.merge, ha.rules, hb.rules]
  · simp only [Config.merge, ha.fix, hb.fix]

/-- By what they say, configurations are a monoid under merging. Merging respects what they say, it
makes no difference which two of three are merged first, and the standard configuration changes
nothing on either side. So any way to merge a list of configurations in groups comes to the same,
groups without members included. -/
theorem merge_monoid (a b c : Config) :
    (a.merge b).merge c = a.merge (b.merge c) ∧
      (standard.merge c).Agrees c ∧ (c.merge standard).Agrees c ∧
      (∀ a' b', a.Agrees a' → b.Agrees b' → (a.merge b).Agrees (a'.merge b')) ∧
      ∀ groups : List (List Config),
        (groups.map (·.foldl merge standard)).foldl merge standard =
        groups.flatten.foldl merge standard := by
  refine ⟨merge_assoc a b c, agrees_standard_merge c, ?_, fun _ _ => Agrees.merge,
    fun groups => foldl_merge_flatten groups standard⟩
  rw [merge_standard]
  exact ⟨rfl, rfl, rfl, rfl⟩

end CallLint.Config
