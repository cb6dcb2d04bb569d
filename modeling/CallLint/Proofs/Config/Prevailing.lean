import CallLint.Proofs.Config.Extending

/-!
# Which file a setting comes from

A setting has one value. A configuration file that sets it should have its own value, whatever the
files say that it is based on. Merging looks at values only, so this holds of values that are not
the usual ones. A usual value that is set counts as not set: it gives way to the last file on the
way that says something else.

* `Setting`: what a setting is called, and how its value is read.
* `SetIn`: the file sets a setting to a value.
* `foldl_merge_eq_lastUnusual`, `value_foldl_merge`: what a merged list of configurations says.
* `explicit_prevails_iff`: when the value that a file sets is the one that is loaded.
* `not_prevails_switchedFiles`: a file whose value is lost.
-/

namespace CallLint

/-! ## Fields -/

/-- The names of the settings that say how a run works. -/
def EngineSettings.names : List String := ["parallel", "jobs"]

/-- The names of the settings that say how a run reports. -/
def OutputSettings.names : List String := ["format", "color", "verbose", "statistics"]

/-- The names of the settings that say how fixes are written. -/
def FixSettings.names : List String := ["saturating_helper", "saturating_method", "parenthesize"]

/-- The names of the parts of a configuration. -/
def Config.parts : List String := ["extends", "engine", "output", "rules", "fix"]

/-- The value that is there for a field. -/
def Slot.value? {ν : Type} : Slot ν → Option ν
  | .given v => some v
  | _ => none

section Given

variable {ν α : Type} [DataFormat ν]

/-- What a record gives for one of its fields, if it gives something. -/
def given? (names : List String) (name : String) (v : ν) : Option ν := do
  (← (names.zip (← fields? names v)).lookup name).value?

/-- What a record gives for a field is read as this value. -/
def Tells (names : List String) (name : String) (v : ν) (read : ν → Option α) (a : α) : Prop :=
  ∀ w, given? names name v = some w → read w = some a

omit [DataFormat ν] in
/-- What is given for a field with a default is read as its value. -/
theorem Slot.tells {slot : Slot ν} {usual : α} {read : ν → Option α} {a : α}
    (h : slot.withDefault usual read = some a) : ∀ w, slot.value? = some w → read w = some a := by
  intro w hw
  cases slot with
  | given v =>
    cases hw
    exact h
  | omitted => cases hw
  | cutOff => cases hw

/-! A record that has been read has the values that are given for its fields. -/

theorem EngineSettings.tells {v : ν} {e : EngineSettings} (h : decode? v = some e) :
    Tells names "parallel" v DataFormat.bool? e.parallel ∧
      Tells names "jobs" v DataFormat.nat? e.jobs := by
  -- reading goes through the same slots, one by one
  rcases Option.bind_eq_some_iff.1 h with ⟨slots, hslots, h⟩
  unfold Tells given? names
  rw [hslots]
  split at h
  · rcases Option.bind_eq_some_iff.1 h with ⟨parallel, hparallel, h⟩
    rcases Option.bind_eq_some_iff.1 h with ⟨jobs, hjobs, h⟩
    cases h
    exact ⟨Slot.tells hparallel, Slot.tells hjobs⟩
  · cases h

theorem OutputSettings.tells {v : ν} {o : OutputSettings} (h : decode? v = some o) :
    Tells names "format" v OutputFormat.decode? o.format ∧
      Tells names "color" v ColorMode.decode? o.color ∧
      Tells names "verbose" v DataFormat.bool? o.verbose ∧
      Tells names "statistics" v DataFormat.bool? o.statistics := by
  rcases Option.bind_eq_some_iff.1 h with ⟨slots, hslots, h⟩
  unfold Tells given? names
  rw [hslots]
  split at h
  · rcases Option.bind_eq_some_iff.1 h with ⟨format, hformat, h⟩
    rcases Option.bind_eq_some_iff.1 h with ⟨color, hcolor, h⟩
    rcases Option.bind_eq_some_iff.1 h with ⟨verbose, hverbose, h⟩
    rcases Option.bind_eq_some_iff.1 h with ⟨statistics, hstatistics, h⟩
    cases h
    exact ⟨Slot.tells hformat, Slot.tells hcolor, Slot.tells hverbose, Slot.tells hstatistics⟩
  · cases h

theorem FixSettings.tells {v : ν} {f : FixSettings} (h : decode? v = some f) :
    Tells names "saturating_helper" v DataFormat.text? f.helper ∧
      Tells names "saturating_method" v DataFormat.text? f.method ∧
      Tells names "parenthesize" v ParenPolicy.decode? f.parens := by
  rcases Option.bind_eq_some_iff.1 h with ⟨slots, hslots, h⟩
  unfold Tells given? names
  rw [hslots]
  split at h
  · rcases Option.bind_eq_some_iff.1 h with ⟨helper, hhelper, h⟩
    rcases Option.bind_eq_some_iff.1 h with ⟨method, hmethod, h⟩
    rcases Option.bind_eq_some_iff.1 h with ⟨parens, hparens, h⟩
    cases h
    exact ⟨Slot.tells hhelper, Slot.tells hmethod, Slot.tells hparens⟩
  · cases h

theorem Config.tells {v : ν} {c : Config} (h : decode? v = some c) :
    Tells parts "engine" v EngineSettings.decode? c.engine ∧
      Tells parts "output" v OutputSettings.decode? c.output ∧
      Tells parts "fix" v FixSettings.decode? c.fix := by
  rcases Option.bind_eq_some_iff.1 h with ⟨slots, hslots, h⟩
  unfold Tells given? parts
  rw [hslots]
  split at h
  · rcases Option.bind_eq_some_iff.1 h with ⟨bases, -, h⟩
    rcases Option.bind_eq_some_iff.1 h with ⟨engine, hengine, h⟩
    rcases Option.bind_eq_some_iff.1 h with ⟨output, houtput, h⟩
    rcases Option.bind_eq_some_iff.1 h with ⟨rules, -, h⟩
    rcases Option.bind_eq_some_iff.1 h with ⟨fix, hfix, h⟩
    cases h
    exact ⟨Slot.tells hengine, Slot.tells houtput, Slot.tells hfix⟩
  · cases h

end Given

namespace Config

/-! ## Settings -/

/-- The settings that have one value. -/
inductive Setting where
  | parallel
  | jobs
  | format
  | color
  | verbose
  | statistics
  | helper
  | method
  | parens
deriving DecidableEq, Repr

namespace Setting

/-- What the values of a setting are. -/
def Value : Setting → Type
  | .parallel | .verbose | .statistics => Bool
  | .jobs => Nat
  | .format => OutputFormat
  | .color => ColorMode
  | .helper | .method => String
  | .parens => ParenPolicy

instance : (s : Setting) → DecidableEq s.Value
  | .parallel | .verbose | .statistics => inferInstanceAs (DecidableEq Bool)
  | .jobs => inferInstanceAs (DecidableEq Nat)
  | .format => inferInstanceAs (DecidableEq OutputFormat)
  | .color => inferInstanceAs (DecidableEq ColorMode)
  | .helper | .method => inferInstanceAs (DecidableEq String)
  | .parens => inferInstanceAs (DecidableEq ParenPolicy)

/-- The part of a configuration that a setting is in. -/
def part : Setting → String
  | .parallel | .jobs => "engine"
  | .format | .color | .verbose | .statistics => "output"
  | .helper | .method | .parens => "fix"

/-- The names of all settings of this part. -/
def names : Setting → List String
  | .parallel | .jobs => EngineSettings.names
  | .format | .color | .verbose | .statistics => OutputSettings.names
  | .helper | .method | .parens => FixSettings.names

/-- The name of a setting. -/
def name : Setting → String
  | .parallel => "parallel"
  | .jobs => "jobs"
  | .format => "format"
  | .color => "color"
  | .verbose => "verbose"
  | .statistics => "statistics"
  | .helper => "saturating_helper"
  | .method => "saturating_method"
  | .parens => "parenthesize"

variable {ν : Type} [DataFormat ν]

/-- Reads a value of a setting. -/
def decode? : (s : Setting) → ν → Option s.Value
  | .parallel | .verbose | .statistics => DataFormat.bool?
  | .jobs => DataFormat.nat?
  | .format => OutputFormat.decode?
  | .color => ColorMode.decode?
  | .helper | .method => DataFormat.text?
  | .parens => ParenPolicy.decode?

/-- The value that a document sets a setting to, if it does. -/
def written? (s : Setting) (v : ν) : Option s.Value := do
  let part ← given? parts s.part v
  let field ← given? s.names s.name part
  s.decode? field

end Setting

/-- The value of a setting. -/
def value (c : Config) : (s : Setting) → s.Value
  | .parallel => c.engine.parallel
  | .jobs => c.engine.jobs
  | .format => c.output.format
  | .color => c.output.color
  | .verbose => c.output.verbose
  | .statistics => c.output.statistics
  | .helper => c.fix.helper
  | .method => c.fix.method
  | .parens => c.fix.parens

/-- The value of a setting when nothing is configured. -/
def Setting.usual (s : Setting) : s.Value := standard.value s

/-! ## Documents -/

/-- A configuration that has been read has the values that the document sets. -/
theorem value_of_written {ν : Type} [DataFormat ν] {v : ν} {c : Config} {s : Setting} {x : s.Value}
    (h : decode? v = some c) (hx : s.written? v = some x) : c.value s = x := by
  rcases Option.bind_eq_some_iff.1 hx with ⟨part, hpart, hx⟩
  rcases Option.bind_eq_some_iff.1 hx with ⟨field, hfield, hread⟩
  rcases tells h with ⟨hengine, houtput, hfix⟩
  -- each setting is a field of one of the three parts
  have hsame : s.decode? field = some (c.value s) := by
    cases s with
    | parallel => exact (EngineSettings.tells (hengine part hpart)).1 field hfield
    | jobs => exact (EngineSettings.tells (hengine part hpart)).2 field hfield
    | format => exact (OutputSettings.tells (houtput part hpart)).1 field hfield
    | color => exact (OutputSettings.tells (houtput part hpart)).2.1 field hfield
    | verbose => exact (OutputSettings.tells (houtput part hpart)).2.2.1 field hfield
    | statistics => exact (OutputSettings.tells (houtput part hpart)).2.2.2 field hfield
    | helper => exact (FixSettings.tells (hfix part hpart)).1 field hfield
    | method => exact (FixSettings.tells (hfix part hpart)).2.1 field hfield
    | parens => exact (FixSettings.tells (hfix part hpart)).2.2 field hfield
  rw [hread] at hsame
  exact (Option.some.inj hsame).symm

variable {fs : FileSystem} {path : Path}

/-- Whether a file can be read, has a known extension, and sets a setting to a value. -/
inductive SetIn (fs : FileSystem) (path : Path) (s : Setting) (x : s.Value) : Prop
  | yaml {text : String} (hread : fs.read path = .ok text)
      (hextension : path.extension = "yaml" ∨ path.extension = "yml")
      (hwritten : ((Yaml.Document.parse? text).bind (·.view? outline)).bind s.written? = some x)
  | json {text : String} (hread : fs.read path = .ok text) (hextension : path.extension = "json")
      (hwritten : (Json.ofTextFor? (.within outline) text).bind s.written? = some x)

/-- The configuration that is stored in a file has the values that the file sets. -/
theorem Stored.value_of_setIn {own : Config} {s : Setting} {x : s.Value} (h : Stored fs path own)
    (hx : SetIn fs path s x) : own.value s = x := by
  cases h with
  | yaml hread hextension hdecode =>
    cases hx with
    | yaml hread' hextension' hwritten =>
      rw [hread] at hread'
      cases hread'
      rcases Option.bind_eq_some_iff.1 hdecode with ⟨v, hv, hdecode⟩
      rw [hv] at hwritten
      exact value_of_written hdecode hwritten
    | json hread' hextension' hwritten =>
      -- one file has one extension
      rw [hextension'] at hextension
      exact absurd hextension (by decide)
  | json hread hextension hdecode =>
    cases hx with
    | yaml hread' hextension' hwritten =>
      rw [hextension] at hextension'
      exact absurd hextension' (by decide)
    | json hread' hextension' hwritten =>
      rw [hread] at hread'
      cases hread'
      rcases Option.bind_eq_some_iff.1 hdecode with ⟨v, hv, hdecode⟩
      rw [hv] at hwritten
      exact value_of_written hdecode hwritten

/-! ## Merging -/

/-- Merging says the same of every setting. -/
@[simp] theorem value_merge (c d : Config) (s : Setting) :
    (c.merge d).value s = orUsual s.usual (c.value s) (d.value s) := by
  cases s <;> rfl

section LastUnusual

variable {α : Type} [DecidableEq α]

/-- The last of some values that is not the usual one. If there is none, it is the usual one. -/
def lastUnusual (usual : α) (values : List α) : α :=
  ((values.filter (· ≠ usual)).getLast?).getD usual

/-- A last value wins, unless it is the usual one. -/
@[simp] theorem lastUnusual_concat (usual : α) (values : List α) (x : α) :
    lastUnusual usual (values ++ [x]) = orUsual usual (lastUnusual usual values) x := by
  unfold lastUnusual orUsual
  rw [List.filter_append]
  split
  · next hx => simp [hx]
  · next hx => simp [hx]

/-- The usual value is left if there is no other one. -/
theorem lastUnusual_eq_usual_iff {usual : α} {values : List α} :
    lastUnusual usual values = usual ↔ ∀ x ∈ values, x = usual := by
  unfold lastUnusual
  cases hlast : (values.filter (· ≠ usual)).getLast? with
  | none => simpa [List.getLast?_eq_none_iff, List.filter_eq_nil_iff] using hlast
  | some x =>
    -- a value that is not the usual one stands against both sides
    have hx := List.mem_of_getLast? hlast
    rw [List.mem_filter, decide_eq_true_eq] at hx
    exact ⟨fun h => absurd h hx.2, fun h => h x hx.1⟩

end LastUnusual

/-- Where a configuration on top of another one wins unless it says the usual, a merged list of
configurations says what the last one says that says something unusual. -/
theorem foldl_merge_eq_lastUnusual {α : Type} [DecidableEq α] (part : Config → α)
    (hmerge : ∀ c d : Config, part (c.merge d) = orUsual (part standard) (part c) (part d))
    (l : List Config) :
    part (l.foldl merge standard) = lastUnusual (part standard) (l.map part) := by
  -- from the last configuration back, as `hmerge` is about the one that is merged last
  induction l using List.reverseRecOn with
  | nil => rfl
  | append_singleton l c ih =>
    rw [List.foldl_append, List.foldl_cons, List.foldl_nil, hmerge, ih, List.map_append,
      List.map_singleton, lastUnusual_concat]

/-- So a setting has the last value that is not the usual one. -/
theorem value_foldl_merge (l : List Config) (s : Setting) :
    (l.foldl merge standard).value s = lastUnusual s.usual (l.map (·.value s)) :=
  foldl_merge_eq_lastUnusual (·.value s) (fun c d => value_merge c d s) l

/-! ## Loading -/

/-- Whether every value that a file sets is the one that is loaded. -/
def Prevails (fs : FileSystem) (path : Path) : Prop :=
  ∀ c, load fs path = .ok c → ∀ s x, SetIn fs path s x → c.value s = x

/-- Which value of a setting is loaded. It is that of the last file on the way that says something
unusual, the file itself coming last, or else the usual one. So the value that the file sets is the
one that is loaded if and only if it is not the usual one, or no file that the file is based on,
however far away, says anything else. -/
theorem explicit_prevails_iff {c : Config} (h : load fs path = .ok c) :
    ∃ own below, Stored fs path own ∧ PostOrder fs (own.bases.map (basePath path)) below ∧
      ∀ s, c.value s = lastUnusual s.usual (below.map (·.value s) ++ [own.value s]) ∧
        ∀ x, SetIn fs path s x →
          own.value s = x ∧ (c.value s = x ↔ x ≠ s.usual ∨ ∀ b ∈ below, b.value s = s.usual) := by
  rcases loadWithin_eq_foldl h with ⟨own, below, hown, hbelow, rfl⟩
  refine ⟨own, below, hown, hbelow, fun s => ?_⟩
  have hvalue : ((below ++ [own]).foldl merge standard).value s =
      lastUnusual s.usual (below.map (·.value s) ++ [own.value s]) := by
    rw [value_foldl_merge, List.map_append, List.map_singleton]
  refine ⟨hvalue, fun x hx => ?_⟩
  obtain rfl := hown.value_of_setIn hx
  refine ⟨rfl, ?_⟩
  rw [hvalue, lastUnusual_concat, orUsual]
  split
  · -- a usual value is not seen, so what is below decides
    next husual =>
    rw [husual, lastUnusual_eq_usual_iff, List.forall_mem_map]
    simp
  · next hunusual => simp [hunusual]

/-- A file that turns on again what the file below it turns off, and that has a number of jobs of
its own. -/
def switchedFiles : FileSystem where
  files := .ofList
    [(["base.json"], "\x7b\"engine\":\x7b\"parallel\":false,\"jobs\":4\x7d\x7d"),
      (["top.json"],
        "\x7b\"extends\":[\"base.json\"],\"engine\":\x7b\"parallel\":true,\"jobs\":2\x7d\x7d")]
  workingDirectory := []
  home := none

/-- What is loaded has the number of jobs of the one file, and the switch of the other. -/
theorem load_switchedFiles :
    ∃ c, load switchedFiles ⟨"top.json"⟩ = .ok c ∧ c.engine = ⟨false, 2⟩ := by
  have hengine : (load switchedFiles ⟨"top.json"⟩).toOption.map (·.engine) = some ⟨false, 2⟩ := by
    decide +kernel
  cases hload : load switchedFiles ⟨"top.json"⟩ with
  | error cause =>
    rw [hload] at hengine
    cases hengine
  | ok c =>
    rw [hload] at hengine
    exact ⟨c, rfl, Option.some.inj hengine⟩

/-- What the file on top says. -/
theorem read_switchedFiles : switchedFiles.read ⟨"top.json"⟩ =
    .ok "\x7b\"extends\":[\"base.json\"],\"engine\":\x7b\"parallel\":true,\"jobs\":2\x7d\x7d" := by
  decide +kernel

/-- The number of jobs is that of the file, which is not the usual one. -/
theorem explicit_prevails_iff_switchedFiles :
    ∃ c, load switchedFiles ⟨"top.json"⟩ = .ok c ∧
      SetIn switchedFiles ⟨"top.json"⟩ .jobs (2 : Nat) ∧ c.value .jobs = (2 : Nat) := by
  rcases load_switchedFiles with ⟨c, hload, -⟩
  have hset : SetIn switchedFiles ⟨"top.json"⟩ .jobs (2 : Nat) :=
    .json read_switchedFiles (by decide +kernel) (by decide +kernel)
  have hunusual : (2 : Nat) ≠ 0 := by decide
  rcases explicit_prevails_iff hload with ⟨own, below, -, -, hvalues⟩
  exact ⟨c, hload, hset, ((hvalues .jobs).2 _ hset).2.2 (.inl hunusual)⟩

/-- That work is done in parallel is the usual value, so the file below decides. -/
theorem not_prevails_switchedFiles :
    SetIn switchedFiles ⟨"top.json"⟩ .parallel true ∧ ¬ Prevails switchedFiles ⟨"top.json"⟩ := by
  have hset : SetIn switchedFiles ⟨"top.json"⟩ .parallel true :=
    .json read_switchedFiles (by decide +kernel) (by decide +kernel)
  refine ⟨hset, fun hprevails => ?_⟩
  rcases load_switchedFiles with ⟨c, hload, hengine⟩
  have hvalue : c.engine.parallel = true := hprevails c hload .parallel true hset
  rw [hengine] at hvalue
  cases hvalue

end Config

end CallLint
