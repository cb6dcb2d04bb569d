import CallLint.Config.Basic
import CallLint.Record

/-!
# Arguments

What a run is asked to do. An argument that starts with a hyphen names switches and settings, by a
letter or by a word; any other argument is a pattern for input files. After two hyphens only
patterns follow.

* `Arguments.parse` reads the arguments from left to right up to the first one that is in error or
  ends the run.
-/

namespace CallLint

/-- What a run is asked to do. -/
structure Arguments where
  patterns : List String
  config : Option Path
  format : Option OutputFormat
  verbose : Bool
  noColor : Bool
  jobs : Option Nat
  disabled : Option (List String)
  enabled : Option (List String)
  listRules : Bool
  /-- A rule to describe. -/
  explain : Option String
  fix : Bool
  write : Bool
  diff : Bool
  showFixes : Bool
  includeRisky : Bool
  /-- Whether findings leave the exit code at zero. -/
  exitZero : Bool
deriving DecidableEq, Repr

/-- Why there is nothing to run. -/
inductive ArgumentStop where
  /-- The arguments make no sense. -/
  | usage
  /-- Only the version is asked for. -/
  | version
  /-- Only the usage is asked for. -/
  | help
deriving DecidableEq, Repr

namespace Arguments

/-- No arguments. -/
def none : Arguments where
  patterns := []
  config := .none
  format := .none
  verbose := false
  noColor := false
  jobs := .none
  disabled := .none
  enabled := .none
  listRules := false
  explain := .none
  fix := false
  write := false
  diff := false
  showFixes := false
  includeRisky := false
  exitZero := false

instance : Inhabited Arguments := ⟨none⟩

/-! ## Names -/

/-- An argument without a value. -/
inductive Switch where
  | verbose
  | noColor
  | listRules
  | fix
  | write
  | diff
  | showFixes
  | includeRisky
  | exitZero
  | version
  | help
deriving DecidableEq, Repr

/-- An argument with a value. -/
inductive Setting where
  | config
  | format
  | jobs
  | disabled
  | enabled
  | explain
deriving DecidableEq, Repr

/-- What a name or a letter stands for. -/
inductive Meaning where
  | switch (s : Switch)
  | setting (s : Setting)
deriving DecidableEq, Repr

/-- What a word behind two hyphens stands for. -/
def ofWord? : String → Option Meaning
  | "config" => some (.setting .config)
  | "format" => some (.setting .format)
  | "jobs" => some (.setting .jobs)
  | "disable" => some (.setting .disabled)
  | "select" => some (.setting .enabled)
  | "explain" => some (.setting .explain)
  | "verbose" => some (.switch .verbose)
  | "no-color" => some (.switch .noColor)
  | "list-rules" => some (.switch .listRules)
  | "fix" => some (.switch .fix)
  | "write" => some (.switch .write)
  | "diff" => some (.switch .diff)
  | "show-fixes" => some (.switch .showFixes)
  | "unsafe-fixes" => some (.switch .includeRisky)
  | "exit-zero" => some (.switch .exitZero)
  | "version" => some (.switch .version)
  | "help" => some (.switch .help)
  | _ => .none

/-- What a letter behind a hyphen stands for. -/
def ofLetter? : Char → Option Meaning
  | 'c' => some (.setting .config)
  | 'f' => some (.setting .format)
  | 'j' => some (.setting .jobs)
  | 'v' => some (.switch .verbose)
  | 'V' => some (.switch .version)
  | 'h' => some (.switch .help)
  | _ => .none

/-! ## Switches and settings -/

/-- Turns a switch on, which must be off. -/
def turnOn (a : Arguments) (s : Switch) : Except ArgumentStop Arguments :=
  let fresh (on : Bool) (b : Arguments) : Except ArgumentStop Arguments :=
    if on then .error .usage else .ok b
  match s with
  | .verbose => fresh a.verbose { a with verbose := true }
  | .noColor => fresh a.noColor { a with noColor := true }
  | .listRules => fresh a.listRules { a with listRules := true }
  | .fix => fresh a.fix { a with fix := true }
  | .write => fresh a.write { a with write := true }
  | .diff => fresh a.diff { a with diff := true }
  | .showFixes => fresh a.showFixes { a with showFixes := true }
  | .includeRisky => fresh a.includeRisky { a with includeRisky := true }
  | .exitZero => fresh a.exitZero { a with exitZero := true }
  | .version => .error .version
  | .help => .error .help

/-- A number of jobs, with a plus sign or not. -/
def jobs? (value : String) : Option Nat :=
  let digits := match value.toList with
    | '+' :: cs => cs
    | cs => cs
  if digits.isEmpty || !digits.all Char.isDigit then .none
  else
    let n := digits.foldl (fun n c => 10 * n + (c.toNat - 48)) 0
    if n < wordLimit then some n else .none

/-- The rules that a value names, between commas. -/
def names (value : String) : List String := (value.toList.splitOnP (· = ',')).map .ofList

/-- Gives a setting its value. Only lists of rules may be given more than once. -/
def assign (a : Arguments) (s : Setting) (value : String) : Except ArgumentStop Arguments :=
  let once {α : Type} (old : Option α) (new : Option α) (update : α → Arguments) :
      Except ArgumentStop Arguments :=
    match old, new with
    | .none, some v => .ok (update v)
    | _, _ => .error .usage
  match s with
  | .config =>
    once a.config (if value.isEmpty then .none else some ⟨value⟩) fun v =>
      { a with config := some v }
  | .format =>
    once a.format (OutputFormat.all.find? (·.word = value)) fun v => { a with format := some v }
  | .jobs => once a.jobs (jobs? value) fun v => { a with jobs := some v }
  | .explain => once a.explain (some value) fun v => { a with explain := some v }
  | .disabled => .ok { a with disabled := some (a.disabled.getD [] ++ names value) }
  | .enabled => .ok { a with enabled := some (a.enabled.getD [] ++ names value) }

/-! ## Reading -/

/-- What has been read so far. -/
structure Progress where
  arguments : Arguments
  /-- A setting whose value comes next. -/
  pending : Option Setting
  /-- Whether only patterns follow. -/
  onlyPatterns : Bool

/-- Reads letters behind a hyphen. What follows the letter of a setting is its value. -/
def Progress.letters (p : Progress) : List Char → Except ArgumentStop Progress
  | [] => .ok p
  | c :: cs =>
    match ofLetter? c, cs with
    | .none, _ => .error .usage
    | some (.switch s), cs => do letters { p with arguments := ← p.arguments.turnOn s } cs
    | some (.setting s), [] => .ok { p with pending := some s }
    | some (.setting s), '=' :: value => do
      return { p with arguments := ← p.arguments.assign s (.ofList value) }
    | some (.setting s), value => do
      return { p with arguments := ← p.arguments.assign s (.ofList value) }

/-- Reads a word behind two hyphens, and a value behind an equals sign. -/
def Progress.word (p : Progress) (cs : List Char) : Except ArgumentStop Progress :=
  let name := cs.takeWhile (· ≠ '=')
  match ofWord? (.ofList name), cs.drop name.length with
  | some (.switch s), [] => do return { p with arguments := ← p.arguments.turnOn s }
  | some (.setting s), [] => .ok { p with pending := some s }
  | some (.setting s), _ :: value => do
    return { p with arguments := ← p.arguments.assign s (.ofList value) }
  | _, _ => .error .usage

/-- Whether an argument names switches or settings. A lone hyphen does not. -/
def isOption (argument : String) : Bool :=
  argument.toList.head? = some '-' && 1 < argument.toList.length

/-- Reads one argument. The value of a setting cannot start with a hyphen. -/
def Progress.step (p : Progress) (argument : String) : Except ArgumentStop Progress :=
  let pattern := .ok { p with arguments.patterns := p.arguments.patterns ++ [argument] }
  if p.onlyPatterns then pattern
  else match p.pending with
    | some s =>
      if isOption argument then .error .usage
      else do return { p with arguments := ← p.arguments.assign s argument, pending := .none }
    | .none =>
      if !isOption argument then pattern
      else match argument.toList with
        | ['-', '-'] => .ok { p with onlyPatterns := true }
        | '-' :: '-' :: cs => p.word cs
        | cs => p.letters (cs.drop 1)

/-- Reads all arguments. Only fixes can be written. -/
def parse (arguments : List String) : Except ArgumentStop Arguments := do
  let p ← arguments.foldlM Progress.step ⟨none, .none, false⟩
  if p.pending.isSome || (p.arguments.write && !p.arguments.fix) then throw .usage
  return p.arguments

/-- The settings among the arguments that change the configuration. -/
def overrides (a : Arguments) : Config.Overrides where
  format := a.format
  verbose := if a.verbose then some true else .none
  jobs := a.jobs
  disabled := a.disabled
  enabled := a.enabled

end Arguments

end CallLint
