import CallLint.Output.Style
import CallLint.Rule
import CallLint.Text.Line

/-!
# Rules for people

Rules in a list, and one rule with all that is known of it.

* `RuleText.renderEntry`: a rule in a list, `RuleText.renderDetails`: a rule on its own.
-/

namespace CallLint.RuleText

/-- The colour of a severity. -/
def severityColor : Severity → Color
  | .error => .red
  | .warning => .yellow
  | .info => .blue

/-- A severity in its colour. -/
def renderSeverity (colored : Bool) (s : Severity) : String :=
  (Style.ofColor (severityColor s)).paintIf colored s.word

/-- A rule in a list, with the severity that it reports with. -/
def renderEntry (colored : Bool) (info : RuleInfo) (severity : Severity) : String :=
  let id := (Style.ofColor .cyan).paintIf colored info.id
  let tags := ", ".intercalate info.tags
  s!"    {id} [{renderSeverity colored severity}] ({info.category.word})\n      {info.summary}\n"
    ++ if info.tags.isEmpty then "" else s!"      Tags: {tags}\n"

/-- Rules in a list. -/
def renderList (colored : Bool) (rules : List (RuleInfo × Severity)) : String :=
  Style.boldface.paintIf colored "Available rules:" ++ "\n"
    ++ .join (rules.map fun (info, severity) => renderEntry colored info severity)

/-- A property on a line of its own. -/
def property (colored : Bool) (name value : String) : String :=
  let name := Style.boldface.paintIf colored name
  s!"  {name}: {value}\n"

/-- A paragraph with a title. -/
def paragraph (colored : Bool) (title body : String) : String :=
  let title := Style.boldface.paintIf colored title
  s!"\n  {title}\n  {body}\n"

/-- A piece of code with a remark in a colour. -/
def sample (colored : Bool) (remark : String) (color : Color) (code : String) : String :=
  let title := Style.boldface.paintIf colored "Example"
  let remark := (Style.ofColor color).paintIf colored remark
  let lines := (Text.lines code.toList).map fun line => "    " ++ .ofList line ++ "\n"
  s!"\n  {title} {remark}\n" ++ .join lines

/-- All that is known of a rule. -/
def renderDetails (colored : Bool) (info : RuleInfo) : String :=
  let ifAny (value : Option String) (render : String → String) : String :=
    (value.map render).getD ""
  let attention := "Some findings carry no fix and need a person to decide."
  Style.boldface.paintIf colored "Rule Details" ++ "\n\n"
    ++ property colored "ID" ((Style.ofColor .cyan).paintIf colored info.id)
    ++ ifAny info.name (property colored "Name")
    ++ property colored "Severity" (renderSeverity colored info.severity)
    ++ property colored "Category" info.category.word
    ++ property colored "Fix" info.fix.describe
    ++ paragraph colored "Summary" info.summary
    ++ ifAny info.explanation (paragraph colored "Explanation")
    ++ ifAny info.exampleBad (sample colored "(incorrect)" .red)
    ++ ifAny info.exampleGood (sample colored "(correct)" .green)
    ++ (if info.fix = .requiresHumanAttention then
        "\n  " ++ (Style.ofColor .yellow).paintIf colored attention ++ "\n" else "")
    ++ ifAny info.docs (fun docs =>
        "\n" ++ property colored "Documentation" ((Style.ofColor .blue).paintIf colored docs))

end CallLint.RuleText
