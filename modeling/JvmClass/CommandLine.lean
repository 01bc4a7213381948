import JvmClass.Timer.Config

namespace JvmClass.CommandLine

/-!
# Command lines

A command line names a job, its input and its options.  Reading one gives the
job with every option filled in, or a reason why it is no command line.
-/

/-! ## Jobs -/

/-- A class to instrument, where to write it, and how. -/
structure InstrumentJob where
  input : String
  output : String
  config : TimerConfig
  /-- The directories to look for superclasses in. -/
  directories : List String
  /-- Whether the class that is written is traced as well. -/
  traced : Bool

/-- What the program can be asked to do to a class file. -/
inductive Job where
  | instrument (job : InstrumentJob)
  | trace (input : String)
  | verify (input : String)

namespace Job

/-- The class file that a job reads. -/
def input : Job → String
  | .instrument job => job.input
  | .trace input | .verify input => input

/-- The directories that a job looks for superclasses in. -/
def directories : Job → List String
  | .instrument job => job.directories
  | .trace _ | .verify _ => []

end Job

/-- What a command line asks for. -/
inductive Command where
  | help
  | run (job : Job) (verbose : Bool)

/-! ## Options -/

/-- The options of the jobs. -/
inductive Switch where
  | output
  | method
  | descriptor
  | field
  | strategy
  | rename
  | classPath
  | lenient
  | trace
  | verbose
  | help
  deriving Repr, DecidableEq

namespace Switch

/-- The name behind two dashes. -/
def name : Switch → String
  | .output => "output"
  | .method => "method"
  | .descriptor => "descriptor"
  | .field => "field"
  | .strategy => "strategy"
  | .rename => "rename"
  | .classPath => "class-path"
  | .lenient => "lenient"
  | .trace => "trace"
  | .verbose => "verbose"
  | .help => "help"

/-- The letter behind one dash. -/
def letter? : Switch → Option Char
  | .output => some 'o'
  | .verbose => some 'v'
  | .help => some 'h'
  | _ => none

/-- What the value of an option stands for, if it takes one. -/
def placeholder? : Switch → Option String
  | .output => some "FILE"
  | .method => some "METHOD"
  | .descriptor => some "DESCRIPTOR"
  | .field => some "FIELD"
  | .strategy => some "STRATEGY"
  | .rename => some "NAME"
  | .classPath => some "DIR"
  | .lenient | .trace | .verbose | .help => none

/-- Whether an option takes a value. -/
def takesValue (switch : Switch) : Bool :=
  switch.placeholder?.isSome

/-- An option as messages show it. -/
def usage (switch : Switch) : String :=
  match switch.placeholder? with
  | some placeholder => s!"--{switch.name} <{placeholder}>"
  | none => s!"--{switch.name}"

/-- The options of every job. -/
def everywhere : List Switch :=
  [.verbose, .help]

/-- The options of instrumenting. -/
def ofInstrument : List Switch :=
  [.output, .method, .descriptor, .field, .strategy, .rename, .classPath, .lenient, .trace]
    ++ everywhere

end Switch

/-- Why arguments are no command line. -/
inductive UsageError where
  | missingJob
  | unknownJob (name : String)
  | unexpected (argument : String)
  | missingValue (switch : Switch)
  | needlessValue (switch : Switch) (value : String)
  | unknownStrategy (value : String)
  | repeated (switch : Switch)
  | missing (arguments : List String)
  deriving Repr, DecidableEq

/-- The strategies in the order in which messages list them. -/
def strategies : List Strategy :=
  [.fieldCounter, .localScoped, .structuredAdvice]

/-- The wording of each cause. -/
def UsageError.message : UsageError → String
  | .missingJob => "a job is required: instrument, trace or verify"
  | .unknownJob name => s!"unrecognized subcommand '{name}'"
  | .unexpected argument => s!"unexpected argument '{argument}' found"
  | .missingValue switch =>
      s!"a value is required for '{switch.usage}' but none was supplied"
  | .needlessValue switch value =>
      s!"unexpected value '{value}' for '{switch.usage}' found; no more were expected"
  | .unknownStrategy value =>
      s!"invalid value '{value}' for '{Switch.strategy.usage}'\n  [possible values: "
        ++ ", ".intercalate (strategies.map Strategy.name) ++ "]"
  | .repeated switch => s!"the argument '{switch.usage}' cannot be used multiple times"
  | .missing arguments =>
      "the following required arguments were not provided:"
        ++ String.join (arguments.map ("\n  " ++ ·))

/-! ## Arguments -/

/-- An input, or an option with its value, which is empty for an option without one. -/
inductive Word where
  | input (path : String)
  | option (switch : Switch) (value : String)
  deriving Repr, DecidableEq

/-- What one argument says by itself. -/
inductive Argument where
  | complete (words : List Word)
  /-- The value of the last option is the next argument. -/
  | awaiting (words : List Word) (switch : Switch)
  deriving Repr, DecidableEq

/-- Puts a word in front. -/
def Argument.after (word : Word) : Argument → Argument
  | .complete words => .complete (word :: words)
  | .awaiting words switch => .awaiting (word :: words) switch

/-- Whether an argument is written as an option. -/
def isOption (argument : String) : Bool :=
  match argument.toList with
  | '-' :: _ :: _ => true
  | _ => false

/-- Options behind one dash.  A value follows its letter at once or is the next argument. -/
def letters (known : List Switch) : List Char → Except UsageError Argument
  | [] => .ok (.complete [])
  | c :: rest =>
      match known.find? fun switch => switch.letter? = some c with
      | none => .error (.unexpected s!"-{c}")
      | some switch =>
          if switch.takesValue then
            match rest with
            | [] => .ok (.awaiting [] switch)
            | '=' :: value => .ok (.complete [.option switch (String.ofList value)])
            | value => .ok (.complete [.option switch (String.ofList value)])
          else
            (letters known rest).map (.after (.option switch ""))

/-- An option behind two dashes.  A value follows a `=` or is the next argument. -/
def longOption (known : List Switch) (text : List Char) : Except UsageError Argument :=
  let name := String.ofList (text.takeWhile (· ≠ '='))
  match known.find? fun switch => switch.name = name with
  | none => .error (.unexpected ("--" ++ name))
  | some switch =>
      match text.dropWhile (· ≠ '='), switch.takesValue with
      | [], true => .ok (.awaiting [] switch)
      | [], false => .ok (.complete [.option switch ""])
      | _ :: value, true => .ok (.complete [.option switch (String.ofList value)])
      | _ :: value, false => .error (.needlessValue switch (String.ofList value))

/-- One argument. -/
def argument (known : List Switch) (text : String) : Except UsageError Argument :=
  match text.toList with
  | '-' :: '-' :: rest => longOption known rest
  | '-' :: c :: rest => letters known (c :: rest)
  | _ => .ok (.complete [.input text])

/-- All arguments.  Behind two dashes that stand alone there are inputs only. -/
def scan (known : List Switch) : List String → Except UsageError (List Word)
  | [] => .ok []
  | text :: rest =>
      if text = "--" then
        .ok (rest.map .input)
      else
        match argument known text, rest with
        | .error error, _ => .error error
        | .ok (.complete words), rest => (scan known rest).map (words ++ ·)
        | .ok (.awaiting words switch), value :: rest =>
            if isOption value then .error (.missingValue switch)
            else (scan known rest).map (words ++ .option switch value :: ·)
        | .ok (.awaiting _ switch), [] => .error (.missingValue switch)

/-! ## Reading a command line -/

/-- The inputs. -/
def inputs (words : List Word) : List String :=
  words.filterMap fun
    | .input path => some path
    | .option _ _ => none

/-- The values that an option is given. -/
def values (words : List Word) (switch : Switch) : List String :=
  words.filterMap fun
    | .option found value => if found = switch then some value else none
    | .input _ => none

/-- Whether an option is given. -/
def isGiven (words : List Word) (switch : Switch) : Bool :=
  !(values words switch).isEmpty

/-- The value of an option that is given once. -/
def value? (words : List Word) (switch : Switch) : Option String :=
  (values words switch).head?

/-- Only directories of classes can be given more than once. -/
def checkRepeats (words : List Word) : Except UsageError Unit :=
  match Switch.ofInstrument.find? fun switch =>
      switch ≠ .classPath && decide (1 < (values words switch).length) with
  | some switch => .error (.repeated switch)
  | none => .ok ()

/-- The strategy of a name. -/
def strategyOf (name : String) : Except UsageError Strategy :=
  match strategies.find? fun strategy => strategy.name = name with
  | some strategy => .ok strategy
  | none => .error (.unknownStrategy name)

/-- What to time and how, as the options say. -/
def configOf (words : List Word) : Except UsageError TimerConfig := do
  let blank : TimerConfig := {}
  let strategy ←
    match value? words .strategy with
    | some name => strategyOf name
    | none => pure blank.strategy
  return {
    methodName := (value? words .method).getD blank.methodName
    methodDescriptor := (value? words .descriptor).getD blank.methodDescriptor
    fieldName := (value? words .field).getD blank.fieldName
    strategy
    newName := value? words .rename
    lenient := isGiven words .lenient
  }

/-- How messages show the input. -/
def inputUsage : String := "<FILE>"

/-- The one input of a job. -/
def oneInput (words : List Word) : Except UsageError String :=
  match inputs words with
  | [] => .error (.missing [inputUsage])
  | [path] => .ok path
  | _ :: extra :: _ => .error (.unexpected extra)

/-- An instrumenting job. -/
def instrumentJob (words : List Word) : Except UsageError Job := do
  let config ← configOf words
  match value? words .output with
  | none =>
      .error (.missing (Switch.output.usage :: if (inputs words).isEmpty then [inputUsage] else []))
  | some output =>
      let input ← oneInput words
      return .instrument {
        input
        output
        config
        directories := values words .classPath
        traced := isGiven words .trace
      }

/-- The job of a name, the options that it takes, and how it is read from them. -/
def jobOf? (name : String) : Option (List Switch × (List Word → Except UsageError Job)) :=
  match name with
  | "instrument" => some (Switch.ofInstrument, instrumentJob)
  | "trace" => some (Switch.everywhere, fun words => (oneInput words).map .trace)
  | "verify" => some (Switch.everywhere, fun words => (oneInput words).map .verify)
  | _ => none

/-- Reads a command line.  Options of every job may stand in front of the job as well. -/
def parse (arguments : List String) : Except UsageError Command := do
  let front ← scan Switch.everywhere (arguments.takeWhile isOption)
  if isGiven front .help then
    return .help
  match arguments.dropWhile isOption with
  | [] => throw .missingJob
  | name :: rest =>
      if name = "help" then
        return .help
      match jobOf? name with
      | none => throw (.unknownJob name)
      | some (known, read) =>
          let words ← scan known rest
          if isGiven words .help then
            return .help
          checkRepeats words
          let job ← read words
          return .run job (isGiven front .verbose || isGiven words .verbose)

/-- What the program tells about itself. -/
def helpText : String :=
  "Time a method of a compiled class by weaving code into it\n\n"
    ++ "Usage: jvmclass [-v] instrument [OPTIONS] --output <FILE> <FILE>\n"
    ++ "       jvmclass [-v] trace <FILE>\n"
    ++ "       jvmclass [-v] verify <FILE>\n\n"
    ++ "  instrument  Instrument one method of a .class file\n"
    ++ "  trace       Print a readable trace of a .class file\n"
    ++ "  verify      Check a .class file and list every defect found\n\n"
    ++ "Options of instrument:\n"
    ++ "  -o, --output <FILE>            Output .class file\n"
    ++ "      --method <METHOD>          Name of the method to time [default: m]\n"
    ++ "      --descriptor <DESCRIPTOR>  Descriptor of the method to time [default: ()V]\n"
    ++ "      --field <FIELD>            Static long field the elapsed time accumulates into\n"
    ++ "                                 [default: timer]\n"
    ++ "      --strategy <STRATEGY>      field-counter (default), local-scoped\n"
    ++ "                                 or structured-advice\n"
    ++ "      --rename <NAME>            Internal name for the output class, e.g. st/CTrans\n"
    ++ "      --class-path <DIR>         Directory of compiled classes to look up superclasses in\n"
    ++ "      --lenient                  Write the class without recomputed frames\n"
    ++ "                                 instead of failing\n"
    ++ "      --trace                    Print a trace of the output class\n\n"
    ++ "Options:\n"
    ++ "  -v, --verbose                  Log what was done\n"
    ++ "  -h, --help                     Print this\n"

end JvmClass.CommandLine
