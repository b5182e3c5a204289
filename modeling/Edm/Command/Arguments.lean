import Edm.Text

/-!
# Arguments of the command

The options of the command and how they are read from a list of arguments.  A long option takes its value
after an equals sign or from the next argument; short options can be written together, and the last of them
takes its value from the rest of the argument or from the next one.  After `--` nothing is an option.
-/

namespace Edm

namespace Command

/-- The options. -/
inductive Flag
  | outputDir
  | exclude
  | noDefaultExcludes
  | entityContainer
  | policy
  | diagnostics
  | showAnnotations
  | verbose
  | help
deriving DecidableEq, Repr

namespace Flag

/-- The options by their long names. -/
def long : List (Text × Flag) :=
  [("--output-dir", outputDir), ("--exclude", exclude), ("--no-default-excludes", noDefaultExcludes),
   ("--entity-container", entityContainer), ("--policy", policy), ("--diagnostics", diagnostics),
   ("--show-annotations", showAnnotations), ("--verbose", verbose), ("--help", help)]

/-- The options that have a short name. -/
def short : List (CodePoint × Flag) := [('o', outputDir), ('x', exclude), ('v', verbose)]

/-- The option with a long name. -/
def ofLong? (name : Text) : Option Flag := (long.find? fun f => f.1 == name).map Prod.snd

/-- The option with a short name. -/
def ofShort? (letter : CodePoint) : Option Flag := (short.find? fun f => f.1 == letter).map Prod.snd

/-- Whether an option takes a value. -/
def takesValue : Flag → Bool
  | outputDir | exclude | policy | diagnostics => true
  | _ => false

end Flag

/-- The options that were given, in order, those without a value with the empty text, and the other
arguments. -/
structure Given where
  options : List (Flag × Text) := []
  others : List Text := []
deriving Repr

namespace Given

/-- One more option. -/
def option (g : Given) (f : Flag) (value : Text) : Given := { g with options := g.options ++ [(f, value)] }

/-- One more argument that is no option. -/
def other (g : Given) (argument : Text) : Given := { g with others := g.others ++ [argument] }

/-- Whether an option was given. -/
def has (g : Given) (f : Flag) : Bool := g.options.any fun o => o.1 == f

/-- The values of an option, in order. -/
def all (g : Given) (f : Flag) : List Text := (g.options.filter fun o => o.1 == f).map Prod.snd

/-- The last value of an option. -/
def last? (g : Given) (f : Flag) : Option Text := (g.all f).getLast?

end Given

/-- What one argument comes to: options that are complete, one that still needs its value, or nothing that
is known. -/
inductive Read
  | complete (g : Given)
  | needs (f : Flag) (g : Given)
  | unknown

/-- Reads short options that are written together. -/
def readShort (g : Given) : Text → Read
  | [] => .complete g
  | letter :: rest => match Flag.ofShort? letter with
    | none => .unknown
    | some f =>
      if f.takesValue then (if rest.isEmpty then .needs f g else .complete (g.option f rest))
      else readShort (g.option f []) rest

/-- Reads an argument that starts with a dash. -/
def readOption (g : Given) (argument : Text) : Read :=
  let name := argument.takeWhile (· != ('=' : CodePoint))
  let value := argument.drop (name.length + 1)
  let hasValue := argument.contains ('=' : CodePoint)
  match Flag.ofLong? name with
  | some f =>
    if f.takesValue then (if hasValue then .complete (g.option f value) else .needs f g)
    else if hasValue then .unknown
    else .complete (g.option f [])
  | none =>
    if Text.ofString "--" <+: argument then .unknown else readShort g (argument.drop 1)

/-- Whether an argument is an option. -/
def isOption : Text → Bool
  | first :: _ :: _ => first == ('-' : CodePoint)
  | _ => false

/-- Reads arguments; nothing is returned for an option that is not known or lacks its value. -/
def readArguments (g : Given) : List Text → Option Given
  | [] => some g
  | argument :: rest =>
    if argument = "--" then some (rest.foldl Given.other g)
    else if isOption argument then
      match readOption g argument, rest with
      | .complete g, rest => readArguments g rest
      | .needs f g, value :: rest => readArguments (g.option f value) rest
      | .needs _ _, [] => none
      | .unknown, _ => none
    else readArguments (g.other argument) rest

/-! ### Choices -/

/-- The letters that a code point stands for where case does not count, as far as words of English letters
can match it. -/
def foldCase : CodePoint → Text
  | .scalar c =>
    if c = '\u017F' then "s"
    else if c = '\u00DF' ∨ c = '\u1E9E' then "ss"
    else if c = '\uFB05' ∨ c = '\uFB06' then "st"
    else [.scalar c.toLower]
  | p => [p]

/-- Whether a text is a word, upper and lower case aside. -/
def isWord (word : Text) (t : Text) : Bool := t.flatMap foldCase == word

/-- Which of two words a text is; no text means the first. -/
def choice (first second : Text) : Option Text → Option Bool
  | none => some false
  | some t => if isWord first t then some false else if isWord second t then some true else none

/-! ### The request -/

/-- Why arguments are refused: they are not understood, or a path among them cannot be one. -/
inductive Refusal
  | usage
  | unusablePath
deriving DecidableEq, Repr

namespace Given

/-- What a policy means: whether it is strict. -/
def strict? (g : Given) : Option Bool := choice "permissive" "strict" (g.last? .policy)

/-- What a form of diagnostics means: whether it is JSON. -/
def jsonDiagnostics? (g : Given) : Option Bool := choice "text" "json" (g.last? .diagnostics)

/-- What is wrong with the value of an option, if anything is. -/
def refusal? (g : Given) : Flag → Option Refusal
  | .policy => if g.strict?.isNone then some .usage else none
  | .diagnostics => if g.jsonDiagnostics?.isNone then some .usage else none
  | .outputDir =>
    if (g.last? .outputDir).any fun path => path.contains ('\x00' : CodePoint) then some .unusablePath
    else none
  | _ => none

end Given

/-- What the command is asked to do. -/
structure Request where
  input : Text
  /-- Whether more arguments follow the input than there should be. -/
  hasSurplus : Bool := false
  outputDir : Option Text := none
  excluded : List Text := []
  defaultExcludes : Bool := true
  entityContainer : Bool := false
  strict : Bool := false
  jsonDiagnostics : Bool := false
  showAnnotations : Bool := false
deriving Repr

/-- How arguments are understood. -/
inductive Understood
  | request (r : Request)
  | help
  | refused (r : Refusal)

/-- The request that options and other arguments make, if one of the arguments is an input. -/
def Given.request? (g : Given) : Option Request :=
  match g.others with
  | [] => none
  | input :: surplus =>
    some
      { input
        hasSurplus := !surplus.isEmpty
        outputDir := g.last? .outputDir
        excluded := g.all .exclude
        defaultExcludes := !g.has .noDefaultExcludes
        entityContainer := g.has .entityContainer
        strict := g.strict?.getD false
        jsonDiagnostics := g.jsonDiagnostics?.getD false
        showAnnotations := g.has .showAnnotations }

/-- Understands arguments.  Of several faults that of the option which is used first counts; whether there
is an input is looked at last. -/
def understand (arguments : List Text) : Understood :=
  match readArguments {} arguments with
  | none => .refused .usage
  | some g =>
    if g.has .help then .help
    else match g.options.findSome? fun o => g.refusal? o.1 with
      | some refusal => .refused refusal
      | none => match g.request? with
        | some r => .request r
        | none => .refused .usage

end Command

end Edm
