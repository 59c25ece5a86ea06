import Replay.Config.Layers

/-!
What the arguments of the program ask for. An option has a long name, and most have a short one; a
value follows as the next argument, or behind an equals sign, or directly behind a short name.
-/

namespace Replay.CommandLine

inductive Flag where
  | file
  | host
  | port
  | config
  deriving DecidableEq

structure Given where
  file : Option String
  host : Option String
  port : Option UInt16
  config : Option String
  deriving DecidableEq

structure Options where
  file : String
  flags : Config.Flags
  config : Option String
  deriving DecidableEq

inductive Invocation where
  | serve (o : Options)
  | help
  | version
  deriving DecidableEq

inductive UsageError where
  | unexpected (argument : String)
  | noValue (f : Flag)
  | badValue (f : Flag) (value : String)
  | repeated (f : Flag)
  | unwantedValue (argument : String)
  | noFile
  deriving DecidableEq

def Flag.name : Flag → String
  | .file => "--file"
  | .host => "--host"
  | .port => "--port"
  | .config => "--config"

def UsageError.message : UsageError → String
  | .unexpected argument => "unexpected argument '" ++ argument ++ "' found"
  | .noValue f => "a value is required for '" ++ f.name ++ "' but none was supplied"
  | .badValue f value => "invalid value '" ++ value ++ "' for '" ++ f.name ++ "'"
  | .repeated f => "the argument '" ++ f.name ++ "' cannot be used multiple times"
  | .unwantedValue argument => "unexpected value in '" ++ argument ++ "'"
  | .noFile => "the required argument '--file' was not provided"

/-- A port as a value. A minus may stand before zero. -/
def port? (value : String) : Option UInt16 :=
  match value.toList with
  | '-' :: cs => (Text.number? 10 cs).bind fun n => if n = 0 then some 0 else none
  | _ => (Config.readPort value).toOption

/-- Gives an option its value. Each can be given once, and a path is not empty. -/
def Given.set (f : Flag) (value : String) (g : Given) : Except UsageError Given :=
  let path (old : Option String) (new : Given) : Except UsageError Given :=
    if value = "" then .error (.badValue f value)
    else if old.isSome then .error (.repeated f)
    else .ok new
  match f with
  | .file => path g.file { g with file := some value }
  | .config => path g.config { g with config := some value }
  | .host => if g.host.isSome then .error (.repeated f) else .ok { g with host := some value }
  | .port =>
    match port? value with
    | none => .error (.badValue f value)
    | some n => if g.port.isSome then .error (.repeated f) else .ok { g with port := some n }

def Given.finish (g : Given) : Except UsageError Invocation :=
  match g.file with
  | none => .error .noFile
  | some file => .ok (.serve ⟨file, ⟨g.host, g.port⟩, g.config⟩)

inductive Word where
  | option (f : Flag) (value : Option String)
  | answer (i : Invocation)
  | separator
  | wrong (e : UsageError)
  deriving DecidableEq

def longWord (argument : String) (cs : List Char) : Word :=
  let name := String.ofList (cs.takeWhile (· != '='))
  let value := (cs.dropWhile (· != '=')).tail?.map String.ofList
  let answer (i : Invocation) : Word :=
    if value.isSome then .wrong (.unwantedValue argument) else .answer i
  match name with
  | "file" => .option .file value
  | "host" => .option .host value
  | "port" => .option .port value
  | "config" => .option .config value
  | "help" => answer .help
  | "version" => answer .version
  | _ => .wrong (.unexpected argument)

def shortWord (argument : String) (c : Char) (cs : List Char) : Word :=
  let value := if cs = [] then none
    else some (String.ofList (if cs.head? = some '=' then cs.drop 1 else cs))
  match c with
  | 'f' => .option .file value
  | 'p' => .option .port value
  | 'c' => .option .config value
  | 'h' => .answer .help
  | 'V' => .answer .version
  | _ => .wrong (.unexpected argument)

def word (argument : String) : Word :=
  match argument.toList with
  | ['-', '-'] => .separator
  | '-' :: '-' :: cs => longWord argument cs
  | '-' :: c :: cs => shortWord argument c cs
  | _ => .wrong (.unexpected argument)

def isValue (argument : String) : Bool :=
  match argument.toList with
  | '-' :: _ :: _ => false
  | _ => true

/-- Reads arguments from left to right; the first fault, or the first question, decides. -/
def parseGo (given : Given) : List String → Except UsageError Invocation
  | [] => given.finish
  | argument :: rest =>
    match word argument, rest with
    | .answer i, _ => .ok i
    | .wrong e, _ => .error e
    | .separator, [] => given.finish
    | .separator, next :: _ => .error (.unexpected next)
    | .option f (some value), rest => do parseGo (← given.set f value) rest
    | .option f none, [] => .error (.noValue f)
    | .option f none, value :: rest =>
      if isValue value then do parseGo (← given.set f value) rest else .error (.noValue f)

def parse (arguments : List String) : Except UsageError Invocation :=
  parseGo ⟨none, none, none, none⟩ arguments

def versionText : String := "mcap-playback 0.1.0\n"

end Replay.CommandLine
