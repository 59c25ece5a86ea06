import Replay.Bytes
import Replay.Config.Document
import Replay.Config.Environment
import Replay.Config.Substitution
import Replay.Config.Validation
import Replay.Text.Digits
import Replay.Text.Utf8

/-!
The layers of a configuration: a file, or the defaults without one; over it the environment, and
over that the flags of the command line. What each layer gives has to be valid, so that no layer
mends the one below it.
-/

namespace Replay.Config

inductive FileError where
  /-- There is no such file, or it holds no text. -/
  | unreadable (path : String)
  | malformed
  | invalid (fault : Invalid)
  deriving DecidableEq

inductive Error where
  | file (e : FileError)
  | portVariable (value : String) (fault : Text.NumberFault)
  | invalid (fault : Invalid)
  deriving DecidableEq

def FileError.chain : FileError → List String
  | .unreadable path => ["Failed to read config file " ++ path]
  | .malformed => ["Failed to parse YAML configuration"]
  | .invalid fault => [fault.message]

def Error.chain : Error → List String
  | .file e => "Failed to load configuration" :: e.chain
  | .portVariable value fault => ["Invalid PLAYBACK_PORT '" ++ value ++ "'", fault.message]
  | .invalid fault => [fault.message]

/-- The configuration if it is valid. -/
def checked {ε : Type} (wrap : Invalid → ε) (c : Config) : Except ε Config :=
  match c.validate with
  | .ok () => .ok c
  | .error fault => .error (wrap fault)

/-- The configuration of a text, with the variables put in. -/
def ofText (env : Environment) (text : List Char) : Except FileError Config :=
  match ofYaml? (substitute env.get? text) with
  | none => .error .malformed
  | some c => checked .invalid c

def ofFile (env : Environment) (path : String) (content : Option Bytes) : Except FileError Config :=
  match content.bind Utf8.decode? with
  | none => .error (.unreadable path)
  | some text => ofText env text

def withHost (host : Option String) (c : Config) : Config :=
  { c with server := { c.server with host := host.getD c.server.host } }

def withPort (port : Option UInt16) (c : Config) : Config :=
  { c with server := { c.server with port := port.getD c.server.port } }

def readPort (text : String) : Except Text.NumberFault UInt16 :=
  (Text.numberBelow UInt16.size text.toList).map UInt16.ofNat

def environmentPort (env : Environment) : Except Error (Option UInt16) :=
  match env.get? "PLAYBACK_PORT" with
  | none => .ok none
  | some text => (readPort text).map some |>.mapError (.portVariable text)

/-- The configuration of a file, or the defaults without one, under the environment. A file is its
path and its content, if it can be read. -/
def load (env : Environment) (file : Option (String × Option Bytes)) : Except Error Config := do
  let base ← match file with
    | some (path, content) => (ofFile env path content).mapError .file
    | none => .ok default
  let port ← environmentPort env
  checked .invalid ((base.withHost (env.get? "PLAYBACK_HOST")).withPort port)

/-- What the command line says about the server's address. -/
structure Flags where
  host : Option String
  port : Option UInt16
  deriving DecidableEq

/-- The configuration that the program goes on with. -/
def settle (env : Environment) (file : Option (String × Option Bytes)) (flags : Flags) :
    Except Error Config := do
  let c ← load env file
  checked .invalid ((c.withHost flags.host).withPort flags.port)

end Replay.Config
