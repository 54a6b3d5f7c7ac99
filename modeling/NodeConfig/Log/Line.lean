import NodeConfig.Json.Value
import NodeConfig.Log.Event
import NodeConfig.Options

namespace NodeConfig

namespace Log

def styled (colours : Bool) (code s : String) : String :=
  if colours then "\x1b[" ++ code ++ "m" ++ s ++ "\x1b[0m" else s

def dim : String := "2"
def italic : String := "3"

def colour : Level → String
  | .trace => "35"
  | .debug => "34"
  | .info => "32"
  | .warn => "33"
  | .error => "31"

def paddedName (l : Level) : String :=
  String.ofList (List.replicate (5 - l.name.length) ' ') ++ l.name

def textValue : FieldValue → String
  | .shown s => s
  | .quoted s => NodeConfig.quoted s
  | .int n => toString n
  | .bool b => if b then "true" else "false"

def textField (colours : Bool) (f : String × FieldValue) : String :=
  " " ++ styled colours italic f.1 ++ styled colours dim "=" ++ textValue f.2

def textLine (colours : Bool) (time : String) (e : Event) : String :=
  styled colours dim time ++ " " ++ styled colours (colour e.level) (paddedName e.level) ++ " " ++
    styled colours dim e.target ++ styled colours dim ":" ++ " " ++ e.message ++
    String.join (e.fields.map (textField colours)) ++ "\n"

def jsonValue : FieldValue → Json
  | .shown s => .string s
  | .quoted s => .string s
  | .int n => .number (.int n)
  | .bool b => .bool b

def jsonEvent (time : String) (e : Event) : Json :=
  .object [("timestamp", .string time), ("level", .string e.level.name),
    ("fields", .object (("message", .string e.message) ::
      e.fields.map fun f => (f.1, jsonValue f.2))),
    ("target", .string e.target)]

def jsonLine (time : String) (e : Event) : String := (jsonEvent time e).compact ++ "\n"

/-- A line of a log. Text is in colours unless it goes to a file. -/
def line (o : LogOptions) (time : String) (e : Event) : String :=
  match o.format with
  | .text => textLine (o.target = .stdout) time e
  | .json => jsonLine time e

end Log

end NodeConfig
