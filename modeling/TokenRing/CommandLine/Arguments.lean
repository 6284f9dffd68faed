import TokenRing.Partitioner

/-!
# Arguments

What the arguments of the program ask for. Options stand before the command, and the operands of
the command behind it. An option's value follows in the same argument, with or without an equals
sign, or in the next one. A value in an argument of its own is not looked at before the next option
is met or the operands have been read, so faults among these come first.
-/

namespace TokenRing

inductive Command where
  /-- Show every range of the ring with its owner. -/
  | ring
  /-- Show the strategy of every keyspace. -/
  | keyspaces
  /-- Show the replicas of every token in a keyspace, as a table or as JSON. -/
  | replicas (keyspace : String) (json : Bool)
  /-- Show the token of a key and its replicas in a keyspace. -/
  | route (keyspace key : String)
  deriving DecidableEq, Repr

structure Invocation where
  /-- The path of the snapshot. -/
  topology : String
  partitioner : Partitioner
  verbose : Bool
  command : Command
  deriving DecidableEq, Repr

inductive Usage where
  /-- Nothing was asked for. -/
  | nothingAsked
  | help
  | version
  | missingCommand
  | unknownCommand
  | missingArgument
  | unknownArgument
  | invalidValue
  /-- A flag came with a value. -/
  | unneededValue
  /-- An option came twice. -/
  | repeated
  deriving DecidableEq, Repr

def Partitioner.ofArgument? : String → Option Partitioner
  | "murmur3" => some .murmur3
  | "random" => some .random
  | "byte-ordered" => some .byteOrdered
  | _ => none

namespace CommandLine

inductive Form where
  /-- Two hyphens, which end the options. -/
  | ending
  /-- Two hyphens and a name, with the text behind an equals sign. -/
  | long (name : List Char) (value : Option (List Char))
  /-- A hyphen and letters, of which the last may have a value behind it. -/
  | cluster (letters : List Char)
  /-- No option. -/
  | plain
  deriving DecidableEq, Repr

/-- The form of an argument. A hyphen alone is no option. -/
def Form.of (argument : String) : Form :=
  match argument.toList with
  | ['-', '-'] => .ending
  | '-' :: '-' :: text => .long (text.takeWhile (· ≠ '=')) (text.dropWhile (· ≠ '=')).tail?
  | '-' :: letter :: letters => .cluster (letter :: letters)
  | _ => .plain

/-! ### Operands -/

inductive CommandName where
  | ring
  | keyspaces
  | replicas
  | route
  deriving DecidableEq, Repr

namespace CommandName

def ofArgument? : String → Option CommandName
  | "ring" => some ring
  | "keyspaces" => some keyspaces
  | "replicas" => some replicas
  | "route" => some route
  | _ => none

def arity : CommandName → Nat
  | ring | keyspaces => 0
  | replicas => 1
  | route => 2

def hasJson (name : CommandName) : Bool :=
  name = replicas

end CommandName

structure Operands where
  texts : List String := []
  json : Bool := false
  /-- Whether the options have ended. -/
  ended : Bool := false
  deriving DecidableEq, Repr

namespace Operands

def push (o : Operands) (name : CommandName) (text : String) : Except Usage Operands :=
  if o.texts.length < name.arity then .ok { o with texts := o.texts ++ [text] }
  else .error .unknownArgument

def readLong (o : Operands) (name : CommandName) (option : List Char)
    (value : Option (List Char)) : Except Usage Operands :=
  if option = "help".toList then
    .error (if value.isSome then .unneededValue else .help)
  else if option = "json".toList ∧ name.hasJson then
    if value.isSome then .error .unneededValue
    else if o.json then .error .repeated
    else .ok { o with json := true }
  else .error .unknownArgument

def read (o : Operands) (name : CommandName) (argument : String) : Except Usage Operands :=
  if o.ended then o.push name argument
  else
    match Form.of argument with
    | .ending => .ok { o with ended := true }
    | .long option value => o.readLong name option value
    | .cluster letters =>
      .error (if letters.head? = some 'h' then .help else .unknownArgument)
    | .plain => o.push name argument

end Operands

def CommandName.read (name : CommandName) (arguments : List String) : Except Usage Command := do
  let o ← arguments.foldlM (fun o argument => Operands.read o name argument) {}
  match name, o.texts with
  | ring, _ => return .ring
  | keyspaces, _ => return .keyspaces
  | replicas, [keyspace] => return .replicas keyspace o.json
  | route, [keyspace, key] => return .route keyspace key
  | _, _ => .error .missingArgument

/-! ### Options -/

/-- The options that have a value. -/
inductive OptionName where
  | topology
  | partitioner
  deriving DecidableEq, Repr

structure Options where
  topology : Option String := none
  partitioner : Option Partitioner := none
  verbose : Bool := false
  /-- An option without a value in its own argument, and the value that followed. -/
  pending : Option (OptionName × Option String) := none
  deriving DecidableEq, Repr

namespace Options

def set (o : Options) (name : OptionName) (value : String) : Except Usage Options :=
  match name with
  | .topology =>
    if o.topology.isSome then .error .repeated
    else if value.isEmpty then .error .invalidValue
    else .ok { o with topology := some value }
  | .partitioner =>
    if o.partitioner.isSome then .error .repeated
    else
      match Partitioner.ofArgument? value with
      | none => .error .invalidValue
      | some p => .ok { o with partitioner := some p }

def settle (o : Options) : Except Usage Options :=
  match o.pending with
  | none => .ok o
  | some (_, none) => .error .invalidValue
  | some (name, some value) => { o with pending := none }.set name value

def attach (o : Options) (name : OptionName) (value : List Char) : Except Usage Options := do
  (← o.settle).set name (String.ofList value)

/-- Leaves an option to be set by the next argument. -/
def await (o : Options) (name : OptionName) : Except Usage Options := do
  return { ← o.settle with pending := some (name, none) }

def setVerbose (o : Options) : Except Usage Options := do
  let o ← o.settle
  if o.verbose then .error .repeated else return { o with verbose := true }

/-- Stops, after the pending option was found in order. -/
def stop (o : Options) (usage : Usage) : Except Usage Options := do
  let _ ← o.settle
  .error usage

def isBlank (o : Options) : Bool :=
  o.topology.isNone && o.partitioner.isNone && !o.verbose

/-- Sets an option to the letters behind it, of which an equals sign is not part. -/
def readShort (o : Options) (name : OptionName) : List Char → Except Usage Options
  | [] => o.await name
  | '=' :: value => o.attach name value
  | value => o.attach name value

def readCluster (o : Options) : List Char → Except Usage Options
  | [] => .ok o
  | 't' :: rest => o.readShort .topology rest
  | 'p' :: rest => o.readShort .partitioner rest
  | 'v' :: rest => do (← o.setVerbose).readCluster rest
  | 'h' :: _ => o.stop .help
  | 'V' :: _ => o.stop .version
  | _ :: _ => .error .unknownArgument

def readNamed (o : Options) (name : OptionName) : Option (List Char) → Except Usage Options
  | none => o.await name
  | some value => o.attach name value

def readFlag (value : Option (List Char)) (flag : Except Usage Options) : Except Usage Options :=
  if value.isSome then .error .unneededValue else flag

def readLong (o : Options) (name : List Char) (value : Option (List Char)) :
    Except Usage Options :=
  if name = "topology".toList then o.readNamed .topology value
  else if name = "partitioner".toList then o.readNamed .partitioner value
  else if name = "verbose".toList then readFlag value o.setVerbose
  else if name = "help".toList then readFlag value (o.stop .help)
  else if name = "version".toList then readFlag value (o.stop .version)
  else .error .unknownArgument

end Options

/-- Whether an argument is the name of a command, that for help included. -/
def isCommand (argument : String) : Bool :=
  argument = "help" || (CommandName.ofArgument? argument).isSome

/-- What to do when help is asked for by command. Help can be had on each command. -/
def helpOn : List String → Usage
  | [] => .help
  | [topic] => if isCommand topic then .help else .unknownCommand
  | _ => .unknownCommand

def readCommand (o : Options) (name : CommandName) (rest : List String) :
    Except Usage Invocation := do
  let command ← name.read rest
  let o ← o.settle
  match o.topology with
  | none => .error .missingArgument
  | some topology =>
    return ⟨topology, o.partitioner.getD .murmur3, o.verbose, command⟩

def readArguments (o : Options) : List String → Except Usage Invocation
  | [] => do
    let o ← o.settle
    .error (if o.isBlank then .nothingAsked else .missingCommand)
  | argument :: rest =>
    match Form.of argument with
    | .ending =>
      match rest with
      | [] => do
        let o ← o.settle
        .error (if o.isBlank then .nothingAsked else .missingCommand)
      | next :: _ => .error (if isCommand next then .unknownArgument else .unknownCommand)
    | .long name value => do readArguments (← o.readLong name value) rest
    | .cluster letters => do readArguments (← o.readCluster letters) rest
    | .plain =>
      match o.pending with
      | some (name, none) => readArguments { o with pending := some (name, some argument) } rest
      | _ =>
        match CommandName.ofArgument? argument with
        | some name => readCommand o name rest
        | none => .error (if argument = "help" then helpOn rest else .unknownCommand)

end CommandLine

def Invocation.ofArguments (arguments : List String) : Except Usage Invocation :=
  CommandLine.readArguments {} arguments

end TokenRing
