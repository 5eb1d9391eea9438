import ChainIndex.Text

/-!
# Command line arguments

* `Command`: what the program is asked to do; `Invocation`: a command together with the configuration files.
* `Verb`: a command as it is written: its name and its flags. `Verb.all` lists them.
* `Invocation.parse` reads arguments. It stops at the first request for help and at the first mistake.
-/

namespace ChainIndex

/-- What the program is asked to do. -/
inductive Command where
  /-- Replay the blocks in the files of a pattern. -/
  | replay (blocks : String)
  /-- Show the latest point and some of the last blocks. -/
  | status (count : Nat)
  /-- Show the outputs of an address. -/
  | utxos (address : String) (onlyUnused : Bool)
  /-- Show transactions that are not processed. -/
  | pending (max : Nat)
  /-- Remove all outputs. -/
  | reseed
deriving DecidableEq, Repr

/-- A command together with the configuration files. -/
structure Invocation where
  configFiles : List String
  command : Command
deriving DecidableEq, Repr

/-- Why arguments are not a command. -/
inductive Command.Stop where
  /-- A text was asked for. -/
  | help (text : String)
  | mistake (text : String)
deriving DecidableEq, Repr

/-- A flag of the command line. -/
structure Flag where
  name : String
  /-- What its value is called; a flag without one is a switch. -/
  valueName : Option String := none
  about : String := ""
  default? : Option String := none
  isRequired : Bool := false
  repeats : Bool := false
  accepts : String → Bool := fun _ => true

/-- The flags that were given, with their values, in order. -/
abbrev Given := List (String × String)

namespace Given

/-- The values of a flag. -/
def values (given : Given) (name : String) : List String :=
  (given.filter (·.1 = name)).map (·.2)

/-- Whether a flag was given. -/
def has (given : Given) (name : String) : Bool := given.any (·.1 = name)

/-- The value of a flag. -/
def text (given : Given) (name : String) : String := (given.lookup name).getD ""

/-- The value of a flag as a number, or a number for one that was not given. -/
def number (given : Given) (name : String) (default : Nat) : Nat :=
  ((given.lookup name).bind Text.natural?).getD default

end Given

namespace Flag

/-- Whether a text is a number of 64 bits. -/
def isCount (text : String) : Bool := (Text.natural? text).any (· < UInt64.size)

/-- A flag with its value as it is written. -/
def form (flag : Flag) : String :=
  "--" ++ flag.name ++ (flag.valueName.map fun name => " <" ++ name ++ ">").getD ""

/-- A word cut at the first equals sign. -/
def split (word : List Char) : String × Option String :=
  let name := word.takeWhile (· ≠ '=')
  match word.drop name.length with
  | [] => (String.ofList name, none)
  | _ :: value => (String.ofList name, some (String.ofList value))

/-- Adds a flag to those given. -/
def give (flag : Flag) (value : String) (given : Given) : Except Command.Stop Given :=
  if given.has flag.name && !flag.repeats then
    .error (.mistake ("the argument '" ++ flag.form ++ "' cannot be used multiple times"))
  else if flag.accepts value then .ok (given ++ [(flag.name, value)])
  else .error (.mistake ("invalid value '" ++ value ++ "' for '" ++ flag.form ++ "'"))

/-- Whether a word can only be a flag. -/
def looksLikeFlag (word : String) : Bool := word.startsWith "-" && word ≠ "-"

/-- Reads flags up to the first word that is not one. `help` is what is shown on request. -/
def read (flags : List Flag) (help : String) :
    List String → Given → Except Command.Stop (Given × List String)
  | [], given => .ok (given, [])
  | word :: rest, given =>
    if word = "--" ∨ !looksLikeFlag word then .ok (given, word :: rest)
    else if word = "--help" ∨ word.startsWith "-h" then .error (.help help)
    else
      let unknown : Command.Stop := .mistake ("unexpected argument '" ++ word ++ "' found")
      match word.toList with
      | '-' :: '-' :: word =>
        let (name, value?) := split word
        match flags.find? (·.name = name), value?, rest with
        | none, _, _ => .error unknown
        | some flag, some value, rest =>
          if flag.valueName.isNone then .error unknown
          else do read flags help rest (← flag.give value given)
        | some flag, none, rest =>
          if flag.valueName.isNone then do read flags help rest (← flag.give "" given)
          else
            match rest with
            | value :: rest =>
              if looksLikeFlag value then .error (missing flag)
              else do read flags help rest (← flag.give value given)
            | [] => .error (missing flag)
      | _ => .error unknown
where
  missing (flag : Flag) : Command.Stop :=
    .mistake ("a value is required for '" ++ flag.form ++ "' but none was supplied")

/-- Refuses flags of which a required one is missing. -/
def require (flags : List Flag) (given : Given) : Except Command.Stop Unit :=
  match flags.find? fun flag => flag.isRequired && !given.has flag.name with
  | some flag => .error (.mistake ("the required argument '" ++ flag.form ++ "' was not provided"))
  | none => .ok ()

/-- A table of names and what they are about, in columns; a row that ends early is filled up with blanks. -/
def table (rows : List (String × String)) : String :=
  let width := rows.foldl (fun w row => max w row.1.length) 0
  String.join <| rows.map fun (name, about) =>
    "  " ++ name ++ String.ofList (List.replicate (width - name.length + 2) ' ') ++ about ++ "\n"

/-- What is said about the flags. -/
def tableOf (flags : List Flag) : String :=
  let row (flag : Flag) : String × String :=
    let default := (flag.default?.map fun text => "[default: " ++ text ++ "]").getD ""
    ("    " ++ flag.form, flag.about ++ (if flag.about = "" ∨ default = "" then "" else " ") ++ default)
  "Options:\n" ++ table (flags.map row ++ [("-h, --help", "Print help")])

end Flag

/-- A command as it is written. -/
structure Verb where
  name : String
  about : String
  flags : List Flag
  command : Given → Command

namespace Verb

/-- The name of the program. -/
def program : String := "watchtower"

/-- Every command. -/
def all : List Verb := [
  { name := "replay", about := "Feed block files through the indexer, in file name order"
    flags := [{ name := "blocks", valueName := "BLOCKS", isRequired := true
                about := "Glob matching raw CBOR block files" }]
    command := fun given => .replay (given.text "blocks") },
  { name := "status", about := "Show the latest confirmed point and the most recent blocks"
    flags := [{ name := "count", valueName := "COUNT", default? := "10", accepts := Flag.isCount }]
    command := fun given => .status (given.number "count" 10) },
  { name := "utxos", about := "List the outputs paying to an address"
    flags := [{ name := "address", valueName := "ADDRESS", isRequired := true },
      { name := "only-unused" }]
    command := fun given => .utxos (given.text "address") (given.has "only-unused") },
  { name := "pending", about := "Confirmed transactions not yet marked processed"
    flags := [{ name := "max", valueName := "MAX", default? := "20", accepts := Flag.isCount }]
    command := fun given => .pending (given.number "max" 20) },
  { name := "reseed", about := "Drop every stored output", flags := []
    command := fun _ => .reseed }]

/-- How a command is written. -/
def usage (v : Verb) : String :=
  let options := if v.flags.all (·.isRequired) then "" else " [OPTIONS]"
  let required := (v.flags.filter (·.isRequired)).map fun flag => " " ++ flag.form
  "Usage: " ++ program ++ " " ++ v.name ++ options ++ String.join required

/-- What is said about a command. -/
def help (v : Verb) : String :=
  v.about ++ "\n\n" ++ v.usage ++ "\n\n" ++ Flag.tableOf v.flags

/-- Reads the arguments behind the name of a command. -/
def read (v : Verb) (args : List String) : Except Command.Stop Command := do
  let (given, rest) ← Flag.read v.flags v.help args []
  match rest with
  | [] | ["--"] => pure ()
  | "--" :: word :: _ | word :: _ => throw (.mistake ("unexpected argument '" ++ word ++ "' found"))
  Flag.require v.flags given
  return v.command given

end Verb

namespace Invocation

/-- The flag that names configuration files. -/
def configFlag : Flag where
  name := "config"
  valueName := "PATH"
  about := "Configuration files, later ones override earlier ones"
  default? := "indexer.toml"
  repeats := true

/-- What the word for help is about. -/
def aboutHelp : String := "Print this message or the help of the given subcommand(s)"

/-- What is said about the program. -/
def help : String :=
  "Embedded Cardano chain indexer\n\nUsage: " ++ Verb.program ++
    " [OPTIONS] <COMMAND>\n\nCommands:\n" ++
    Flag.table (Verb.all.map (fun v => (v.name, v.about)) ++ [("help", aboutHelp)]) ++ "\n" ++
    Flag.tableOf [configFlag]

/-- What is said about the word for help. -/
def helpOnHelp : String :=
  aboutHelp ++ "\n\nUsage: " ++ Verb.program ++ " help [COMMAND]...\n\nArguments:\n" ++
    Flag.table [("[COMMAND]...", "Print help for the subcommand(s)")]

/-- The help on a topic: the program, or one command. -/
def helpOn : List String → Command.Stop
  | [] => .help help
  | name :: rest =>
    let unknown (word : String) : Command.Stop := .mistake ("unrecognized subcommand '" ++ word ++ "'")
    let found? := if name = "help" then some helpOnHelp else
      (Verb.all.find? (·.name = name)).map Verb.help
    match found?, rest with
    | none, _ => unknown name
    | some text, [] => .help text
    | some _, word :: _ => unknown word

/-- Reads arguments. Without a configuration file, the default one is meant. -/
def parse (args : List String) : Except Command.Stop Invocation := do
  let (given, rest) ← Flag.read [configFlag] help args []
  match rest with
  | [] => throw (.mistake ("'" ++ Verb.program ++ "' requires a subcommand but one was not provided"))
  | name :: rest =>
    if name = "help" then throw (helpOn rest)
    match Verb.all.find? (·.name = name) with
    | none => throw (.mistake ("unrecognized subcommand '" ++ name ++ "'"))
    | some v =>
      let command ← v.read rest
      let files := given.values configFlag.name
      return ⟨if files.isEmpty then configFlag.default?.toList else files, command⟩

end Invocation

end ChainIndex
