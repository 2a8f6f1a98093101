import LibPaxos.Messages
import LibPaxos.Text

namespace LibPaxos

open Text

def MAX_ADDR : Nat := 10

structure Address where
  addressString : List UInt8
  port : Int
  deriving Repr, DecidableEq

-- An array of `struct config` with its count. An entry that was never written has a
-- NULL address.
structure AddressTable where
  count : Nat
  entries : List (Option Address)
  length : entries.length = MAX_ADDR
  deriving DecidableEq

structure Config where
  proposers : AddressTable
  acceptors : AddressTable
  deriving DecidableEq

inductive Verbosity where
  | quiet
  | error
  | info
  | debug
  deriving Repr, DecidableEq

-- All of `struct paxos_config`, with its defaults.
structure PaxosSettings extends PaxosConfig where
  verbosity : Verbosity := .info
  proposerPreexecWindow : Int := 128
  bdbSync : Bool := false
  bdbCachesize : Int := 32 * 1024 * 1024
  bdbEnvPath : List UInt8 := bytes "/tmp/acceptor"
  bdbDbFilename : List UInt8 := bytes "acc.bdb"
  bdbTrashFiles : Bool := false
  deriving Repr, DecidableEq

-- What `read_config` writes: the config it returns and the global settings.
structure ConfigReader where
  config : Config
  settings : PaxosSettings
  deriving DecidableEq

-- The pointer to the value of an option is the update made through it.
inductive OptionType where
  | boolean (store : Bool → PaxosSettings → PaxosSettings)
  | integer (store : Int → PaxosSettings → PaxosSettings)
  | string (store : List UInt8 → PaxosSettings → PaxosSettings)
  | verbosity (store : Verbosity → PaxosSettings → PaxosSettings)

structure ConfigOption where
  name : List UInt8
  type : OptionType

def options : List ConfigOption :=
  [⟨bytes "verbosity", .verbosity fun v s => { s with verbosity := v }⟩,
    ⟨bytes "learner-catch-up", .boolean fun v s => { s with learnerCatchUp := v }⟩,
    ⟨bytes "proposer-timeout", .integer fun v s => { s with proposerTimeout := v }⟩,
    ⟨bytes "proposer-preexec-window", .integer fun v s => { s with proposerPreexecWindow := v }⟩,
    ⟨bytes "bdb-sync", .boolean fun v s => { s with bdbSync := v }⟩,
    ⟨bytes "bdb-cachesize", .integer fun v s => { s with bdbCachesize := v }⟩,
    ⟨bytes "bdb-env-path", .string fun v s => { s with bdbEnvPath := v }⟩,
    ⟨bytes "bdb-db-filename", .string fun v s => { s with bdbDbFilename := v }⟩,
    ⟨bytes "bdb-trash-files", .boolean fun v s => { s with bdbTrashFiles := v }⟩]

-- The text without the white space around it.
def trim (s : List UInt8) : List UInt8 := (s.dropWhile isspace).rdropWhile isspace

-- A pointer to a string is `none` if it is NULL.
def strtrim : Option (List UInt8) → Except Fault (List UInt8)
  | none => .error .nullPointer
  | some s => .ok (trim s)

def parseBoolean : Option (List UInt8) → Option Bool
  | none => none
  | some str =>
      if strcaseeq str (bytes "yes") then some true
      else if strcaseeq str (bytes "no") then some false
      else none

def parseInteger : Option (List UInt8) → Option Int
  | none => none
  | some str => (scanInt str).map Prod.fst

def parseString : Option (List UInt8) → Option (List UInt8)
  | none => none
  | some str => if str = [] ∨ str.head? = some 10 then none else some str

def parseVerbosity : Option (List UInt8) → Except Fault (Option Verbosity)
  | none => .error .nullPointer
  | some str =>
      .ok (if strcaseeq str (bytes "quiet") then some .quiet
        else if strcaseeq str (bytes "error") then some .error
        else if strcaseeq str (bytes "info") then some .info
        else if strcaseeq str (bytes "debug") then some .debug
        else none)

def addressInit (table : AddressTable) (i : Nat) (addr : Address) : Except Fault AddressTable :=
  if i < MAX_ADDR then
    .ok { table with
      entries := table.entries.set i (some addr)
      length := by rw [List.length_set, table.length] }
  else .error .outOfBounds

-- `sscanf` with the format `%d %s %d`. The word is copied to a buffer of 128 bytes with
-- a NUL behind it, before the port is read.
def parseAddress (str : Option (List UInt8)) (table : AddressTable) (i : Nat) :
    Except Fault (AddressTable × Bool) :=
  match str with
  | none => .error .nullPointer
  | some str =>
      match scanInt str with
      | none => .ok (table, false)
      | some (_, str) =>
          match scanWord str with
          | none => .ok (table, false)
          | some (address, str) =>
              if address.length + 1 > 128 then .error .outOfBounds
              else
                match scanInt str with
                | none => .ok (table, false)
                | some (port, _) =>
                    (addressInit table i ⟨address, port⟩).map fun table => (table, true)

def lookupOption (opt : List UInt8) : Option ConfigOption :=
  options.find? fun o => strcaseeq o.name opt

-- The lines an option prints, and the settings unless it returns 0.
def parseOption (opt : ConfigOption) (line : List UInt8) (s : PaxosSettings) :
    Except Fault (List String × Option PaxosSettings) :=
  match opt.type with
  | .boolean store =>
      match parseBoolean (some line) with
      | none => .ok (["Expected 'yes' or 'no'"], none)
      | some v => .ok ([], some (store v s))
  | .integer store =>
      match parseInteger (some line) with
      | none => .ok (["Expected number"], none)
      | some v => .ok ([], some (store v s))
  | .string store =>
      match parseString (some line) with
      | none => .ok (["Expected string"], none)
      | some v => .ok ([], some (store v s))
  | .verbosity store => do
      match ← parseVerbosity (some line) with
      | none => return (["Expected quiet, error, info, or debug"], none)
      | some v => return ([], some (store v s))

-- An address line. Its entry is the next one of its table.
def parseNextAddress (str : Option (List UInt8)) (table : AddressTable) :
    Except Fault (AddressTable × Bool) :=
  parseAddress str { table with count := table.count + 1 } table.count

-- The part of `parse_line` behind `strsep`: the lines that are printed, and the reader
-- unless it returns 0.
def parseKeyword (tok : List UInt8) (line : Option (List UInt8)) (r : ConfigReader) :
    Except Fault (List String × Option ConfigReader) :=
  if strcaseeq tok (bytes "a") then do
    let (table, rv) ← parseNextAddress line r.config.acceptors
    return ([], if rv then some { r with config := { r.config with acceptors := table } } else none)
  else if strcaseeq tok (bytes "p") then do
    let (table, rv) ← parseNextAddress line r.config.proposers
    return ([], if rv then some { r with config := { r.config with proposers := table } } else none)
  else do
    let line ← strtrim line
    match lookupOption tok with
    | none => return ([], none)
    | some opt =>
        let (printed, settings) ← parseOption opt line r.settings
        return (printed, settings.map fun settings => { r with settings := settings })

def parseLine (line : List UInt8) (r : ConfigReader) :
    Except Fault (List String × Option ConfigReader) := do
  let line ← strtrim (some line)
  let (tok, line) := strsep 32 line
  parseKeyword tok line r

-- `exit` comes with all that was printed.
inductive ReadResult where
  | config (r : ConfigReader)
  | exit (printed : List String)
  deriving DecidableEq

-- The lines that `read_config` passes over.
def skipsLine (line : List UInt8) : Bool := line.head? = some 35 ∨ line.head? = some 10

def readLines (path : String) : Nat → List (List UInt8) → ConfigReader → Except Fault ReadResult
  | _, [], r => .ok (.config r)
  | linenumber, line :: rest, r =>
      if skipsLine line then readLines path (linenumber + 1) rest r
      else do
        match ← parseLine (cstring line) r with
        | (printed, none) =>
            return .exit (printed ++ [s!"Please, check line {linenumber}",
              s!"Error parsing config file {path}"])
        | (_, some r) => readLines path (linenumber + 1) rest r

-- The lines of `read_config`, whose buffer has 512 bytes.
def configLines (file : List UInt8) : List (List UInt8) := fgetsLines (512 - 1) file

def AddressTable.empty : AddressTable where
  count := 0
  entries := List.replicate MAX_ADDR none
  length := by rw [List.length_replicate]

-- A file that cannot be opened is `none`.
def readConfig (path : String) (file : Option (List UInt8)) (settings : PaxosSettings) :
    Except Fault ReadResult :=
  match file with
  | none => .ok (.exit [s!"Error: can't open config file {path}"])
  | some file => readLines path 0 (configLines file) ⟨⟨.empty, .empty⟩, settings⟩

end LibPaxos
