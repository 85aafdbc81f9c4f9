/-!
# Command lines

A command line holds options for all commands, the name of a command, and the options of that
command with the path of the crate.  Long options may be shortened as long as no other begins the
same way; short options without a value may be written together.  After two dashes everything is an
argument.

`Command.ofArguments` reads a command line.  A request for help wins over the mistakes that come
after it, except for an option that could be more than one.
-/

set_option autoImplicit false

namespace NodeSchema

/-- What to do with a crate. -/
inductive Action
  /-- Extract the schema, and write it or, for `isCheck`, compare it with what was written. -/
  | extract (output : Option String) (isCheck : Bool)
  /-- List the spellings of the tokens. -/
  | tokens
deriving DecidableEq, Repr

/-- A command. -/
structure Command where
  /-- Details are logged too. -/
  isVerbose : Bool
  /-- The file that the log is added to. -/
  logFile : Option String
  /-- The path of the crate. -/
  path : String
  action : Action
deriving DecidableEq, Repr

namespace CommandLine

/-- Why there is no command. -/
inductive Stop
  /-- Help was asked for. -/
  | help
  /-- The command line is not well formed. -/
  | usage
deriving DecidableEq, Repr

/-! ## Options -/

/-- An option. -/
inductive Switch
  | help
  | verbose
  | logFile
  | output
  | check
deriving DecidableEq, Repr

/-- The option has a value. -/
def Switch.takesValue : Switch → Bool
  | .logFile | .output => true
  | .help | .verbose | .check => false

/-- The options that can be given, by their names. -/
abbrev Switches := List (String × Switch)

/-- The options that every command has. -/
def common : Switches :=
  [("-h", .help), ("--help", .help), ("-v", .verbose), ("--verbose", .verbose)]

/-- The options that come before the name of a command. -/
def ofProgram : Switches := common ++ [("--log-file", .logFile)]

/-- The options for extracting a schema. -/
def ofExtract : Switches :=
  common ++ [("-o", .output), ("--output", .output), ("--check", .check)]

/-- The options for listing tokens. -/
def ofTokens : Switches := common

/-- The name is a short one: one dash and a letter. -/
def isShort (name : String) : Bool := name.toList[1]? ≠ some '-'

/-- What options were given. -/
structure Options where
  isVerbose : Bool
  logFile : Option String
  output : Option String
  isCheck : Bool
deriving DecidableEq, Repr

namespace Options

/-- No options. -/
def none : Options := ⟨false, .none, .none, false⟩

/-- Gives an option. -/
def give (o : Options) (s : Switch) (value : String) : Except Stop Options :=
  match s with
  | .help => .error .help
  | .verbose => .ok { o with isVerbose := true }
  | .logFile => .ok { o with logFile := value }
  | .output => .ok { o with output := value }
  | .check => .ok { o with isCheck := true }

end Options

/-! ## Words -/

/-- The value that stands in one word with its option. -/
structure Attached where
  value : String
  /-- An equals sign stands between the two. -/
  hasEquals : Bool
deriving DecidableEq, Repr

/-- What a word of a command line is. -/
inductive Word
  | argument
  | dashes
  | option (switch : Switch) (isShort : Bool) (attached : Option Attached)
  | unknown
deriving DecidableEq, Repr

/-- A word looks like a negative number. -/
def isNegativeNumber (cs : List Char) : Bool :=
  match cs with
  | '-' :: ds =>
    match ds.dropWhile Char.isDigit with
    | [] => !ds.isEmpty
    | '.' :: fs => !fs.isEmpty && fs.all Char.isDigit
    | _ => false
  | _ => false

/-- Cuts a word at its first equals sign. -/
def cutEquals (cs : List Char) : String × Option Attached :=
  let name := cs.takeWhile (· ≠ '=')
  (String.ofList name,
    match cs.drop name.length with
    | [] => none
    | _ :: value => some ⟨String.ofList value, true⟩)

/-- The options that a word may mean without naming one in full. -/
def candidates (switches : Switches) (cs : List Char) : List Word :=
  match cs with
  | '-' :: '-' :: _ =>
    let (start, attached) := cutEquals cs
    (switches.filter fun s => start.toList.isPrefixOf s.1.toList).map fun s =>
      .option s.2 (isShort s.1) attached
  | '-' :: c :: value =>
    (switches.filter fun s => s.1.toList = ['-', c]).map fun s =>
      .option s.2 true (some ⟨String.ofList value, false⟩)
  | _ => []

/-- What a word is, given the options. -/
def classify (switches : Switches) (word : String) : Except Stop Word :=
  let cs := word.toList
  if cs.head? ≠ some '-' then .ok .argument
  else
    match switches.lookup word with
    | some s => .ok (.option s (isShort word) none)
    | none =>
      if cs.length = 1 then .ok .argument
      else
        let (name, attached) := cutEquals cs
        match attached.bind fun _ => switches.lookup name with
        | some s => .ok (.option s (isShort name) attached)
        | none =>
          match candidates switches cs with
          | [] =>
            if isNegativeNumber cs || cs.contains ' ' then .ok .argument else .ok .unknown
          | [w] => .ok w
          | _ => .error .usage

/-- What the words are; after two dashes all are arguments. -/
def classifyAll (switches : Switches) : List String → Except Stop (List (String × Word))
  | [] => .ok []
  | w :: ws =>
    if w = "--" then .ok ((w, .dashes) :: ws.map fun w => (w, .argument))
    else do
      let x ← classify switches w
      let xs ← classifyAll switches ws
      .ok ((w, x) :: xs)

/-! ## Giving options -/

/-- Options that were written in one word, with what is wrong with the word. -/
structure Given where
  switches : List (Switch × String)
  /-- Characters are left that mean no option. -/
  hasRest : Bool
  /-- The last option takes the next word as its value. -/
  needsValue : Option Switch

/-- The options in the rest of a word after a short option without value. -/
def together (switches : Switches) : List Char → Except Stop Given
  | [] => .ok ⟨[], false, none⟩
  | c :: cs =>
    match switches.lookup (String.ofList ['-', c]) with
    | none => .ok ⟨[], true, none⟩
    | some s =>
      if s.takesValue then
        match cs with
        | [] => .ok ⟨[], false, some s⟩
        | '=' :: value => .ok ⟨[(s, String.ofList value)], false, none⟩
        | value => .ok ⟨[(s, String.ofList value)], false, none⟩
      else
        match cs with
        | '=' :: _ | '-' :: _ => .error .usage
        | _ => (together switches cs).map fun g => { g with switches := (s, "") :: g.switches }

/-- The options that a word gives. -/
def given (switches : Switches) (s : Switch) (isShort : Bool) (attached : Option Attached) :
    Except Stop Given :=
  match attached with
  | none => .ok (if s.takesValue then ⟨[], false, some s⟩ else ⟨[(s, "")], false, none⟩)
  | some a =>
    if s.takesValue then .ok ⟨[(s, a.value)], false, none⟩
    else if !isShort || a.hasEquals || a.value.isEmpty || a.value.toList.head? = some '-' then
      .error .usage
    else
      (together switches a.value.toList).map fun g => { g with switches := (s, "") :: g.switches }

/-- Gives options one after the other. -/
def giveAll (o : Options) (given : List (Switch × String)) : Except Stop Options :=
  given.foldlM (fun o g => o.give g.1 g.2) o

/-! ## Commands -/

/-- The words after an option, and the options with those of its word; `isOdd` tells of a word
that means nothing. -/
def consume (switches : Switches) (o : Options) (s : Switch) (isShort : Bool)
    (attached : Option Attached) (rest : List (String × Word)) :
    Except Stop (Options × Bool × List (String × Word)) := do
  let g ← given switches s isShort attached
  match g.needsValue with
  | none => .ok (← giveAll o g.switches, g.hasRest, rest)
  | some s =>
    match rest with
    | (value, .argument) :: rest => .ok (← giveAll o (g.switches ++ [(s, value)]), g.hasRest, rest)
    | _ => .error .usage

/-- What was read of the words of a command. -/
structure Progress where
  options : Options
  path : Option String
  /-- A word had no meaning. -/
  isOdd : Bool

/-- Reads the words of a command.  The first argument is the path; there is one to come after two
dashes if there was none before. -/
def words (switches : Switches) : Nat → Progress → List (String × Word) → Except Stop Progress
  | 0, p, _ => .ok p
  | _ + 1, p, [] => .ok p
  | fuel + 1, p, (w, x) :: rest =>
    match x with
    | .option s short attached => do
      let (o, isOdd, rest) ← consume switches p.options s short attached rest
      words switches fuel { p with options := o, isOdd := p.isOdd || isOdd } rest
    | .unknown => words switches fuel { p with isOdd := true } rest
    | .argument =>
      match p.path with
      | some _ => words switches fuel { p with isOdd := true } rest
      | none =>
        let rest := match rest with
          | (_, .dashes) :: after => after
          | _ => rest
        words switches fuel { p with path := w } rest
    | .dashes =>
      match p.path, rest with
      | some _, _ => .ok { p with isOdd := true }
      | none, [] => .ok p
      | none, (w, _) :: after =>
        .ok { p with path := w, isOdd := p.isOdd || !after.isEmpty }

/-- The names of the commands. -/
def commands : List (String × Switches × (Options → Action)) :=
  [("extract", ofExtract, fun o => .extract o.output o.isCheck),
   ("tokens", ofTokens, fun _ => .tokens)]

/-- Reads the words after the name of a command. -/
def command (before : Options) (isOdd : Bool) (name : String) (rest : List String) :
    Except Stop Command :=
  match commands.lookup name with
  | none => .error .usage
  | some (switches, action) => do
    let ws ← classifyAll switches rest
    let p ← words switches (ws.length + 1) ⟨.none, none, false⟩ ws
    if isOdd || p.isOdd then .error .usage
    else
      .ok ⟨before.isVerbose || p.options.isVerbose, before.logFile, p.path.getD ".",
        action p.options⟩

/-- Reads the words up to the name of a command, and then the command. -/
def program : Nat → Options → Bool → List (String × Word) → Except Stop Command
  | 0, _, _, _ => .error .usage
  | fuel + 1, o, isOdd, ws =>
    match ws with
    | [] => .error .usage
    | (w, x) :: rest =>
      match x with
      | .option s short attached => do
        let (o, odd, rest) ← consume ofProgram o s short attached rest
        program fuel o (isOdd || odd) rest
      | .unknown => program fuel o true rest
      | .dashes => .error .usage
      | .argument => command o isOdd w (rest.map Prod.fst)

end CommandLine

/-- Reads a command line. -/
def Command.ofArguments (arguments : List String) : Except CommandLine.Stop Command := do
  let ws ← CommandLine.classifyAll CommandLine.ofProgram arguments
  CommandLine.program (ws.length + 1) .none false ws

end NodeSchema
