import BlockStep.Text.Numeral

namespace BlockStep

structure Arguments where
  config : Option String
  particles : Option String
  cycles : Int
  quiet : Option Bool
  overrides : List String
  overrideFiles : List String

instance : Inhabited Arguments := ⟨⟨none, none, 1, none, [], []⟩⟩

namespace Arguments

inductive Flag where
  | help
  | config
  | particles
  | cycles
  | quiet
  | noQuiet
  | overrides
  | overrideFiles
deriving DecidableEq

def flags : List (String × Flag) :=
  [("-h", .help), ("--help", .help), ("--config", .config), ("--particles", .particles),
    ("--cycles", .cycles), ("--quiet", .quiet), ("--no-quiet", .noQuiet),
    ("--override", .overrides), ("--overrides-file", .overrideFiles)]

/-- What an argument is by its form. -/
inductive Word where
  | plain (s : String)
  | flag (f : Flag) (attached : Option String)
  | unknown
  /-- Cut so short that several options fit. -/
  | ambiguous

def named? (s : String) : Option Flag := (flags.find? fun e => e.1 == s).map (·.2)

/-- A negative number is a value and no option. -/
def isNegativeNumber (cs : List Char) : Bool :=
  let isDigit (c : Char) := (Text.digit? c).isSome
  match cs with
  | '-' :: rest =>
    let back := (rest.dropWhile isDigit)
    match back with
    | [] => !rest.isEmpty
    | '.' :: fraction => !fraction.isEmpty && fraction.all isDigit
    | _ => false
  | _ => false

/-- The name of a long option and the value attached to it. -/
def attached (s : String) : String × Option String :=
  let cs := s.toList
  match cs.dropWhile (· != '=') with
  | [] => (s, none)
  | _ :: rest => (String.ofList (cs.takeWhile (· != '=')), some (String.ofList rest))

/-- The options that a shortened one fits. -/
def fitting (s : String) : List (Flag × Option String) :=
  let (name, value) := attached s
  if s.startsWith "--" then
    (flags.filter fun e => e.1.startsWith name).map fun e => (e.2, value)
  else if s.startsWith "-h" then [(.help, none)]
  else []

def classify (s : String) : Word :=
  if !s.startsWith "-" || s == "-" then .plain s
  else
    match named? s with
    | some f => .flag f none
    | none =>
      match attached s with
      | (name, some value) =>
        match named? name with
        | some f => .flag f (some value)
        | none => shortened s
      | _ => shortened s
where
  shortened (s : String) : Word :=
    match fitting s with
    | [(f, value)] => .flag f value
    | [] =>
      if isNegativeNumber s.toList || s.contains ' ' then .plain s else .unknown
    | _ => .ambiguous

/-- Every argument behind a lone double dash is plain. -/
def classifyAll : List String → List Word
  | [] => []
  | "--" :: rest => .unknown :: rest.map .plain
  | s :: rest => classify s :: classifyAll rest

inductive Reading where
  | accepted (arguments : Arguments)
  /-- The usage is asked for. -/
  | help
  | refused

/-- Sets an option that takes one value. -/
def put (a : Arguments) (f : Flag) (value : String) : Option Arguments :=
  match f with
  | .config => some { a with config := some value }
  | .particles => some { a with particles := some value }
  | .cycles => (Text.whole? value.toList).map fun i => { a with cycles := i }
  | .overrides => some { a with overrides := a.overrides ++ [value] }
  | .overrideFiles => some { a with overrideFiles := a.overrideFiles ++ [value] }
  | .help | .quiet | .noQuiet => none

/-- Reads arguments from the left; `isOpen` tells that overrides may follow, and `hasStray` that
something was found which belongs to no option. -/
def read (a : Arguments) (isOpen hasStray : Bool) : List Word → Reading
  | [] =>
    if hasStray || a.config.isNone || a.particles.isNone then .refused else .accepted a
  | .plain s :: rest =>
    if isOpen then read { a with overrides := a.overrides ++ [s] } true hasStray rest
    else read a false true rest
  | .unknown :: rest => read a false true rest
  | .ambiguous :: _ => .refused
  | .flag f (some value) :: rest =>
    match put a f value with
    | some a => read a false hasStray rest
    | none => .refused
  | .flag .help none :: _ => .help
  | .flag .quiet none :: rest => read { a with quiet := some true } false hasStray rest
  | .flag .noQuiet none :: rest => read { a with quiet := some false } false hasStray rest
  | .flag .overrides none :: .plain s :: rest =>
    read { a with overrides := a.overrides ++ [s] } true hasStray rest
  | .flag f none :: .plain s :: rest =>
    match put a f s with
    | some a => read a false hasStray rest
    | none => .refused
  | .flag _ none :: _ => .refused

def isAmbiguous : Word → Bool
  | .ambiguous => true
  | _ => false

/-- An option that several fit is refused before any is read. -/
def parse (args : List String) : Reading :=
  let words := classifyAll args
  if words.any isAmbiguous then .refused else read default false false words

/-- The settings files and the particle files that arguments name. -/
def filesOf : Reading → List String × List String
  | .accepted a => (a.config.toList ++ a.overrideFiles, a.particles.toList)
  | .help | .refused => ([], [])

end Arguments

end BlockStep
