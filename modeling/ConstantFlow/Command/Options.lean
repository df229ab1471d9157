/-!
# Command-line options

The command takes one input file and some options.

* `-v`, `--verbose` asks for more details, each time it occurs.
* `-o`, `--output` takes the path of the report file.  It may occur once.
* `-p`, `--procedures` takes one or more names and goes on to the next option.
* `-V`, `--version` asks for the version, at once.

Arguments are read from left to right.  Options of one letter may share a
hyphen, and what follows `o` or `p` in the same argument is its value.  The value
of a long option may follow an equals sign.  Equals signs in front of a value
are dropped, and after one the option takes no further value.  After `--` every
argument is the input file.  A hyphen alone is not an option.

Anything else is a usage error: an unknown option, a second input file or none,
an option without the value that it takes, or a second `-o`.
-/

namespace ConstantFlow.Command

/-- What a run of the command is asked to do. -/
structure Options where
  /-- How often details were asked for. -/
  verbosity : Nat
  /-- The path of the report file. -/
  output : Option String
  /-- The names of the procedures to report, all of them if empty. -/
  procedures : List String
  /-- The path of the program. -/
  input : String
deriving DecidableEq

/-- What the arguments of a command ask for. -/
inductive Request
  /-- The version. -/
  | version
  /-- A run of the analysis. -/
  | analyze (options : Options)
  /-- Nothing that the command understands. -/
  | usage
deriving DecidableEq

/-! ## Reading arguments -/

/-- Which option the next word is a value of. -/
inductive Awaiting
  | nothing | output | procedures
deriving DecidableEq

/-- The arguments read so far. -/
structure Reading where
  /-- How often details were asked for. -/
  verbosity : Nat
  /-- The value of each output option, if it has got one. -/
  outputs : List (Option String)
  /-- Whether procedures were asked for. -/
  named : Bool
  /-- The names of procedures. -/
  procedures : List String
  /-- The input file. -/
  input : Option String
  /-- Which option the next word is a value of. -/
  awaiting : Awaiting
deriving DecidableEq

namespace Reading

/-- No argument has been read. -/
def initial : Reading := ⟨0, [], false, [], none, .nothing⟩

/-- The request of all arguments. -/
def finish (r : Reading) : Request :=
  if r.named ∧ r.procedures.isEmpty then .usage
  else
    match r.input, r.outputs with
    | some input, [] => .analyze ⟨r.verbosity, none, r.procedures, input⟩
    | some input, [some output] => .analyze ⟨r.verbosity, some output, r.procedures, input⟩
    | _, _ => .usage

/-- A word that is the input file, unless there is one. -/
def takeInput (r : Reading) (word : String) : Option Reading :=
  match r.input with
  | none => some { r with input := some word }
  | some _ => none

/-- A value without the equals signs in front of it. -/
def bareValue (value : List Char) : String :=
  String.ofList (value.dropWhile (· == '='))

/-- An output option, with its value if it is in the same argument. -/
def takeOutput (r : Reading) : Option (List Char) → Reading
  | some value => { r with outputs := r.outputs ++ [some (bareValue value)], awaiting := .nothing }
  | none => { r with outputs := r.outputs ++ [none], awaiting := .output }

/-- A procedures option, with its first value if it is in the same argument.
`ends` says that no further value follows. -/
def takeProcedures (r : Reading) (ends : Bool) : Option (List Char) → Reading
  | some value =>
      { r with
        named := true
        procedures := r.procedures ++ [bareValue value]
        awaiting := if ends then .nothing else .procedures }
  | none => { r with named := true, awaiting := .procedures }

/-- A request for more details. -/
def takeVerbose (r : Reading) : Reading :=
  { r with verbosity := r.verbosity + 1, awaiting := .nothing }

/-- A word that is no option. -/
def takeWord (r : Reading) (word : String) : Option Reading :=
  match r.awaiting with
  | .output =>
      some { r with outputs := r.outputs.dropLast ++ [some word], awaiting := .nothing }
  | .procedures => some { r with procedures := r.procedures ++ [word] }
  | .nothing => r.takeInput word

end Reading

/-- What one argument comes to. -/
inductive Reply
  /-- The reading goes on. -/
  | next (reading : Reading)
  /-- The version is asked for. -/
  | version
  /-- The argument is not understood. -/
  | unknown

/-- The options of one letter that share a hyphen. -/
def readLetters (r : Reading) : List Char → Reply
  | [] => .next r
  | 'v' :: rest => readLetters r.takeVerbose rest
  | 'V' :: _ => .version
  | 'o' :: rest => .next (r.takeOutput (if rest.isEmpty then none else some rest))
  | 'p' :: rest =>
      .next (r.takeProcedures (rest.head? == some '=') (if rest.isEmpty then none else some rest))
  | _ :: _ => .unknown

/-- A long option, without the hyphens in front. -/
def readLong (r : Reading) (body : List Char) : Reply :=
  let name := body.takeWhile (· != '=')
  let value :=
    match body.dropWhile (· != '=') with
    | [] => none
    | _ :: value => some value
  match String.ofList name with
  | "verbose" => .next r.takeVerbose
  | "version" => .version
  | "output" => .next (r.takeOutput value)
  | "procedures" => .next (r.takeProcedures true value)
  | _ => .unknown

/-- The arguments after `--`. -/
def readInputs (r : Reading) : List String → Request
  | [] => r.finish
  | word :: rest =>
      match r.takeInput word with
      | some r => readInputs r rest
      | none => .usage

/-- The arguments from left to right. -/
def readArguments (r : Reading) : List String → Request
  | [] => r.finish
  | argument :: rest =>
      match argument.toList with
      | ['-', '-'] => readInputs r rest
      | '-' :: '-' :: body =>
          match readLong r (body.dropWhile (· == '-')) with
          | .next r => readArguments r rest
          | .version => .version
          | .unknown => .usage
      | '-' :: c :: letters =>
          match readLetters r (c :: letters) with
          | .next r => readArguments r rest
          | .version => .version
          | .unknown => .usage
      | _ =>
          match r.takeWord argument with
          | some r => readArguments r rest
          | none => .usage

/-- The request that some arguments make. -/
def request (arguments : List String) : Request := readArguments .initial arguments

/-! ## Examples -/

example : request ["-vo", "r.json", "in.json"] = .analyze ⟨1, some "r.json", [], "in.json"⟩ := by
  decide

/-- The procedures option takes every word up to the next option. -/
example : request ["-p", "f", "in.json"] = .usage := by decide

example : request ["-p", "f", "--", "in.json"] = .analyze ⟨0, none, ["f"], "in.json"⟩ := by decide

end ConstantFlow.Command
