import TreeSelector.Text.Search

/-!
# Arguments

What the arguments of the command line ask for.  Options come in a long form and
some in a short one; short ones can be run together, and a value follows its
option in the same argument or in the next one.  Two dashes end the options.
Arguments are read from left to right up to the first that decides the matter.
-/

namespace TreeSelector.CommandLine

inductive Switch where
  | verbose | help | version | tree | all | quickFind | fastQuery | noCache | config
  deriving DecidableEq, Repr

namespace Switch

def long : Switch → String
  | verbose => "verbose"
  | help => "help"
  | version => "version"
  | tree => "tree"
  | all => "all"
  | quickFind => "quick-find"
  | fastQuery => "fast-query"
  | noCache => "no-cache"
  | config => "config"

def short? : Switch → Option Char
  | verbose => some 'v'
  | help => some 'h'
  | version => some 'V'
  | tree => some 't'
  | config => some 'c'
  | _ => none

def takesValue : Switch → Bool
  | tree | config => true
  | _ => false

end Switch

/-- Why the arguments are not read any further. -/
inductive Stop where
  | help
  | version
  /-- The arguments make no sense. -/
  | misuse
  deriving DecidableEq, Repr

/-- The options and words that were given. -/
structure Given where
  switches : List (Switch × String) := []
  words : List String := []

namespace Given

def has (given : Given) (switch : Switch) : Bool := given.switches.any (·.1 = switch)

def value? (given : Given) (switch : Switch) : Option String := given.switches.lookup switch

/-- Takes note of an option with its value.  No option is given twice, and no value
is empty. -/
def take (given : Given) (switch : Switch) (value : String) : Except Stop Given :=
  match switch with
  | .help => .error .help
  | .version => .error .version
  | switch =>
      if given.has switch || (switch.takesValue && value.isEmpty) then .error .misuse
      else .ok { given with switches := given.switches ++ [(switch, value)] }

/-- Takes note of a word that is no option.  There are no more than `limit` of them. -/
def takeWord (limit : Nat) (given : Given) (word : String) : Except Stop Given :=
  if given.words.length < limit then .ok { given with words := given.words ++ [word] }
  else .error .misuse

end Given

/-- The next argument as a value; options are none. -/
def nextValue? : List String → Option String
  | [] => none
  | value :: _ =>
      if Text.beginsWith value "-" && value ≠ "-" then none else some value

/-- Reads the letters of short options, and whether the next argument was used up. -/
def readLetters (known : List Switch) (rest : List String) :
    Given → List Char → Except Stop (Given × Bool)
  | given, [] => .ok (given, false)
  | given, letter :: letters =>
      match known.find? (·.short? = some letter) with
      | none => .error .misuse
      | some switch =>
          if switch.takesValue then
            match letters with
            | [] =>
                match nextValue? rest with
                | some value => (given.take switch value).map (·, true)
                | none => .error .misuse
            | '=' :: value => (given.take switch (String.ofList value)).map (·, false)
            | value => (given.take switch (String.ofList value)).map (·, false)
          else
            match given.take switch "" with
            | .ok given => readLetters known rest given letters
            | .error stop => .error stop

/-- Reads a long option, and whether the next argument was used up. -/
def readLong (known : List Switch) (rest : List String) (given : Given) (body : List Char) :
    Except Stop (Given × Bool) :=
  let name := String.ofList (body.takeWhile (· ≠ '='))
  match known.find? (·.long == name), body.dropWhile (· ≠ '=') with
  | none, _ => .error .misuse
  | some switch, [] =>
      if switch.takesValue then
        match nextValue? rest with
        | some value => (given.take switch value).map (·, true)
        | none => .error .misuse
      else (given.take switch "").map (·, false)
  | some switch, _ :: value =>
      if switch.takesValue then (given.take switch (String.ofList value)).map (·, false)
      else .error .misuse

/-- Reads one argument that is an option, and whether the next one was used up. -/
def readOption (known : List Switch) (rest : List String) (given : Given) (arg : String) :
    Option (Except Stop (Given × Bool)) :=
  match arg.toList with
  | '-' :: '-' :: body => some (readLong known rest given body)
  | '-' :: letter :: letters => some (readLetters known rest given (letter :: letters))
  | _ => none

/-- Reads arguments: all of them, with up to `words` words among them, or those before
the first word. -/
def read (known : List Switch) (words : Option Nat) (given : Given) :
    List String → Except Stop (Given × List String)
  | [] => .ok (given, [])
  | arg :: rest =>
      if arg = "--" then
        (rest.foldlM (Given.takeWord (words.getD 0)) given).map (·, [])
      else
        match readOption known rest given arg, words with
        | none, none => .ok (given, arg :: rest)
        | none, some limit =>
            match given.takeWord limit arg with
            | .ok given => read known words given rest
            | .error stop => .error stop
        | some (.error stop), _ => .error stop
        | some (.ok (given, true)), _ => read known words given rest.tail
        | some (.ok (given, false)), _ => read known words given rest
  termination_by args => args.length
  decreasing_by all_goals (simp only [List.length_cons, List.length_tail]; omega)

end TreeSelector.CommandLine
