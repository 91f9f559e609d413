import TreeSelector.CommandLine.Arguments
import TreeSelector.Config.Codec
import TreeSelector.Reading.Remembering
import TreeSelector.Rule.RuleSet

/-!
# Commands

What the command line can do: check a selector, write it in canonical form, look
for it in a captured tree, and report on the rules of a configuration.
-/

namespace TreeSelector.CommandLine

inductive Command where
  | check (selector : String)
  | format (selector : String)
  | query (tree selector : String) (all : Bool) (options : QueryOptions) (remembering : Bool)
  | rules (config : String)

namespace Command

def names : List String := ["check", "fmt", "query", "rules", "help"]

/-- Reads all arguments of a command; `words` of them are words. -/
def given (known : List Switch) (words : Nat) (args : List String) : Except Stop Given := do
  let (given, _) ← read (.verbose :: .help :: known) (some words) {} args
  if given.words.length = words then .ok given else .error .misuse

/-- The command that the arguments behind its name ask for. -/
def ofName (name : String) (args : List String) : Except Stop Command := do
  match name with
  | "check" => return .check ((← given [] 1 args).words.headD "")
  | "fmt" => return .format ((← given [] 1 args).words.headD "")
  | "query" =>
      let given ← given [.tree, .all, .quickFind, .fastQuery, .noCache] 1 args
      match given.value? .tree with
      | some tree =>
          return .query tree (given.words.headD "") (given.has .all)
            ⟨given.has .quickFind, given.has .fastQuery⟩ !(given.has .noCache)
      | none => .error .misuse
  | "rules" =>
      match (← given [.config] 0 args).value? .config with
      | some config => return .rules config
      | none => .error .misuse
  | "help" =>
      match args with
      | [] => .error .help
      | [name] => .error (if names.contains name then .help else .misuse)
      | _ => .error .misuse
  | _ => .error .misuse

/-- The command that all the arguments ask for. -/
def ofArguments (args : List String) : Except Stop Command := do
  match ← read [.verbose, .help, .version] none {} args with
  | (_, name :: args) => ofName name args
  | (_, []) => .error .misuse

def path? : Command → Option String
  | query tree .. => some tree
  | rules config => some config
  | _ => none

end Command

/-- How a command ends: its exit code, what it prints, and what it complains of. -/
structure Outcome where
  code : UInt8 := 0
  output : List String := []
  complaints : List String := []

namespace Outcome

/-- A command could not do what was asked for. -/
def failure (complaint : String) : Outcome := { code := 1, complaints := [complaint] }

def usage : List String :=
  ["usage: nodesel [-v] check <selector>",
    "       nodesel [-v] fmt <selector>",
    "       nodesel [-v] query --tree <tree> [--all] [--quick-find] [--fast-query] [--no-cache] <selector>",
    "       nodesel [-v] rules --config <config>"]

/-- What is done in place of a command. -/
def ofStop : Stop → Outcome
  | .help => { output := usage }
  | .version => { output := ["nodesel 0.1.0"] }
  | .misuse => { code := 2, complaints := usage }

end Outcome

section Reports

/-- A selector that can be read and has no type error. -/
def checked (source : String) : Except SelectorError Chain := do
  let chain ← Chain.parse source
  chain.checkTypes
  return chain

def nodeLine (tree : Tree) (node : NodeId) : String :=
  let entry := tree.entry? node
  Json.render <| .object [
    ("id", Json.ofOption .string (entry.bind (·.data.id))),
    ("index", Json.ofNat node),
    ("text", Json.ofOption .string (entry.bind (·.data.text)))]

/-- The nodes of a tree that a selector finds from the root on. -/
def found (view : View) (chain : Chain) (all : Bool) (options : QueryOptions) :
    Reading (List NodeId) := do
  match ← view.root with
  | none => return []
  | some root =>
      if all then chain.queryAll view options root
      else return (← chain.query view options root).toList

def query (chain : Chain) (tree : Tree) (all : Bool) (options : QueryOptions)
    (remembering : Bool) : Outcome :=
  let view := Host.view { tree } remembering
  let (nodes, _) := (found view chain all options).run (.fresh defaultCapacity)
  { code := if nodes.isEmpty then 1 else 0, output := nodes.map (nodeLine tree) }

def truth (value : Bool) : String := if value then "true" else "false"

def ruleLine (rule : Rule) : String :=
  let definition := rule.definition
  rule.key ++ ": " ++ (rule.status 0).title ++ " (cache: " ++ truth definition.revisitsTree ++
    ", slow: " ++ truth (definition.selector.isSlow definition.options) ++ ")"

def rules (config : EngineConfig) : Outcome :=
  let set := RuleSet.compile config 0 0
  { output := set.rejected.map (·.key ++ ": rejected") ++ set.rules.map ruleLine
    complaints := set.rejected.map (·.error.message) ++
      set.rules.filterMap fun rule => rule.definition.checkError.map (·.message) }

end Reports

namespace Command

/-- Does what a command asks for, given the contents of the file it reads if that
can be read. -/
def run (command : Command) (contents : Option String) : Outcome :=
  match command with
  | check selector =>
      match checked selector with
      | .ok chain => { output := [chain.render] }
      | .error error => .failure error.message
  | format selector =>
      match Chain.parse selector with
      | .ok chain => { output := [chain.render] }
      | .error error => .failure error.message
  | query _ selector all options remembering =>
      match checked selector, contents.bind CapturedNode.read? with
      | .error error, _ => .failure error.message
      | .ok _, none => .failure "cannot load the tree"
      | .ok chain, some root =>
          CommandLine.query chain (.ofCaptured root) all options remembering
  | rules _ =>
      match contents.bind EngineConfig.read? with
      | some config => CommandLine.rules config
      | none => .failure "cannot load the configuration"

end Command

/-- Does what the arguments ask for; `contentsOf` tells what is in a file. -/
def run [Monad m] (contentsOf : String → m (Option String)) (args : List String) : m Outcome := do
  match Command.ofArguments args with
  | .error stop => return .ofStop stop
  | .ok command =>
      match command.path? with
      | some path => return command.run (← contentsOf path)
      | none => return command.run none

end TreeSelector.CommandLine
